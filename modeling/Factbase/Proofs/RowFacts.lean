import Mathlib.Data.List.Basic
import Mathlib.Data.List.Lex
import Factbase.Row

/-! # The facts of rows

What stands in a JSON value stands at a place, which tells the way down by the numbers of the
members and items (`Json.at?`), and on the way lie the names of the members. The facts of a row are
its type and, in the order of their places, one fact for each scalar that does not lie under the
member `type` (`Row.Tells`). Rows are read up to the first that is no object, and if there is none,
each gives its facts (`Row.factsOfAll_tells`). -/

namespace Factbase

namespace Json

/-- The values right below a value, with the name of a member and no name for an item. -/
def children : Json → List (List String × Json)
  | .object members => members.map fun m => ([m.1], m.2)
  | .array items => items.map fun item => ([], item)
  | _ => []

/-- What stands at a place of a value, with the names on the way down. -/
def at? (json : Json) : List Nat → Option (List String × Json)
  | [] => some ([], json)
  | i :: place => do
    let (names, child) ← json.children[i]?
    let (more, found) ← child.at? place
    return (names ++ more, found)

theorem sizeOf_lt_of_mem_children {json : Json} {c : List String × Json}
    (h : c ∈ json.children) : sizeOf c.2 < sizeOf json := by
  cases json with
  | object members =>
    obtain ⟨m, hm, rfl⟩ := List.mem_map.1 h
    have hlt := List.sizeOf_lt_of_mem hm
    obtain ⟨name, value⟩ := m
    simp only [object.sizeOf_spec, Prod.mk.sizeOf_spec] at hlt ⊢
    omega
  | array items =>
    obtain ⟨item, hitem, rfl⟩ := List.mem_map.1 h
    have hlt := List.sizeOf_lt_of_mem hitem
    simp only [array.sizeOf_spec]
    omega
  | _ => simp [children] at h

/-- Induction from the values below a value to the value. -/
theorem induct {P : Json → Prop} (h : ∀ json, (∀ c ∈ json.children, P c.2) → P json)
    (json : Json) : P json :=
  h json fun c _ => induct h c.2
termination_by json
decreasing_by exact sizeOf_lt_of_mem_children ‹_›

/-- A scalar in a value: its place, the names on the way down, and what it is. -/
structure Scalar where
  place : List Nat
  names : List String
  value : Atom

namespace Scalar

/-- Whether the scalar stands where it says. -/
def IsIn (s : Scalar) (json : Json) : Prop :=
  ∃ leaf, json.at? s.place = some (s.names, leaf) ∧ Atom.ofJson? leaf = some s.value

/-- The scalar as it stands in a value that has the one in which it stands below it. -/
def below (i : Nat) (names : List String) (s : Scalar) : Scalar :=
  ⟨i :: s.place, names ++ s.names, s.value⟩

end Scalar

/-- The scalars of a value, from the front. -/
def scalars (json : Json) : List Scalar :=
  (Atom.ofJson? json).toList.map (⟨[], [], ·⟩) ++
    json.children.zipIdx.attach.flatMap fun c => (scalars c.1.1.2).map (.below c.1.2 c.1.1.1)
termination_by json
decreasing_by exact sizeOf_lt_of_mem_children (List.fst_mem_of_mem_zipIdx c.2)

theorem scalars_eq (json : Json) :
    json.scalars = (Atom.ofJson? json).toList.map (⟨[], [], ·⟩) ++
      json.children.zipIdx.flatMap fun c => c.1.2.scalars.map (.below c.2 c.1.1) := by
  rw [scalars]
  conv_rhs => rw [← List.attach_map_subtype_val json.children.zipIdx, List.flatMap_map]

/-- Values that are neither objects nor arrays. -/
def isScalar : Json → Bool
  | .object _ | .array _ => false
  | _ => true

/-- Every scalar is kept as a value. -/
theorem exists_ofJson? {json : Json} (h : json.isScalar = true) :
    ∃ a, Atom.ofJson? json = some a := by
  cases json with
  | object members => simp [isScalar] at h
  | array items => simp [isScalar] at h
  | _ => exact ⟨_, rfl⟩

/-- Nothing lies below a scalar. -/
theorem children_of_ofJson? {json : Json} {a : Atom} (h : Atom.ofJson? json = some a) :
    json.children = [] := by
  cases json <;> first | rfl | simp [Atom.ofJson?] at h

/-- The scalars of a value are those that stand in it. -/
theorem mem_scalars_iff {json : Json} {s : Scalar} : s ∈ json.scalars ↔ s.IsIn json := by
  induction json using induct generalizing s with
  | h json ih =>
    rw [scalars_eq, List.mem_append]
    constructor
    · -- a scalar is the value itself, or one of a value right below it
      rintro (hroot | hbelow)
      · obtain ⟨a, ha, rfl⟩ := List.mem_map.1 hroot
        exact ⟨json, rfl, Option.mem_toList.1 ha⟩
      · obtain ⟨c, hc, hs⟩ := List.mem_flatMap.1 hbelow
        obtain ⟨t, ht, rfl⟩ := List.mem_map.1 hs
        obtain ⟨leaf, hat, hleaf⟩ := (ih _ (List.fst_mem_of_mem_zipIdx hc)).1 ht
        refine ⟨leaf, ?_, hleaf⟩
        simp [at?, Scalar.below, List.mem_zipIdx_iff_getElem?.1 hc, hat]
    · rintro ⟨leaf, hat, hleaf⟩
      obtain ⟨place, names, a⟩ := s
      cases place with
      | nil =>
        obtain ⟨rfl, rfl⟩ : [] = names ∧ json = leaf := by simpa [at?] using hat
        exact .inl (List.mem_map.2 ⟨a, Option.mem_toList.2 hleaf, rfl⟩)
      | cons i place =>
        simp only [at?, Option.bind_eq_bind, Option.bind_eq_some_iff] at hat
        obtain ⟨⟨first, child⟩, hc, ⟨more, found⟩, hat, heq⟩ := hat
        obtain ⟨rfl, rfl⟩ : first ++ more = names ∧ found = leaf := by simpa using heq
        refine .inr (List.mem_flatMap.2 ⟨((first, child), i),
          List.mem_zipIdx_iff_getElem?.2 hc, List.mem_map.2 ⟨⟨place, more, a⟩, ?_, rfl⟩⟩)
        exact (ih _ (List.mem_of_getElem? hc)).2 ⟨found, hat, hleaf⟩

/-- The numbers in a numbered list ascend. -/
theorem pairwise_zipIdx {α : Type} (as : List α) (n : Nat) :
    (as.zipIdx n).Pairwise fun a b => a.2 < b.2 := by
  induction as generalizing n with
  | nil => exact .nil
  | cons a as ih => exact .cons (fun b hb => List.le_snd_of_mem_zipIdx hb) (ih (n + 1))

/-- The scalars of a value come in the order of their places. -/
theorem pairwise_scalars (json : Json) :
    json.scalars.Pairwise fun s s' => s.place < s'.place := by
  induction json using induct with
  | h json ih =>
    rw [scalars_eq]
    cases hleaf : Atom.ofJson? json with
    | some a =>
      rw [children_of_ofJson? hleaf]
      exact List.pairwise_singleton _ _
    | none =>
      rw [Option.toList_none, List.map_nil, List.nil_append, List.pairwise_flatMap]
      -- places below one child differ further down, those below two children in their first number
      refine ⟨fun c hc => ?_, (pairwise_zipIdx _ 0).imp fun hlt s hs s' hs' => ?_⟩
      · refine List.pairwise_map.2 ((ih _ (List.fst_mem_of_mem_zipIdx hc)).imp fun hplace => ?_)
        exact List.cons_lt_cons_iff.2 (.inr ⟨rfl, hplace⟩)
      · obtain ⟨s, -, rfl⟩ := List.mem_map.1 hs
        obtain ⟨s', -, rfl⟩ := List.mem_map.1 hs'
        exact List.cons_lt_cons_iff.2 (.inl hlt)

end Json

namespace Row

open Json (Scalar)

/-! ## One row -/

/-- The fact of a scalar: its attribute joins the names on the way down to it. -/
def scalarFact (entity : String) (s : Scalar) : Fact :=
  ⟨entity, ".".intercalate s.names, s.value⟩

/-- What a row is told to be: an entity of its type, with a fact for each scalar that does not lie
under the member that would name a type, in the order in which they stand in the row. None is left
out, whatever the scalar is. -/
def Tells (entity entityType : String) (row : Json) (facts : List Fact) : Prop :=
  ∃ scalars : List Scalar,
    facts = .ofType entity entityType :: scalars.map (scalarFact entity) ∧
    scalars.Pairwise (fun s s' => s.place < s'.place) ∧
    (∀ s, s ∈ scalars ↔ s.IsIn row ∧ s.names.head? ≠ some typeAttribute) ∧
    ∀ place names leaf, row.at? place = some (names, leaf) → leaf.isScalar = true →
      names.head? ≠ some typeAttribute → ∃ s ∈ scalars, s.place = place

variable {entity entityType attr : String} {facts : List Fact}

/-- Joined texts are joined to more texts. -/
theorem intercalate_intercalate (mark first : String) (texts more : List String) :
    mark.intercalate (mark.intercalate (first :: texts) :: more) =
      mark.intercalate (first :: (texts ++ more)) := by
  induction texts generalizing first with
  | nil => rfl
  | cons text texts ih => exact ih (first ++ mark ++ text)

theorem memberFacts_eq (entity attr : String) (members : List (String × Json)) :
    memberFacts entity attr members =
      members.flatMap fun m => valueFacts entity (attr ++ "." ++ m.1) m.2 := by
  induction members with
  | nil => rfl
  | cons m rest ih => rw [memberFacts, ih, List.flatMap_cons]

theorem itemFacts_eq (entity attr : String) (items : List Json) :
    itemFacts entity attr items = items.flatMap fun item => valueFacts entity attr item := by
  induction items with
  | nil => rfl
  | cons item rest ih => rw [itemFacts, ih, List.flatMap_cons]

/-- The facts of a value are its own, if it is a scalar, and those of the values below it. -/
theorem valueFacts_eq_flatMap (entity attr : String) (json : Json) :
    valueFacts entity attr json =
      (Atom.ofJson? json).toList.map (⟨entity, attr, ·⟩) ++
        json.children.flatMap fun c => valueFacts entity (".".intercalate (attr :: c.1)) c.2 := by
  cases json with
  | object members =>
    rw [valueFacts, memberFacts_eq, Json.children, List.flatMap_map]
    rfl
  | array items =>
    rw [valueFacts, itemFacts_eq, Json.children, List.flatMap_map]
    rfl
  | _ => simp [valueFacts, Atom.ofJson?, Json.children]

/-- The facts of a value are those of the scalars in it. -/
theorem valueFacts_eq (entity attr : String) (json : Json) :
    valueFacts entity attr json =
      json.scalars.map fun s => ⟨entity, ".".intercalate (attr :: s.names), s.value⟩ := by
  induction json using Json.induct generalizing attr with
  | h json ih =>
    have hchildren : (json.children.flatMap fun c =>
        valueFacts entity (".".intercalate (attr :: c.1)) c.2) =
        json.children.zipIdx.flatMap fun c =>
          valueFacts entity (".".intercalate (attr :: c.1.1)) c.1.2 := by
      conv_lhs => rw [← List.zipIdx_map_fst 0 json.children, List.flatMap_map]
    rw [valueFacts_eq_flatMap, hchildren, Json.scalars_eq, List.map_append, List.map_flatMap,
      List.map_map]
    congr 1
    refine List.flatMap_congr fun c hc => ?_
    rw [ih _ (List.fst_mem_of_mem_zipIdx hc), List.map_map]
    refine List.map_congr_left fun s _ => ?_
    rw [Function.comp_apply, intercalate_intercalate]
    rfl

/-- The facts of the members of an object, the one that would name a type left out, are those of the
scalars that do not lie under it. -/
theorem flatMap_valueFacts_eq (entity : String) (members : List (String × Json)) :
    ((members.filter (·.1 != typeAttribute)).flatMap fun m => valueFacts entity m.1 m.2) =
      ((Json.object members).scalars.filter
        fun s => s.names.head? != some typeAttribute).map (scalarFact entity) := by
  have hscalars : (Json.object members).scalars =
      (members.map fun m => ([m.1], m.2)).zipIdx.flatMap
        fun c => c.1.2.scalars.map (.below c.2 c.1.1) := by
    rw [Json.scalars_eq]
    rfl
  rw [hscalars, List.filter_flatMap, List.map_flatMap]
  clear hscalars
  -- the numbers of the members go into the places only, so they may start anywhere
  generalize 0 = n
  induction members generalizing n with
  | nil => rfl
  | cons m rest ih =>
    -- a scalar of a member lies under the name of the member
    have hname : ((fun s : Scalar => s.names.head? != some typeAttribute) ∘ .below n [m.1]) =
        fun _ => m.1 != typeAttribute := rfl
    rw [List.map_cons, List.zipIdx_cons, List.flatMap_cons, ← ih (n + 1), List.filter_map, hname]
    cases hm : m.1 != typeAttribute with
    | false => rw [List.filter_cons_of_neg (by simp [hm]), List.filter_false]; rfl
    | true =>
      rw [List.filter_cons_of_pos (by simp [hm]), List.flatMap_cons, List.filter_true, List.map_map,
        valueFacts_eq]
      rfl

/-- The id that a row has of its own: the text or the number of its member `id`, as text. -/
def explicitId? (row : Json) : Option String :=
  match row.member? "id" with
  | some (.text id) => some id
  | some (.integer n) => some (toString n)
  | some (.float x) => some (Number.jsonText x)
  | _ => none

/-- The entity that a row becomes: it is named by the type and the row's own id, or its number. -/
def entityName (entityType : String) (index : Nat) (row : Json) : String :=
  entityType ++ ":" ++ (explicitId? row).getD (toString index)

theorem localName_eq (index : Nat) (members : List (String × Json)) :
    localName index members = (explicitId? (.object members)).getD (toString index) := by
  simp only [localName, explicitId?, Json.member?]
  cases members.lookup "id" with
  | none => rfl
  | some id => cases id <;> rfl

/-- The facts of an object tell what it is. -/
theorem tells_objectFacts (entityType : String) (index : Nat) (members : List (String × Json)) :
    Tells (entityName entityType index (.object members)) entityType (.object members)
      (objectFacts entityType index members) := by
  have hmem : ∀ s : Scalar,
      s ∈ (Json.object members).scalars.filter (fun s => s.names.head? != some typeAttribute) ↔
        s.IsIn (.object members) ∧ s.names.head? ≠ some typeAttribute := by
    intro s
    rw [List.mem_filter, Json.mem_scalars_iff, bne_iff_ne]
  refine ⟨_, ?_, (Json.pairwise_scalars _).filter _, hmem,
    fun place names leaf hat hleaf hnames => ?_⟩
  · rw [objectFacts, localName_eq, flatMap_valueFacts_eq]
    rfl
  · obtain ⟨a, ha⟩ := Json.exists_ofJson? hleaf
    exact ⟨⟨place, names, a⟩, (hmem _).2 ⟨⟨leaf, hat, ha⟩, hnames⟩, rfl⟩

/-- Joined names are the attribute of types only when there is one name and it is that. -/
theorem eq_of_intercalate_eq {names : List String}
    (h : ".".intercalate names = typeAttribute) : names = [typeAttribute] := by
  have hchars := congrArg String.toList h
  rw [String.toList_intercalate] at hchars
  match names with
  | [] => exact absurd h (by decide)
  | [name] => rw [← h]; rfl
  | name :: next :: rest =>
    have hpoint : '.' ∈ typeAttribute.toList := by
      rw [← hchars, List.map_cons, List.map_cons, List.intercalate_cons_cons]
      simp
    exact absurd hpoint (by decide)

/-- No fact of a row under the attribute of types carries anything but its type. -/
theorem Tells.value_eq {row : Json} (h : Tells entity entityType row facts) {f : Fact}
    (hf : f ∈ facts) (hattr : f.attr = typeAttribute) : f.value = .text entityType := by
  obtain ⟨scalars, rfl, -, hscalars, -⟩ := h
  rcases List.mem_cons.1 hf with rfl | hf
  · rfl
  · obtain ⟨s, hs, rfl⟩ := List.mem_map.1 hf
    have hnames : s.names = [typeAttribute] := eq_of_intercalate_eq hattr
    exact absurd (by rw [hnames]; rfl) ((hscalars s).1 hs).2

/-! ## Rows in order -/

/-- Objects among JSON values. -/
def isObject : Json → Bool
  | .object _ => true
  | _ => false

variable {rows : List Json} {row : Json} {index : Nat}

theorem facts?_eq_none (h : isObject row = false) : facts? entityType index row = none := by
  cases row <;> first | rfl | simp [isObject] at h

theorem exists_facts?_eq (entityType : String) (index : Nat) (h : isObject row = true) :
    ∃ facts, facts? entityType index row = some facts := by
  cases row with
  | object members => exact ⟨_, rfl⟩
  | _ => simp [isObject] at h

/-- The facts of a row tell what it is. -/
theorem tells_of_facts? (h : facts? entityType index row = some facts) :
    Tells (entityName entityType index row) entityType row facts := by
  cases row with
  | object members =>
    rw [← Option.some.inj h]
    exact tells_objectFacts entityType index members
  | _ => simp [facts?] at h

/-- Rows up to one that is no object give no facts but its number. -/
theorem factsFrom_eq_error {k : Nat} (h : rows.findIdx? (fun row => !isObject row) = some k)
    (index : Nat) : factsFrom entityType index rows = .error (index + k) := by
  induction rows generalizing index k with
  | nil => simp at h
  | cons row rest ih =>
    rw [List.findIdx?_cons] at h
    cases hrow : isObject row with
    | false =>
      obtain rfl : 0 = k := by simpa [hrow] using h
      rw [factsFrom, facts?_eq_none hrow]
      rfl
    | true =>
      obtain ⟨facts, hfacts⟩ := exists_facts?_eq entityType index hrow
      simp only [hrow, Bool.not_true, Bool.false_eq_true, if_false, Option.map_eq_some_iff] at h
      obtain ⟨k, hk, rfl⟩ := h
      rw [factsFrom, hfacts]
      simp only [ih hk (index + 1)]
      exact congrArg Except.error (by omega)

/-- Objects give their facts one after the other. -/
theorem exists_factsFrom_eq (entityType : String) (index : Nat)
    (h : ∀ row ∈ rows, isObject row = true) :
    ∃ parts : List (List Fact), factsFrom entityType index rows = .ok parts.flatten ∧
      parts.length = rows.length ∧
      ∀ i row part, rows[i]? = some row → parts[i]? = some part →
        facts? entityType (index + i) row = some part := by
  induction rows generalizing index with
  | nil => exact ⟨[], rfl, rfl, fun i row part hrow => by simp at hrow⟩
  | cons first rest ih =>
    obtain ⟨facts, hfacts⟩ := exists_facts?_eq entityType index (h first List.mem_cons_self)
    obtain ⟨parts, hparts, hlength, hget⟩ :=
      ih (index + 1) fun row hrow => h row (List.mem_cons_of_mem _ hrow)
    refine ⟨facts :: parts, ?_, by rw [List.length_cons, hlength, List.length_cons],
      fun i row part hrow hpart => ?_⟩
    · rw [factsFrom, hfacts]
      simp only [hparts]
      rfl
    · cases i with
      | zero =>
        obtain rfl := Option.some.inj hrow
        obtain rfl := Option.some.inj hpart
        exact hfacts
      | succ i =>
        rw [← Nat.succ_add_eq_add_succ]
        exact hget i row part hrow hpart

/-- Objects give their facts in the order in which they stand, numbered from zero. -/
theorem exists_parts (entityType : String) (h : ∀ row ∈ rows, isObject row = true) :
    ∃ parts : List (List Fact), factsOfAll entityType rows = .ok parts.flatten ∧
      parts.length = rows.length ∧
      ∀ i row part, rows[i]? = some row → parts[i]? = some part →
        facts? entityType i row = some part := by
  obtain ⟨parts, hparts, hlength, hget⟩ := exists_factsFrom_eq entityType 0 h
  refine ⟨parts, hparts, hlength, fun i row part hrow hpart => ?_⟩
  rw [← Nat.zero_add i]
  exact hget i row part hrow hpart

theorem isObject_of_findIdx? (h : rows.findIdx? (fun row => !isObject row) = none) :
    ∀ row ∈ rows, isObject row = true := by
  simpa using List.findIdx?_eq_none_iff.1 h

/-- Rows are read up to the first that is no object, which is told by its number. If all are
objects, they give their facts in their order: each its type, then one fact for each scalar in it
that does not lie under a member `type` of the row, in the order of the scalars, with the names on
the way down to the scalar, joined by points, as the attribute. So no fact under the attribute of
types carries anything but the type of the rows. -/
theorem factsOfAll_tells (entityType : String) (rows : List Json) :
    (∀ index, factsOfAll entityType rows = .error index ↔
      rows.findIdx? (fun row => !isObject row) = some index) ∧
    ((∀ row ∈ rows, isObject row = true) →
      ∃ parts : List (List Fact), factsOfAll entityType rows = .ok parts.flatten ∧
        parts.length = rows.length ∧
        ∀ (index : Nat) row part, rows[index]? = some row → parts[index]? = some part →
          Tells (entityName entityType index row) entityType row part) ∧
    ∀ facts, factsOfAll entityType rows = .ok facts →
      ∀ f ∈ facts, f.attr = typeAttribute → f.value = .text entityType := by
  have herror : ∀ k, rows.findIdx? (fun row => !isObject row) = some k →
      factsOfAll entityType rows = .error k := by
    intro k hk
    rw [factsOfAll, factsFrom_eq_error hk, Nat.zero_add]
  refine ⟨fun index => ⟨fun h => ?_, herror index⟩, fun h => ?_, fun facts h f hf hattr => ?_⟩
  · cases hfirst : rows.findIdx? fun row => !isObject row with
    | none =>
      obtain ⟨parts, hparts, -⟩ := exists_parts entityType (isObject_of_findIdx? hfirst)
      simp [hparts] at h
    | some k =>
      rw [herror k hfirst, Except.error.injEq] at h
      rw [h]
  · obtain ⟨parts, hparts, hlength, hget⟩ := exists_parts entityType h
    exact ⟨parts, hparts, hlength, fun index row part hrow hpart =>
      tells_of_facts? (hget index row part hrow hpart)⟩
  · cases hfirst : rows.findIdx? fun row => !isObject row with
    | none =>
      obtain ⟨parts, hparts, hlength, hget⟩ := exists_parts entityType (isObject_of_findIdx? hfirst)
      obtain rfl := Except.ok.inj (hparts.symm.trans h)
      obtain ⟨part, hpart, hf⟩ := List.mem_flatten.1 hf
      obtain ⟨index, hindex, rfl⟩ := List.mem_iff_getElem.1 hpart
      exact (tells_of_facts? (hget index _ _ (List.getElem?_eq_getElem (hlength ▸ hindex))
        (List.getElem?_eq_getElem hindex))).value_eq hf hattr
    | some k =>
      rw [herror k hfirst] at h
      simp at h

/-- A row with a nested object and nested arrays, where a member `type` of the row is left out and
one further down is not. -/
def nestedRow : Json :=
  .object
    [("author", .object [("karma", .integer 3), ("type", .null)]), ("id", .integer 7),
      ("tags", .array [.text "db", .array [.bool true]]), ("type", .text "other")]

/-- A nested row and an empty one are told one after the other; with a number behind them nothing is
told but its place. -/
theorem factsOfAll_tells_nestedRow :
    factsOfAll "post" [nestedRow, .object [], .integer 1] = .error 2 ∧
    (∀ row ∈ [nestedRow, .object []], isObject row = true) ∧
    ∃ parts : List (List Fact), factsOfAll "post" [nestedRow, .object []] = .ok parts.flatten ∧
      parts.length = 2 ∧
      (∀ part, parts[0]? = some part → Tells "post:7" "post" nestedRow part) ∧
      (∀ part, parts[1]? = some part → Tells "post:1" "post" (.object []) part) ∧
      ∀ f ∈ parts.flatten, f.attr = typeAttribute → f.value = .text "post" := by
  have hobjects : ∀ row ∈ [nestedRow, .object []], isObject row = true := by decide
  obtain ⟨herror, -, -⟩ := factsOfAll_tells "post" [nestedRow, .object [], .integer 1]
  obtain ⟨-, htells, htype⟩ := factsOfAll_tells "post" [nestedRow, .object []]
  obtain ⟨parts, hparts, hlength, hpart⟩ := htells hobjects
  exact ⟨(herror 2).2 (by decide), hobjects, parts, hparts, hlength, fun part => hpart 0 _ part rfl,
    fun part => hpart 1 _ part rfl, htype _ hparts⟩

end Row

end Factbase
