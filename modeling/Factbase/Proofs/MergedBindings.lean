import Factbase.Proofs.Bindings

/-! # Merging bindings

Bindings that agree on every variable of both (`Binding.Agrees`) are merged to one that binds the
variables of either. The values of the first stand, so what a merge gives is the look-up in the
first and else in the second (`Binding.merge?_eq_some`), and the laws of merging are those of such
look-ups (`Binding.merge?_laws`). Two values may have one canonical text without being equal, so the
order of two bindings decides which of them is kept; up to canonical texts it decides nothing, and
neither does it decide whether merging succeeds. -/

namespace Factbase

namespace Binding

variable {a b c d : Binding} {name : String} {value : Atom} {entries : List (String × Atom)}

/-- Bindings that give every variable the same value are equal. -/
theorem ext_get? (h : ∀ name, a.get? name = b.get? name) : a = b := by
  obtain ⟨as, has⟩ := a
  obtain ⟨bs, hbs⟩ := b
  obtain rfl : as = bs := has.ext hbs h
  rfl

/-- Values of variables agree with entries: those of a variable of both have one canonical text. -/
def AgreesWith (b : Binding) (entries : List (String × Atom)) : Prop :=
  ∀ name x y, b.get? name = some x → entries.lookup name = some y → x.canonical = y.canonical

/-- Bindings agree on every variable that both bind. -/
def Agrees (a b : Binding) : Prop :=
  ∀ name x y, a.get? name = some x → b.get? name = some y → x.canonical = y.canonical

theorem Agrees.symm (h : a.Agrees b) : b.Agrees a :=
  fun name x y hx hy => (h name y x hy hx).symm

theorem Agrees.refl (a : Binding) : a.Agrees a := by
  intro name x y hx hy
  rw [Option.some.inj (hx.symm.trans hy)]

/-- Bindings with the same canonical texts agree with the same bindings. -/
theorem Agrees.congr {a' b' : Binding} (h : a.Agrees b) (ha : a.Same a') (hb : b.Same b') :
    a'.Agrees b' := by
  intro name x' y' hx' hy'
  obtain ⟨x, hx, hxx'⟩ := Option.map_eq_some_iff.1 ((ha name).trans (congrArg _ hx'))
  obtain ⟨y, hy, hyy'⟩ := Option.map_eq_some_iff.1 ((hb name).trans (congrArg _ hy'))
  rw [← hxx', ← hyy', h name x y hx hy]

/-- A binding joins two others: it binds the variables of either, with their values. -/
structure Joins (c a b : Binding) : Prop where
  isSome_iff : ∀ name, (c.get? name).isSome ↔ (a.get? name).isSome ∨ (b.get? name).isSome
  left : a.Below c
  right : b.Below c

/-! ## One entry -/

theorem isSome_unify? :
    (b.unify? name value).isSome ↔ ∀ x, b.get? name = some x → x.canonical = value.canonical := by
  rw [unify?_def]
  cases b.get? name with
  | none => simp
  | some bound => by_cases h : bound.canonical = value.canonical <;> simp [h]

/-- After unification the binding gives its own values, and the variable the new one where it had
none. -/
theorem get?_of_unify? (h : b.unify? name value = some c) (other : String) :
    c.get? other = (b.get? other).or (if other = name then some value else none) := by
  rcases unify?_eq_some.1 h with ⟨bound, hbound, -, rfl⟩ | ⟨hnone, rfl⟩
  · split
    · next heq => rw [heq, hbound, Option.some_or]
    · rw [Option.or_none]
  · rw [get?_insert]
    split
    · next heq => rw [heq, hnone, Option.none_or]
    · rw [Option.or_none]

/-! ## Entry after entry -/

theorem unifyEach?_cons (b : Binding) (name : String) (value : Atom)
    (entries : List (String × Atom)) :
    b.unifyEach? ((name, value) :: entries) =
      (b.unify? name value).bind fun b => b.unifyEach? entries := rfl

/-- Entries before others of different names agree if the first does, and the others do with what it
gives. -/
theorem agreesWith_cons (hname : entries.lookup name = none)
    (h : b.unify? name value = some c) :
    b.AgreesWith ((name, value) :: entries) ↔ c.AgreesWith entries := by
  have hget := get?_of_unify? h
  constructor
  · intro hagrees other x y hx hy
    have hne : other ≠ name := by
      rintro rfl
      simp [hname] at hy
    rw [hget, if_neg hne, Option.or_none] at hx
    exact hagrees other x y hx (by rw [lookup_cons_eq_ite, if_neg hne, hy])
  · intro hagrees other x y hx hy
    rw [lookup_cons_eq_ite] at hy
    split at hy
    · next heq =>
      subst heq
      obtain rfl := Option.some.inj hy
      exact isSome_unify?.1 (by rw [h]; rfl) x hx
    · exact hagrees other x y (by rw [hget, hx, Option.some_or]) hy

/-- Unification with ordered entries succeeds exactly if the binding agrees with them. -/
theorem isSome_unifyEach? (hordered : IsOrdered entries) :
    (b.unifyEach? entries).isSome ↔ b.AgreesWith entries := by
  induction entries generalizing b with
  | nil => simp [unifyEach?, AgreesWith]
  | cons e rest ih =>
    obtain ⟨name, value⟩ := e
    obtain ⟨-, hrest⟩ := List.pairwise_cons.1 hordered
    have hname : rest.lookup name = none := IsOrdered.lookup_tail_eq_none hordered
    rw [unifyEach?_cons]
    cases hunify : b.unify? name value with
    | some c => rw [Option.bind_some, ih hrest, agreesWith_cons hname hunify]
    | none =>
      refine iff_of_false (by simp) fun hagrees => ?_
      have hsome : (b.unify? name value).isSome := by
        refine isSome_unify?.2 fun x hx => hagrees name x value hx ?_
        rw [lookup_cons_eq_ite, if_pos rfl]
      simp [hunify] at hsome

/-- After unification with entries the binding gives its own values, and to other variables those of
the entries. -/
theorem get?_of_unifyEach? (hordered : IsOrdered entries) (h : b.unifyEach? entries = some c)
    (other : String) : c.get? other = (b.get? other).or (entries.lookup other) := by
  induction entries generalizing b with
  | nil =>
    obtain rfl : b = c := by simpa [unifyEach?] using h
    rw [List.lookup_nil, Option.or_none]
  | cons e rest ih =>
    obtain ⟨name, value⟩ := e
    obtain ⟨-, hrest⟩ := List.pairwise_cons.1 hordered
    rw [unifyEach?_cons, Option.bind_eq_some_iff] at h
    obtain ⟨b', hunify, h⟩ := h
    rw [ih hrest h, get?_of_unify? hunify, Option.or_assoc, lookup_cons_eq_ite]
    split <;> simp

/-! ## Merging -/

/-- Merging succeeds exactly on agreement. -/
theorem isSome_merge? : (a.merge? b).isSome ↔ a.Agrees b := isSome_unifyEach? b.isOrdered

/-- What merging gives: where the two agree, the binding that gives the values of the first, and to
other variables those of the second. -/
theorem merge?_eq_some :
    a.merge? b = some c ↔
      a.Agrees b ∧ ∀ name, c.get? name = (a.get? name).or (b.get? name) := by
  constructor
  · intro h
    exact ⟨isSome_merge?.1 (by rw [h]; rfl), get?_of_unifyEach? b.isOrdered h⟩
  · rintro ⟨hagrees, hget⟩
    obtain ⟨c', hc'⟩ := Option.isSome_iff_exists.1 (isSome_merge?.2 hagrees)
    obtain rfl : c' = c := ext_get? fun name => by
      rw [hget, get?_of_unifyEach? b.isOrdered hc']
      rfl
    exact hc'

/-- The merged binding joins the two. -/
theorem joins_of_merge? (h : a.merge? b = some c) : c.Joins a b := by
  obtain ⟨hagrees, hget⟩ := merge?_eq_some.1 h
  refine ⟨fun name => ?_, fun name x _ hx => ?_, fun name y _ hy => ?_⟩
  · rw [hget, Option.isSome_or, Bool.or_eq_true]
  · rw [hget, hx, Option.some_or]
    rfl
  · rw [hget, hy]
    cases hx : a.get? name with
    | none => rfl
    | some x => exact congrArg some (hagrees name x y hx hy)

/-- Merging depends on canonical texts only, and on the order of the two not even that far. -/
theorem rel_merge? {a' b' : Binding} (hagrees : a.Agrees b ↔ a'.Agrees b')
    (hsame : a.Agrees b → ∀ name, ((a.get? name).or (b.get? name)).map Atom.canonical =
      ((a'.get? name).or (b'.get? name)).map Atom.canonical) :
    Option.Rel Same (a.merge? b) (a'.merge? b') := by
  cases h : a.merge? b with
  | some c =>
    obtain ⟨hab, hc⟩ := merge?_eq_some.1 h
    obtain ⟨c', hc'⟩ := Option.isSome_iff_exists.1 (isSome_merge?.2 (hagrees.1 hab))
    rw [hc']
    refine .some fun name => ?_
    rw [hc, (merge?_eq_some.1 hc').2, hsame hab]
  | none =>
    cases h' : a'.merge? b' with
    | none => exact .none
    | some c' =>
      have hsome : (a.merge? b).isSome := isSome_merge?.2 (hagrees.2 (merge?_eq_some.1 h').1)
      simp [h] at hsome

/-- Either binding may come first. -/
theorem merge?_comm (a b : Binding) : Option.Rel Same (a.merge? b) (b.merge? a) := by
  refine rel_merge? ⟨.symm, .symm⟩ fun hagrees name => ?_
  cases hx : a.get? name with
  | none => rw [Option.none_or, Option.or_none]
  | some x =>
    cases hy : b.get? name with
    | none => rw [Option.none_or, Option.or_none]
    | some y => exact congrArg some (hagrees name x y hx hy)

/-- Bindings that are the same are merged to bindings that are the same. -/
theorem merge?_congr {a' b' : Binding} (ha : a.Same a') (hb : b.Same b') :
    Option.Rel Same (a.merge? b) (a'.merge? b') := by
  refine rel_merge? ⟨fun h => h.congr ha hb, fun h => h.congr ha.symm hb.symm⟩ fun _ name => ?_
  rw [Option.map_or, Option.map_or, ha name, hb name]

/-- A third binding agrees with a merged one if it agrees with both. -/
theorem agrees_of_merge? (h : a.merge? b = some d) :
    d.Agrees c ↔ a.Agrees c ∧ b.Agrees c := by
  obtain ⟨hab, hd⟩ := merge?_eq_some.1 h
  constructor
  · intro hdc
    refine ⟨fun name x z hx hz => ?_, fun name y z hy hz => ?_⟩
    · exact hdc name x z (by rw [hd, hx, Option.some_or]) hz
    · -- the first binding may have a value of its own, with the same canonical text
      cases hx : a.get? name with
      | none => exact hdc name y z (by rw [hd, hx, hy, Option.none_or]) hz
      | some x =>
        rw [← hab name x y hx hy]
        exact hdc name x z (by rw [hd, hx, Option.some_or]) hz
  · rintro ⟨hac, hbc⟩ name v z hv hz
    rw [hd, Option.or_eq_some_iff] at hv
    rcases hv with hx | ⟨-, hy⟩
    · exact hac name v z hx hz
    · exact hbc name v z hy hz

/-- Merging three bindings from the left succeeds if each two agree. -/
theorem bind_merge?_eq_some :
    (a.merge? b).bind (·.merge? c) = some d ↔ (a.Agrees b ∧ a.Agrees c ∧ b.Agrees c) ∧
      ∀ name, d.get? name = ((a.get? name).or (b.get? name)).or (c.get? name) := by
  rw [Option.bind_eq_some_iff]
  constructor
  · rintro ⟨ab, hab, h⟩
    obtain ⟨hagrees, hd⟩ := merge?_eq_some.1 h
    obtain ⟨hagrees', hget⟩ := merge?_eq_some.1 hab
    exact ⟨⟨hagrees', (agrees_of_merge? hab).1 hagrees⟩, fun name => by rw [hd, hget]⟩
  · rintro ⟨⟨hagrees', hagrees⟩, hd⟩
    obtain ⟨ab, hab⟩ := Option.isSome_iff_exists.1 (isSome_merge?.2 hagrees')
    refine ⟨ab, hab, merge?_eq_some.2 ⟨(agrees_of_merge? hab).2 hagrees, fun name => ?_⟩⟩
    rw [hd, (merge?_eq_some.1 hab).2]

/-- Three bindings may be merged from either side. -/
theorem merge?_assoc (a b c : Binding) :
    (a.merge? b).bind (·.merge? c) = (b.merge? c).bind a.merge? := by
  ext d
  rw [bind_merge?_eq_some, Option.bind_eq_some_iff]
  constructor
  · rintro ⟨⟨hab, hac, hbc⟩, hd⟩
    obtain ⟨bc, hmerge⟩ := Option.isSome_iff_exists.1 (isSome_merge?.2 hbc)
    refine ⟨bc, hmerge, merge?_eq_some.2
      ⟨((agrees_of_merge? hmerge).2 ⟨hab.symm, hac.symm⟩).symm, fun name => ?_⟩⟩
    rw [hd, (merge?_eq_some.1 hmerge).2, Option.or_assoc]
  · rintro ⟨bc, hmerge, h⟩
    obtain ⟨hagrees, hd⟩ := merge?_eq_some.1 h
    obtain ⟨hbc, hget⟩ := merge?_eq_some.1 hmerge
    obtain ⟨hba, hca⟩ := (agrees_of_merge? hmerge).1 hagrees.symm
    exact ⟨⟨hba.symm, hca.symm, hbc⟩, fun name => by rw [hd, hget, Option.or_assoc]⟩

/-- The binding of one variable. -/
def single (name : String) (value : Atom) : Binding := empty.insert name value

/-- Unification is merging with the binding of one variable. -/
theorem merge?_single (b : Binding) (name : String) (value : Atom) :
    b.merge? (single name value) = b.unify? name value := by
  have hentries : (single name value).entries = [(name, value)] := rfl
  rw [merge?, hentries, unifyEach?_cons]
  exact Option.bind_fun_some (b.unify? name value)

/-- Unification in place is merging with the binding of one variable, and leaves the binding as it
is where that fails. -/
theorem unify_eq (b : Binding) (name : String) (value : Atom) :
    b.unify name value =
      match b.merge? (single name value) with
      | some c => (true, c)
      | none => (false, b) := by
  rw [merge?_single, unify?_def, unify]
  cases b.get? name with
  | none => rfl
  | some bound => by_cases h : bound.canonical = value.canonical <;> simp [h]

/-- The laws of merging, for all bindings. It succeeds exactly if the two agree on every variable of
both, and gives the variables of either with their values. It depends on canonical texts only; up to
these it is commutative; it is associative, where failing on one side is failing on the other, and
idempotent, and the empty binding is its unit. Unification in place succeeds exactly if merging with
the binding of that variable does, with the same result, and else changes nothing. -/
theorem merge?_laws (a b c : Binding) :
    ((a.merge? b).isSome ↔ a.Agrees b) ∧ (∀ d, a.merge? b = some d → d.Joins a b) ∧
      (∀ a' b', a.Same a' → b.Same b' → Option.Rel Same (a.merge? b) (a'.merge? b')) ∧
      Option.Rel Same (a.merge? b) (b.merge? a) ∧
      (a.merge? b).bind (·.merge? c) = (b.merge? c).bind a.merge? ∧
      a.merge? a = some a ∧ a.merge? empty = some a ∧ empty.merge? a = some a ∧
      ∀ name value, a.unify name value =
        match a.merge? (single name value) with
        | some d => (true, d)
        | none => (false, a) := by
  refine ⟨isSome_merge?, fun d => joins_of_merge?, fun a' b' => merge?_congr, merge?_comm a b,
    merge?_assoc a b c, ?_, ?_, ?_, unify_eq a⟩
  · exact merge?_eq_some.2 ⟨.refl a, fun name => by rw [Option.or_self]⟩
  · exact merge?_eq_some.2 ⟨by simp [Agrees], fun name => by rw [get?_empty, Option.or_none]⟩
  · exact merge?_eq_some.2 ⟨by simp [Agrees], fun name => by rw [get?_empty, Option.none_or]⟩

/-- A number and its text are not merged: their canonical texts differ in the kind. -/
example : ((single "x" (.number 1)).merge? (single "x" (.text "1"))).isSome = false := by
  decide +kernel

end Binding

end Factbase
