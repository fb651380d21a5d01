import Factbase.Proofs.ClauseRows
import Factbase.Proofs.Spelling

/-! # Alternatives in a list

`IN` takes its alternatives from one text that lists them between commas, with white space around
them or not. A value is a member of the list where it equals one of the texts
(`Atom.isMember_join`), so where OR means either, a query with `IN` has the rows of the query
that asks for equality with the one text or the other (`Engine.rows_query_listed`). -/

namespace Factbase

open Find (Clause Condition EndsWord Field IsWord Query Spells)
open RuleReader (IsName)

/-! ## Lists in texts -/

/-- White space around a text is trimmed with the white space at its ends. -/
theorem Text.trim_append {before text after : List Char} (hbefore : ∀ c ∈ before, isBlank c = true)
    (hafter : ∀ c ∈ after, isBlank c = true) : trim (before ++ text ++ after) = trim text := by
  have hlast : ∀ front : List Char, (front ++ after).reverse.dropWhile isBlank =
      front.reverse.dropWhile isBlank := by
    intro front
    rw [List.reverse_append, List.dropWhile_append_of_pos (by simpa using hafter)]
  rw [trim, trim, List.append_assoc, List.dropWhile_append_of_pos hbefore, List.dropWhile_append]
  cases hempty : (text.dropWhile isBlank).isEmpty with
  | true =>
    have hnone : after.dropWhile isBlank = [] := List.dropWhile_eq_nil_iff.2 hafter
    rw [if_pos rfl, hnone, List.isEmpty_iff.1 hempty]
  | false => rw [if_neg (by simp), hlast]

/-- The parts of a text between commas. -/
theorem Atom.splitCommas_eq (text : List Char) : splitCommas text = text.splitOn ',' := by
  induction text with
  | nil => rfl
  | cons c rest ih =>
    obtain ⟨part, parts, hparts⟩ := List.exists_cons_of_ne_nil (List.splitOn_ne_nil ',' rest)
    rw [splitCommas, List.splitOn_cons_eq_if_modifyHead, ih, hparts, List.modifyHead_cons]
    simp only [beq_iff_eq]

/-- A text for a list: no comma is in it and no white space at its ends. In the list it may stand
between white space. -/
structure Listed where
  before : String
  text : String
  after : String
  isBlank_before : ∀ c ∈ before.toList, Text.isBlank c = true
  isBlank_after : ∀ c ∈ after.toList, Text.isBlank c = true
  comma_not_mem : ',' ∉ text.toList
  trim_eq : Text.trim text.toList = text.toList

namespace Listed

/-- The text with the white space around it. -/
def written (s : Listed) : String := s.before ++ s.text ++ s.after

theorem trim_written (s : Listed) : Text.trim s.written.toList = s.text.toList := by
  rw [written, String.toList_append, String.toList_append,
    Text.trim_append s.isBlank_before s.isBlank_after, s.trim_eq]

theorem comma_not_mem_written (s : Listed) : ',' ∉ s.written.toList := by
  have hblank : Text.isBlank ',' = false := by decide
  rw [written, String.toList_append, String.toList_append, List.mem_append, List.mem_append]
  rintro ((h | h) | h)
  · exact Bool.false_ne_true (hblank.symm.trans (s.isBlank_before _ h))
  · exact s.comma_not_mem h
  · exact Bool.false_ne_true (hblank.symm.trans (s.isBlank_after _ h))

/-- A list of texts. -/
def join (ss : List Listed) : String := ",".intercalate (ss.map written)

end Listed

variable {ss : List Listed}

/-- A list has its texts as alternatives. -/
theorem Atom.alternatives_join (hss : ss ≠ []) :
    (Atom.text (Listed.join ss)).alternatives = ss.map fun s => .text s.text := by
  have hchars : (Listed.join ss).toList =
      [','].intercalate (ss.map fun s => s.written.toList) := by
    rw [Listed.join, String.toList_intercalate, List.map_map]
    rfl
  have hparts : splitCommas (Listed.join ss).toList = ss.map fun s => s.written.toList := by
    rw [splitCommas_eq, hchars, List.splitOn_intercalate _ _ (by simpa using hss)]
    rw [List.forall_mem_map]
    exact fun s _ => s.comma_not_mem_written
  rw [alternatives, hparts, List.map_map]
  refine List.map_congr_left fun s _ => ?_
  rw [Function.comp_apply, s.trim_written, String.ofList_toList]

/-- A value is a member of a list where it equals one of the texts. -/
theorem Atom.isMember_join (hss : ss ≠ []) (v : Atom) :
    v.isMember (.text (Listed.join ss)) = true ↔
      ∃ s ∈ ss, Comparison.eq.holds v (.text s.text) = true := by
  rw [isMember, alternatives_join hss, List.any_map, List.any_eq_true]
  rfl

/-- Alternatives that are written as numbers are compared as numbers. -/
example : (Atom.number 10).isMember (.text "1e1, ten") = true := by decide +kernel

/-! ## Alternatives in a clause -/

namespace Find.Clause

/-- A clause or one of some conditions. -/
def orEach (c : Clause) (conditions : List Condition) : Clause :=
  conditions.foldl (fun c condition => .either c (.condition condition)) c

variable {c : Clause} {conditions : List Condition}

theorem meets_orEach {met : Condition → Prop} :
    (c.orEach conditions).Meets .disjunctive met ↔
      c.Meets .disjunctive met ∨ ∃ condition ∈ conditions, met condition := by
  induction conditions generalizing c with
  | nil => simp [orEach]
  | cons condition rest ih =>
    rw [orEach, List.foldl_cons, ← orEach, ih, List.exists_mem_cons_iff, ← or_assoc]
    rfl

theorem conditions_orEach : (c.orEach conditions).conditions = c.conditions ++ conditions := by
  induction conditions generalizing c with
  | nil => simp [orEach]
  | cons condition rest ih =>
    rw [orEach, List.foldl_cons, ← orEach, ih, Clause.conditions, List.append_assoc]
    rfl

/-- Conditions that are written out between OR. -/
theorem spells_orEach {α : Type} {as : List α} {text : α → String} {condition : α → Condition}
    {left : String} (hleft : Spells left.toList c.writings EndsWord)
    (h : ∀ a ∈ as, Spells (text a).toList (condition a).writings EndsWord) :
    Spells (" OR ".intercalate (left :: as.map text)).toList
      (c.orEach (as.map condition)).writings EndsWord := by
  induction as generalizing left c with
  | nil => simpa [orEach] using hleft
  | cons a as ih =>
    obtain ⟨ha, has⟩ := List.forall_mem_cons.1 h
    have hfirst : " OR ".intercalate (left :: (a :: as).map text) =
        " OR ".intercalate ((left ++ " OR " ++ text a) :: as.map text) := by
      cases as with
      | nil => simp
      | cons b as => simp [String.append_assoc]
    rw [hfirst]
    exact ih (Find.spells_either hleft ha) has

end Find.Clause

namespace Listed

open Find (spells_equality spells_membership)
open Find.Clause (conditions_orEach meets_orEach spells_orEach)

variable (var attr : String)

/-- The condition that an attribute is in a list. -/
def membership (ss : List Listed) : Clause :=
  .condition (.member ⟨var, [attr]⟩ (.text (join ss)))

/-- The condition that an attribute equals a text. -/
def equality (s : Listed) : Condition := .compare ⟨var, [attr]⟩ .eq (.text s.text)

/-- The condition that an attribute is in a list, as written. -/
def membershipText (ss : List Listed) : String :=
  Field.display ⟨var, [attr]⟩ ++ " IN " ++ Text.literal (join ss)

/-- The condition that an attribute equals a text, as written. -/
def equalityText (s : Listed) : String :=
  Field.display ⟨var, [attr]⟩ ++ " = " ++ Text.literal s.text

/-- Alternatives for the texts of a list with a first one. -/
def equalities (s : Listed) (ss : List Listed) : Clause :=
  Clause.orEach (.condition (equality var attr s)) (ss.map (equality var attr))

variable {var attr} {s : Listed} {entityType : String}

theorem forall_mem_equalities {P : Condition → Prop} (h : ∀ s, P (equality var attr s)) :
    ∀ condition ∈ (equalities var attr s ss).conditions, P condition := by
  rw [equalities, conditions_orEach, List.forall_mem_append, List.forall_mem_map]
  exact ⟨List.forall_mem_singleton.2 (h s), fun s _ => h s⟩

theorem parse_membershipText (htype : IsName entityType.toList) (hne : var ≠ "")
    (hvar : IsWord var) (hattr : IsName attr.toList) (ss : List Listed) :
    Query.parse (Query.textOf entityType var (membershipText var attr ss)) =
      .ok (.ofClause entityType var (membership var attr ss)) :=
  Query.parse_textOf htype hne hvar
    ((spells_membership hne hvar hattr _).mono fun _ _ => trivial)
    (List.forall_mem_singleton.2 trivial)

theorem parse_equalityText (htype : IsName entityType.toList) (hne : var ≠ "")
    (hvar : IsWord var) (hattr : IsName attr.toList) (s : Listed) (ss : List Listed) :
    Query.parse (Query.textOf entityType var
        (" OR ".intercalate ((s :: ss).map (equalityText var attr)))) =
      .ok (.ofClause entityType var (equalities var attr s ss)) := by
  have hspells : ∀ s : Listed, Spells (equalityText var attr s).toList
      (equality var attr s).writings EndsWord := fun s =>
    (spells_equality hne hvar hattr _).mono fun _ _ => trivial
  exact Query.parse_textOf htype hne hvar (spells_orEach (hspells s) fun s _ => hspells s)
    (forall_mem_equalities fun _ => trivial)

/-- An entity shows a value that is in a list where it shows one that equals a text of the list. -/
theorem holdsFor_member_iff (hss : ss ≠ []) {w : WorkingSet} {attrFor : String → String}
    {x : Atom} :
    (Condition.member ⟨var, [attr]⟩ (.text (join ss))).HoldsFor w attrFor x ↔
      ∃ s ∈ ss, (equality var attr s).HoldsFor w attrFor x := by
  constructor
  · rintro ⟨f, v, hf, hv, hmember⟩
    obtain ⟨s, hs, hequal⟩ := (Atom.isMember_join hss v).1 hmember
    exact ⟨s, hs, f, v, hf, hv, hequal⟩
  · rintro ⟨s, hs, f, v, hf, hv, hequal⟩
    exact ⟨f, v, hf, hv, (Atom.isMember_join hss v).2 ⟨s, hs, hequal⟩⟩

/-- An entity is in a list where it meets one of the alternatives. -/
theorem meets_membership_iff {w : WorkingSet} {attrFor : String → String} {x : Atom} :
    (membership var attr (s :: ss)).Meets .disjunctive (·.HoldsFor w attrFor x) ↔
      (equalities var attr s ss).Meets .disjunctive (·.HoldsFor w attrFor x) := by
  rw [equalities, meets_orEach]
  refine (holdsFor_member_iff (List.cons_ne_nil s ss)).trans ?_
  simp [Clause.Meets]

end Listed

namespace Engine

open Listed (equalityText join membershipText)

/-- Where OR means either, IN is short for alternatives. A value is a member of a list of texts
exactly where it equals one of them, whatever white space stands around them in the list. Over every
store and with all rules, the query for the entities whose attribute is in the list and the query
for those whose attribute equals the one text or the other are both answered, with the same column
and the same rows. -/
theorem rows_query_listed (e : Engine) (settings : Settings) (calls : List RuleCall)
    (hprogram : e.program = (Program.empty settings).performAll calls)
    (hmode : e.config.compiler.orMode = .disjunctive) {ss : List Listed} (hss : ss ≠ [])
    {entityType var attr : String} (htype : IsName entityType.toList) (hne : var ≠ "")
    (hvar : IsWord var) (hattr : IsName attr.toList) :
    (∀ v : Atom, v.isMember (.text (join ss)) = true ↔
      ∃ s ∈ ss, Comparison.eq.holds v (.text s.text) = true) ∧
    ∃ o o', (e.query (Query.textOf entityType var (membershipText var attr ss))).1 = .ok o ∧
      (e.query (Query.textOf entityType var
        (" OR ".intercalate (ss.map (equalityText var attr))))).1 = .ok o' ∧
      o.columns = o'.columns ∧ o.rows = o'.rows := by
  refine ⟨Atom.isMember_join hss, ?_⟩
  obtain ⟨s, ss, rfl⟩ := List.exists_cons_of_ne_nil hss
  have hp : e.program.IsValid := by
    rw [hprogram]
    exact (Program.isValid_empty settings).performAll calls
  have hplain : ∀ condition ∈ (Listed.equalities var attr s ss).conditions,
      condition.IsPlain var := Listed.forall_mem_equalities fun _ => ⟨rfl, rfl⟩
  have hmatches : ∀ f, ¬ (Listed.equalities var attr s ss).Matches f := fun f ⟨body, flags, h⟩ =>
    Listed.forall_mem_equalities (P := (Condition.matching f body flags ≠ ·)) (fun _ => by
      simp [Listed.equality]) _ h rfl
  obtain ⟨w, hrows⟩ := e.exists_rows_query hp
  obtain ⟨o, hquery, hcolumns, ho⟩ := hrows _ _ _ _
    (Listed.parse_membershipText htype hne hvar hattr (s :: ss))
    (List.forall_mem_singleton.2 ⟨rfl, rfl⟩)
    fun f ⟨body, flags, h⟩ => by simp [Listed.membership, Clause.conditions] at h
  obtain ⟨o', hquery', hcolumns', ho'⟩ := hrows _ _ _ _
    (Listed.parse_equalityText htype hne hvar hattr s ss) hplain hmatches
  refine ⟨o, o', hquery, hquery', hcolumns.trans hcolumns'.symm, ?_⟩
  rw [ho, ho', hmode]
  refine congrArg (fun xs => (distinctBy Atom.canonical xs).map ([·]))
    (List.filter_congr fun x _ => ?_)
  exact decide_eq_decide.2 Listed.meets_membership_iff

/-- Two colours, the second after a space. -/
def listedColours : List Listed :=
  [⟨"", "red", "", by simp, by simp, by decide, by decide⟩,
    ⟨" ", "blue", "", List.all_eq_true.1 (by decide), by simp, by decide, by decide⟩]

theorem rows_query_listedColours :
    (∀ v : Atom, v.isMember (.text "red, blue") = true ↔
      ∃ s ∈ listedColours, Comparison.eq.holds v (.text s.text) = true) ∧
    ∃ o o', (alternativesEngine.query
        "FIND post AS ?p WHERE ?p.color IN \"red, blue\" RETURN ?p").1 = .ok o ∧
      (alternativesEngine.query
        "FIND post AS ?p WHERE ?p.color = \"red\" OR ?p.color = \"blue\" RETURN ?p").1 = .ok o' ∧
      o.columns = o'.columns ∧ o.rows = o'.rows := by
  have hlist : join listedColours = "red, blue" := by decide +kernel
  have hin : Query.textOf "post" "p" (membershipText "p" "color" listedColours) =
      "FIND post AS ?p WHERE ?p.color IN \"red, blue\" RETURN ?p" := by decide +kernel
  have hor : Query.textOf "post" "p"
        (" OR ".intercalate (listedColours.map (equalityText "p" "color"))) =
      "FIND post AS ?p WHERE ?p.color = \"red\" OR ?p.color = \"blue\" RETURN ?p" := by
    decide +kernel
  rw [← hin, ← hor, ← hlist]
  exact rows_query_listed alternativesEngine .default [] rfl rfl (by simp [listedColours])
    ⟨_, _, rfl, by decide, List.all_eq_true.1 (by decide)⟩ (by decide)
    (List.all_eq_true.1 (by decide)) ⟨_, _, rfl, by decide, List.all_eq_true.1 (by decide)⟩

end Engine

end Factbase
