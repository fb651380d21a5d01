import Factbase.Proofs.BaseRelations
import Factbase.Proofs.Convergence
import Factbase.Proofs.Totality

/-! # What a saturation counts

A relation holds a tuple once, however often it is derived, and a pass counts the tuples that are
new. So the tuples of the relations that rules derive into are as many as the passes have counted
(`Saturation.derivedCount_passesOver`), and nothing that the working set held before an evaluation
is among them, for it is dropped.

The passes of a level, one after the other, are kept with their counts (`Saturation.Passes`): they
go on while a pass adds something and another is allowed, so that a level has converged if and only
if its last pass was made and has the count zero. This is put together for evaluations
(`Program.exists_evaluateIn_isAccountedFor`). -/

namespace Factbase

/-! ## Sums over ordered entries -/

section Entries

variable {α : Type} {entries : List (String × α)}

/-- Giving a name its value puts the weight of that value in the place of the weight that the name
had. -/
theorem sum_map_putEntry (h : IsOrdered entries) (weight : String × α → Nat) (name : String)
    (value : α) :
    ((putEntry name value entries).map weight).sum +
        ((entries.lookup name).map fun old => weight (name, old)).getD 0 =
      (entries.map weight).sum + weight (name, value) := by
  induction entries with
  | nil => simp [putEntry]
  | cons e rest ih =>
    obtain ⟨key, old⟩ := e
    have hput := IsOrdered.putEntry h name value
    have hrest := ih (List.pairwise_cons.1 h).2
    by_cases hlt : name < key
    · rw [putEntry, if_pos hlt] at hput ⊢
      rw [IsOrdered.lookup_tail_eq_none hput]
      simp [Nat.add_comm]
    · rw [putEntry, if_neg hlt, lookup_cons_eq_ite]
      by_cases heq : name = key
      · subst heq
        simp
        omega
      · rw [if_neg heq, if_neg heq, List.map_cons, List.map_cons, List.sum_cons, List.sum_cons,
          Nat.add_assoc, hrest, Nat.add_assoc]

/-- The sum over the entries of one name. -/
theorem sum_map_ite (h : IsOrdered entries) (weight : α → Nat) (name : String) :
    (entries.map fun e => if e.1 = name then weight e.2 else 0).sum =
      ((entries.lookup name).map weight).getD 0 := by
  induction entries with
  | nil => rfl
  | cons e rest ih =>
    obtain ⟨key, value⟩ := e
    rw [List.map_cons, List.sum_cons, ih (List.pairwise_cons.1 h).2, lookup_cons_eq_ite]
    by_cases hname : name = key
    · subst hname
      simp [IsOrdered.lookup_tail_eq_none h]
    · simp [hname, Ne.symm hname]

end Entries

namespace Relation

/-- The tuples that are counted as new are those by which a relation grows. -/
theorem size_insertEach (r : Relation) (tuples : List Tuple) :
    (r.insertEach tuples).2.size = r.size + (r.insertEach tuples).1 := by
  induction tuples generalizing r with
  | nil => rfl
  | cons tuple rest ih =>
    have hinsert : (r.insert tuple).2.size = r.size + (r.insert tuple).1.toNat := by
      unfold insert
      split
      · rfl
      · exact Array.size_push _
    rw [insertEach_cons, ih, hinsert, Nat.add_assoc]

end Relation

namespace WorkingSet

variable {w : WorkingSet} {name : String}

/-- Size of the relation of a name, as part of a sum. -/
theorem size_relation (w : WorkingSet) (name : String) :
    (w.relation name).size = ((w.relation? name).map Relation.size).getD 0 := by
  unfold relation
  cases w.relation? name <;> rfl

theorem tupleCount_eq_sum (w : WorkingSet) :
    w.tupleCount = (w.relations.map fun e => e.2.size).sum := by
  rw [tupleCount, List.sum_eq_foldl, List.foldl_map]

theorem derivedCount_eq_sum (w : WorkingSet) :
    w.derivedCount = (w.relations.map fun e => if isBase e.1 then 0 else e.2.size).sum := by
  rw [derivedCount, ← List.foldl_map (f := fun e : String × Relation => e.2.size) (g := (· + ·)),
    ← List.sum_eq_foldl]
  induction w.relations with
  | nil => rfl
  | cons e rest ih =>
    rw [List.filter_cons, List.map_cons, List.sum_cons]
    by_cases hbase : isBase e.1 = true <;> simp [hbase, ih]

/-- All tuples are those of the base relations and of the others. -/
theorem tupleCount_eq (w : WorkingSet) :
    w.tupleCount =
      w.derivedCount + (w.relation attrRelation).size + (w.relation linkRelation).size := by
  have hparts : ∀ e : String × Relation, e.2.size = (if isBase e.1 then 0 else e.2.size) +
      ((if e.1 = attrRelation then e.2.size else 0) +
        if e.1 = linkRelation then e.2.size else 0) := by
    rintro ⟨key, r⟩
    by_cases hattr : key = attrRelation
    · subst hattr
      simp [isBase, attrRelation, linkRelation]
    · by_cases hlink : key = linkRelation
      · subst hlink
        simp [isBase, attrRelation, linkRelation]
      · simp [isBase, hattr, hlink]
  rw [tupleCount_eq_sum, derivedCount_eq_sum, List.map_congr_left fun e _ => hparts e,
    List.sum_map_add, List.sum_map_add, sum_map_ite w.isOrdered, sum_map_ite w.isOrdered,
    size_relation, size_relation, ← Nat.add_assoc]
  rfl

/-- Giving a derived relation its tuples puts them in the place of those that it had. -/
theorem derivedCount_put (hname : isBase name = false) (r : Relation) :
    (w.put name r).derivedCount + (w.relation name).size = w.derivedCount + r.size := by
  have hsum := sum_map_putEntry w.isOrdered (fun e => if isBase e.1 then 0 else e.2.size) name r
  simp only [hname] at hsum
  rw [derivedCount_eq_sum, derivedCount_eq_sum, size_relation]
  exact hsum

/-- Giving a base relation its tuples changes no derived one. -/
theorem derivedCount_put_of_isBase (hname : isBase name = true) (r : Relation) :
    (w.put name r).derivedCount = w.derivedCount := by
  have hsum := sum_map_putEntry w.isOrdered (fun e => if isBase e.1 then 0 else e.2.size) name r
  have hnone : ((w.relations.lookup name).map fun _ => 0).getD 0 = 0 := by
    cases w.relations.lookup name <;> rfl
  simp only [hname, if_true, hnone, Nat.add_zero] at hsum
  rw [derivedCount_eq_sum, derivedCount_eq_sum]
  exact hsum

/-- Seeding derives nothing. -/
theorem derivedCount_seed (w : WorkingSet) (s : Store) : (w.seed s).derivedCount = 0 := by
  rw [seed, derivedCount_put_of_isBase rfl, derivedCount_put_of_isBase rfl]
  rfl

/-- Seeding makes the base relations only. -/
theorem isBase_of_mem_relations_seed {s : Store} {e : String × Relation}
    (h : e ∈ (w.seed s).relations) : isBase e.1 = true := by
  rcases mem_of_mem_putEntry h with rfl | h
  · rfl
  · rcases mem_of_mem_putEntry h with rfl | h
    · rfl
    · exact absurd h List.not_mem_nil

/-- The tuples that are counted as new are those by which the derived relations grow. -/
theorem derivedCount_insertEach (hname : isBase name = false) (tuples : List Tuple) :
    (w.insertEach name tuples).2.derivedCount =
      w.derivedCount + (w.insertEach name tuples).1 := by
  cases tuples with
  | nil => rfl
  | cons tuple rest =>
    rw [insertEach, if_neg (by simp)]
    have hput := derivedCount_put (w := w) hname ((w.relation name).insertEach (tuple :: rest)).2
    rw [Relation.size_insertEach] at hput
    dsimp only
    omega

/-- Inserting tuples leaves the other relations as they are. -/
theorem relation?_insertEach_of_ne {other : String} (h : other ≠ name) (tuples : List Tuple) :
    (w.insertEach name tuples).2.relation? other = w.relation? other := by
  cases tuples with
  | nil => rfl
  | cons tuple rest =>
    rw [insertEach, if_neg (by simp)]
    exact (relation?_put ..).trans (if_neg h)

/-- Inserting tuples makes no relation of another name. -/
theorem mem_relations_insertEach {tuples : List Tuple} {e : String × Relation}
    (h : e ∈ (w.insertEach name tuples).2.relations) : e.1 = name ∨ e ∈ w.relations := by
  cases tuples with
  | nil => exact .inr h
  | cons tuple rest =>
    rw [insertEach, if_neg (by simp)] at h
    exact (mem_of_mem_putEntry h).imp_left (congrArg Prod.fst)

end WorkingSet

namespace Saturation

open Deriving

variable {rules : List Rule} {levels : List (List Rule)} {w w' : WorkingSet} {n limit : Nat}

/-! ## Passes with their counts -/

/-- Passes over rules, one after the other, with the number of new tuples of each. -/
inductive Passes (rules : List Rule) : WorkingSet → List Nat → WorkingSet → Prop
  | nil (w : WorkingSet) : Passes rules w [] w
  | cons {w w₁ w' : WorkingSet} {added : Nat} {counts : List Nat} :
    outcome (pass rules w) = .ok (added, w₁) → Passes rules w₁ counts w' →
      Passes rules w (added :: counts) w'

/-- The counts of passes that are made until one adds nothing or no further one is allowed. -/
structure IsExhausted (limit : Nat) (counts : List Nat) : Prop where
  length_le : counts.length ≤ limit
  /-- After a pass that adds nothing there is none. -/
  goesOn : ∀ n ∈ counts.dropLast, n ≠ 0
  stops : counts.length < limit → counts.getLast? = some 0

theorem getLast?_cons_eq_zero {added : Nat} {counts : List Nat} (hadded : added ≠ 0) :
    (added :: counts).getLast? = some 0 ↔ counts.getLast? = some 0 := by
  cases counts with
  | nil => simp [hadded]
  | cons count rest => rw [List.getLast?_cons_cons]

/-- A pass that adds something may stand in front of the others. -/
theorem IsExhausted.cons {added : Nat} {counts : List Nat} (h : IsExhausted limit counts)
    (hadded : added ≠ 0) : IsExhausted (limit + 1) (added :: counts) := by
  refine ⟨Nat.succ_le_succ h.length_le, fun n hn => ?_, fun hlt => ?_⟩
  · cases counts with
    | nil => simp at hn
    | cons count rest =>
      rw [List.dropLast_cons_cons] at hn
      rcases List.mem_cons.1 hn with rfl | hn
      · exact hadded
      · exact h.goesOn n hn
  · exact (getLast?_cons_eq_zero hadded).2 (h.stops (Nat.lt_of_succ_lt_succ hlt))

/-- The passes of levels, one level after the other. -/
inductive PassesOver (limit : Nat) : List (List Rule) → WorkingSet → List (List Nat) →
    WorkingSet → Prop
  | nil (w : WorkingSet) : PassesOver limit [] w [] w
  | cons {rules : List Rule} {levels : List (List Rule)} {w w₁ w' : WorkingSet}
    {counts : List Nat} {others : List (List Nat)} :
    Passes rules w counts w₁ → IsExhausted limit counts → PassesOver limit levels w₁ others w' →
      PassesOver limit (rules :: levels) w (counts :: others) w'

/-- The saturation of a level is made of passes. It has converged if the last of them was made and
added nothing. -/
theorem exists_passes {s : Saturation} (h : outcome (ofLevel rules limit w) = .ok s) :
    ∃ counts, Passes rules w counts s.result ∧ IsExhausted limit counts ∧
      s.iterations = counts.length ∧ s.derived = counts.sum ∧
      (s.converged = true ↔ counts.getLast? = some 0) := by
  induction limit generalizing w s with
  | zero =>
    obtain rfl : _ = s := by simpa [ofLevel] using h
    exact ⟨[], .nil w, ⟨Nat.le_refl _, by simp, by simp⟩, rfl, rfl, by simp⟩
  | succ n ih =>
    obtain ⟨added, w₁, hpass, ⟨rfl, rfl⟩ | ⟨hadded, t, hrest, rfl⟩⟩ := outcome_ofLevel_succ.1 h
    · exact ⟨[0], .cons hpass (.nil w₁), ⟨by simp, by simp, by simp⟩, rfl, rfl, by simp⟩
    · obtain ⟨counts, hpasses, hcounts, hiterations, hderived, hconverged⟩ := ih (s := t) hrest
      exact ⟨added :: counts, .cons hpass hpasses, hcounts.cons hadded, by simp [hiterations],
        by simp [hderived, Nat.add_comm], hconverged.trans (getLast?_cons_eq_zero hadded).symm⟩

/-- A saturation is made of the passes of its levels, and has converged if every level has. -/
theorem exists_passesOver {s : Saturation} (h : outcome (ofLevels limit levels w) = .ok s) :
    ∃ counts, PassesOver limit levels w counts s.result ∧
      s.iterations = (counts.map List.length).sum ∧ s.derived = (counts.map List.sum).sum ∧
      (s.converged = true ↔ ∀ c ∈ counts, c.getLast? = some 0) := by
  induction levels generalizing w s with
  | nil =>
    obtain rfl : _ = s := by simpa [ofLevels] using h
    exact ⟨[], .nil w, rfl, rfl, by simp⟩
  | cons rules rest ih =>
    obtain ⟨first, t, hfirst, hrest, rfl⟩ := outcome_ofLevels_cons.1 h
    obtain ⟨counts, hpasses, hcounts, hiterations, hderived, hconverged⟩ := exists_passes hfirst
    obtain ⟨others, hothers, hiterations', hderived', hconverged'⟩ := ih (s := t) hrest
    refine ⟨counts :: others, .cons hpasses hcounts hothers, ?_, ?_, ?_⟩
    · simp [hiterations, hiterations']
    · simp [hderived, hderived']
    · rw [List.forall_mem_cons, Bool.and_eq_true, hconverged, hconverged']

/-! ## Relations that stay -/

/-- Levels of rules leave the relations alone into which none of them derives. -/
theorem relation?_ofLevels_of_forall_ne {s : Saturation}
    (h : outcome (ofLevels limit levels w) = .ok s) {name : String}
    (hname : ∀ rules ∈ levels, ∀ r ∈ rules, r.headName ≠ name) :
    s.result.relation? name = w.relation? name := by
  refine preserved_ofLevels (P := fun w' => w'.relation? name = w.relation? name) ?_ rfl h
  intro rules hlevel r hr w₁ added w₂ hw₁ happly
  obtain ⟨tuples, hinsert, -, -⟩ := Rule.apply_ok happly
  have hne := (hname rules hlevel r hr).symm
  have hsame := WorkingSet.relation?_insertEach_of_ne (w := w₁) hne tuples
  rw [hinsert] at hsame
  exact hsame.trans hw₁

/-- Levels of rules make relations only of the names of their heads. -/
theorem mem_relations_ofLevels {s : Saturation} (h : outcome (ofLevels limit levels w) = .ok s) :
    ∀ e ∈ s.result.relations,
      e ∈ w.relations ∨ ∃ rules ∈ levels, ∃ r ∈ rules, r.headName = e.1 := by
  refine preserved_ofLevels (P := fun w' => ∀ e ∈ w'.relations,
    e ∈ w.relations ∨ ∃ rules ∈ levels, ∃ r ∈ rules, r.headName = e.1) ?_ (fun _ => .inl) h
  intro rules hlevel r hr w₁ added w₂ hw₁ happly e he
  obtain ⟨tuples, hinsert, -, -⟩ := Rule.apply_ok happly
  have hmem : e ∈ (w₁.insertEach r.headName tuples).2.relations := by
    rw [hinsert]
    exact he
  rcases WorkingSet.mem_relations_insertEach hmem with hname | he
  · exact .inr ⟨rules, hlevel, r, hr, hname.symm⟩
  · exact hw₁ e he

/-! ## Counts and tuples -/

/-- The derived relations grow by what a pass counts. -/
theorem derivedCount_pass (hbase : ∀ r ∈ rules, WorkingSet.isBase r.headName = false)
    (h : outcome (pass rules w) = .ok (n, w')) : w'.derivedCount = w.derivedCount + n := by
  induction rules generalizing w n with
  | nil =>
    obtain ⟨rfl, rfl⟩ : 0 = n ∧ w = w' := by simpa [pass] using h
    rfl
  | cons r rest ih =>
    rw [List.forall_mem_cons] at hbase
    obtain ⟨first, w₁, others, hfirst, hothers, rfl⟩ := outcome_pass_cons.1 h
    obtain ⟨tuples, hinsert, -, -⟩ := Rule.apply_ok hfirst
    have hgrows := WorkingSet.derivedCount_insertEach (w := w) hbase.1 tuples
    rw [hinsert] at hgrows
    rw [ih hbase.2 hothers, hgrows, Nat.add_assoc]

theorem derivedCount_passes {counts : List Nat}
    (hbase : ∀ r ∈ rules, WorkingSet.isBase r.headName = false)
    (h : Passes rules w counts w') : w'.derivedCount = w.derivedCount + counts.sum := by
  induction h with
  | nil w => rfl
  | cons hpass _ ih => rw [ih, derivedCount_pass hbase hpass, List.sum_cons, Nat.add_assoc]

/-- The derived relations grow by what the passes of all levels count. -/
theorem derivedCount_passesOver {counts : List (List Nat)}
    (hbase : ∀ rules ∈ levels, ∀ r ∈ rules, WorkingSet.isBase r.headName = false)
    (h : PassesOver limit levels w counts w') :
    w'.derivedCount = w.derivedCount + (counts.map List.sum).sum := by
  induction h with
  | nil w => rfl
  | cons hpasses _ _ ih =>
    rw [List.forall_mem_cons] at hbase
    rw [ih hbase.2, derivedCount_passes hbase.1 hpasses, List.map_cons, List.sum_cons,
      Nat.add_assoc]

end Saturation

namespace Program

open Deriving

/-- The plan of an evaluation tells how its working set came about. -/
structure IsAccountedFor (p : Program) (s : Store) (q : GoalQuery) (plan : Plan) (w : WorkingSet) :
    Prop where
  derived : plan.derived = w.derivedCount
  tupleCount : w.tupleCount =
    w.derivedCount + (w.relation attrRelation).size + (w.relation linkRelation).size
  facts : w.relation? attrRelation = (WorkingSet.ofStore s).relation? attrRelation
  links : w.relation? linkRelation = (WorkingSet.ofStore s).relation? linkRelation
  /-- The other relations are those of the evaluated rules. -/
  heads : ∀ e ∈ w.relations, WorkingSet.isBase e.1 = true ∨ ∃ r ∈ p.rulesFor q, r.headName = e.1
  /-- The passes over the levels of the evaluated rules lead from the store to the working set, and
  the plan has converged if on every level the last pass was made and added nothing. -/
  passes : ∃ counts, Saturation.PassesOver p.settings.maxIterations (p.levels (p.rulesFor q))
      (WorkingSet.ofStore s) counts w ∧
    plan.iterations = (counts.map List.length).sum ∧
    (plan.converged = true ↔ ∀ c ∈ counts, c.getLast? = some 0)

/-- An evaluation with rules that derive into no base relation is accounted for. -/
theorem isAccountedFor_evaluateIn {p : Program}
    (hbase : ∀ r ∈ p.rules, WorkingSet.isBase r.headName = false) {s : Store} {w w' : WorkingSet}
    {q : GoalQuery} {a : Answers} (h : p.evaluateIn s w q = .ok (a, w')) :
    p.IsAccountedFor s q a.plan w' := by
  obtain ⟨t, hlevels, rfl, rfl⟩ := evaluateIn_eq_ok.1 h
  have hrules : ∀ rules ∈ p.levels (p.rulesFor q), ∀ r ∈ rules, r ∈ p.rulesFor q :=
    fun _ hrules _ => mem_of_mem_levels hrules
  have hderived : ∀ rules ∈ p.levels (p.rulesFor q), ∀ r ∈ rules,
      WorkingSet.isBase r.headName = false :=
    fun rules hlevel r hr => hbase r (mem_of_mem_rulesFor (hrules rules hlevel r hr))
  obtain ⟨counts, hpasses, hiterations, hsum, hconverged⟩ := Saturation.exists_passesOver hlevels
  have hframe : ∀ name, WorkingSet.isBase name = true →
      t.result.relation? name = (w.seed s).relation? name := by
    intro name hname
    refine Saturation.relation?_ofLevels_of_forall_ne hlevels fun rules hlevel r hr hsame => ?_
    rw [← hsame, hderived rules hlevel r hr] at hname
    exact Bool.noConfusion hname
  constructor
  case derived =>
    have hgrows := Saturation.derivedCount_passesOver hderived hpasses
    rw [WorkingSet.derivedCount_seed, Nat.zero_add, ← hsum] at hgrows
    exact hgrows.symm
  case tupleCount => exact t.result.tupleCount_eq
  case facts => exact hframe attrRelation rfl
  case links => exact hframe linkRelation rfl
  case heads =>
    intro e he
    rcases Saturation.mem_relations_ofLevels hlevels e he with hseed | ⟨rules, hlevel, r, hr, hname⟩
    · exact .inl (WorkingSet.isBase_of_mem_relations_seed hseed)
    · exact .inr ⟨r, hrules rules hlevel r hr, hname⟩
  case passes => exact ⟨counts, hpasses, hiterations, hconverged⟩

/-- Evaluations account for what they do. For rules that were read from texts and accepted, for
every store, every query, all settings, and whatever the working set held before: the evaluation
succeeds, its plan counts the tuples of the derived relations, which with the base relations are all
tuples; the base relations are as loaded, the others have the names of heads of evaluated rules; and
the plan has converged exactly if on every level of evaluated rules the last pass was made and added
nothing. -/
theorem exists_evaluateIn_isAccountedFor (settings : Settings) (calls : List RuleCall)
    (hparsed : ((empty settings).performAll calls).IsParsed)
    (s : Store) (w : WorkingSet) (q : GoalQuery) :
    ∃ a w', ((empty settings).performAll calls).evaluateIn s w q = .ok (a, w') ∧
      ((empty settings).performAll calls).IsAccountedFor s q a.plan w' := by
  have hp := (isValid_empty settings).performAll calls
  obtain ⟨a, w', heval⟩ := hp.exists_evaluateIn s w q
  exact ⟨a, w', heval, isAccountedFor_evaluateIn (hp.isBase_of_isParsed hparsed) heval⟩

/-- What is reached in a path of three nodes, evaluated with two passes in a working set that holds
another pair of nodes already. -/
theorem exists_isAccountedFor_pathStore :
    ∃ a w', ((empty ⟨2, true⟩).performAll [.several [stepRule, chainRule]]).evaluateIn
        (pathStore [("a", "b"), ("b", "c")])
        (WorkingSet.empty.insertEach "reach" [[.text "c", .text "d"]]).2 reachQuery = .ok (a, w') ∧
      ((empty ⟨2, true⟩).performAll [.several [stepRule, chainRule]]).IsAccountedFor
        (pathStore [("a", "b"), ("b", "c")]) reachQuery a.plan w' :=
  exists_evaluateIn_isAccountedFor ⟨2, true⟩ _ (isParsed_reach _ (List.Subset.refl _)) _ _ _

end Program

end Factbase
