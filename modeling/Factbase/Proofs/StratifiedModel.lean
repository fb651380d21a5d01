import Factbase.Program
import Factbase.Proofs.Meaning
import Factbase.WorkingSet

/-! # The stratified model of a program

The model of a program over a store is built level by level. On each level the relations are the
least ones above those of the lower levels that are closed under the rules of the level, where
negated goals are read in the lower levels (`isLeast_levelModel`). A relation is finished on its own
level (`Program.modelBelow_of_lt`). -/

namespace Factbase

/-- The relations of a store. -/
def Store.interpretation (s : Store) : Interpretation := fun name =>
  {t | (name = attrRelation ∧ ∃ f ∈ s.facts.toList, t = f.toTuple) ∨
    (name = linkRelation ∧ ∃ l ∈ s.links.toList, t = l.toTuple)}

/-- An interpretation contains the head of each rule for every solution of the body, with negated
goals read in `J`. -/
def IsClosedUnder (rules : List Rule) (J I : Interpretation) : Prop :=
  ∀ r ∈ rules, ∀ b t, Goal.YieldsEach I J r.body .empty b →
    r.head.terms.mapM b.resolve = some t → t ∈ I r.headName

/-- The least relations above given ones that are closed under some rules, with negated goals read
in the given relations. -/
def levelModel (rules : List Rule) (lower : Interpretation) : Interpretation :=
  sInf {I | lower ≤ I ∧ IsClosedUnder rules lower I}

section Level

variable {rules : List Rule} {lower I I' J : Interpretation} {b c : Binding}

/-- A conjunction keeps its solutions where each of its goals does. -/
theorem Goal.yieldsEach_of_le_of_forall {goals : List Goal}
    (h : ∀ goal ∈ goals, ∀ b c, Goal.Yields I J goal b c → Goal.Yields I' J goal b c)
    (hb : Goal.YieldsEach I J goals b c) : Goal.YieldsEach I' J goals b c := by
  induction goals generalizing b with
  | nil => exact hb
  | cons goal rest ih =>
    rw [List.forall_mem_cons] at h
    obtain ⟨d, hd, hrest⟩ := hb
    exact ⟨d, h.1 b d hd, ih h.2 hrest⟩

/-- Solutions stay solutions in larger relations. -/
theorem Goal.yields_of_le (hle : I ≤ I') {goal : Goal} (hb : Goal.Yields I J goal b c) :
    Goal.Yields I' J goal b c := by
  induction goal generalizing b c with
  | literal l =>
    rw [Goal.Yields] at hb ⊢
    split at hb
    · next hl =>
      obtain ⟨t, ht, hextends⟩ := hb
      rw [if_pos hl]
      exact ⟨t, hle _ ht, hextends⟩
    · next hl =>
      rw [if_neg hl]
      exact hb
  | not goal ih => exact hb
  | anyOf branches ih =>
    rw [Goal.Yields, Goal.yieldsAny_iff] at hb ⊢
    obtain ⟨branch, hbranch, hb⟩ := hb
    exact ⟨branch, hbranch, Goal.yieldsEach_of_le_of_forall
      (fun goal hgoal b c hb => ih branch hbranch goal hgoal hb) hb⟩

/-- Solutions of a conjunction stay solutions in larger relations. -/
theorem Goal.yieldsEach_of_le (hle : I ≤ I') {goals : List Goal}
    (hb : Goal.YieldsEach I J goals b c) : Goal.YieldsEach I' J goals b c :=
  Goal.yieldsEach_of_le_of_forall (fun _ _ _ _ hb => Goal.yields_of_le hle hb) hb

/-- What is in the relations of a level: the tuples that are in all closed relations. -/
theorem mem_levelModel {name : String} {t : Tuple} :
    t ∈ levelModel rules lower name ↔
      ∀ I, lower ≤ I → IsClosedUnder rules lower I → t ∈ I name := by
  simp only [levelModel, sInf_apply, Set.iInf_eq_iInter, Set.mem_iInter, Subtype.forall,
    Set.mem_ofPred_eq, and_imp]

/-- The relations of a level are below all closed relations. -/
theorem levelModel_le (hle : lower ≤ I) (hclosed : IsClosedUnder rules lower I) :
    levelModel rules lower ≤ I := fun _ _ ht => mem_levelModel.1 ht I hle hclosed

/-- The relations of a level contain the lower ones. -/
theorem le_levelModel : lower ≤ levelModel rules lower :=
  fun _ _ ht => mem_levelModel.2 fun _ hle _ => hle _ ht

/-- The relations of a level are closed under its rules. -/
theorem isClosedUnder_levelModel : IsClosedUnder rules lower (levelModel rules lower) := by
  intro r hr b t hb ht
  -- a solution in the relations of the level is one in each closed interpretation
  refine mem_levelModel.2 fun I hle hclosed => ?_
  exact hclosed r hr b t (Goal.yieldsEach_of_le (levelModel_le hle hclosed) hb) ht

/-- The relations of a level are the least that are closed under its rules. -/
theorem isLeast_levelModel (rules : List Rule) (lower : Interpretation) :
    IsLeast {I | lower ≤ I ∧ IsClosedUnder rules lower I} (levelModel rules lower) :=
  ⟨⟨le_levelModel, isClosedUnder_levelModel⟩, fun _ hI => levelModel_le hI.1 hI.2⟩

/-- A level adds nothing to a relation into which none of its rules derives. -/
theorem levelModel_of_forall_ne {name : String} (h : ∀ r ∈ rules, r.headName ≠ name) :
    levelModel rules lower name = lower name := by
  classical
  refine Set.Subset.antisymm (fun t ht => ?_) (le_levelModel name)
  -- the relation as it was is closed, whatever the others hold
  have hmem :=
    mem_levelModel.1 ht (fun other => if other = name then lower name else Set.univ) ?_ ?_
  · simpa using hmem
  · intro other t ht
    dsimp only
    split
    · next heq => exact heq ▸ ht
    · trivial
  · intro r hr b t _ _
    dsimp only
    rw [if_neg (h r hr)]
    trivial

end Level

namespace Program

variable {p : Program} {s : Store} {name : String}

/-- The rules whose heads are on a level. -/
def levelRules (p : Program) (n : Nat) : List Rule :=
  p.rules.filter fun r => p.strata.level r.headName = n

/-- The relations below a level: those of the store, and those of the lower levels. -/
def modelBelow (p : Program) (s : Store) : Nat → Interpretation
  | 0 => s.interpretation
  | n + 1 => levelModel (p.levelRules n) (p.modelBelow s n)

/-- The stratified model: every relation as it is finished on its level. -/
def model (p : Program) (s : Store) : Interpretation :=
  fun name => p.modelBelow s (p.strata.level name + 1) name

/-- Going up adds tuples only. -/
theorem modelBelow_le_succ (n : Nat) : p.modelBelow s n ≤ p.modelBelow s (n + 1) := le_levelModel

/-- A level changes only relations on that level. -/
theorem modelBelow_succ_of_ne {n : Nat} (h : p.strata.level name ≠ n) :
    p.modelBelow s (n + 1) name = p.modelBelow s n name := by
  refine levelModel_of_forall_ne fun r hr heq => h ?_
  rw [← heq]
  simpa using (List.mem_filter.1 hr).2

/-- Every level has the relations of the store. -/
theorem interpretation_le_modelBelow (p : Program) (s : Store) (n : Nat) :
    s.interpretation ≤ p.modelBelow s n := by
  induction n with
  | zero => exact le_refl _
  | succ n ih => exact ih.trans (modelBelow_le_succ n)

/-- For a solution of the body of a rule in the relations of its level the head is in the model. -/
theorem mem_model_of_yieldsEach {r : Rule} (hr : r ∈ p.rules) {b : Binding} {t : Tuple}
    (hb : Goal.YieldsEach (p.modelBelow s (p.strata.level r.headName + 1))
      (p.modelBelow s (p.strata.level r.headName)) r.body .empty b)
    (ht : r.head.terms.mapM b.resolve = some t) : t ∈ p.model s r.headName :=
  isClosedUnder_levelModel r (List.mem_filter.2 ⟨hr, by simp⟩) b t hb ht

/-- A relation is finished on its own level. -/
theorem modelBelow_of_lt {n : Nat} (h : p.strata.level name < n) :
    p.modelBelow s n name = p.model s name := by
  induction n with
  | zero => omega
  | succ n ih =>
    rcases Nat.lt_or_eq_of_le (Nat.le_of_lt_succ h) with hlt | heq
    · rw [modelBelow_succ_of_ne (Nat.ne_of_lt hlt), ih hlt]
    · rw [model, heq]

/-- Below its level a relation is as the store has it. -/
theorem modelBelow_of_le {n : Nat} (h : n ≤ p.strata.level name) :
    p.modelBelow s n name = s.interpretation name := by
  induction n with
  | zero => rfl
  | succ n ih => rw [modelBelow_succ_of_ne (by omega), ih (by omega)]

end Program

end Factbase
