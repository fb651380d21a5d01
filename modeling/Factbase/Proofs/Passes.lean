import Factbase.Proofs.Caching
import Factbase.Proofs.Results

/-! # Passes over rules

Saturating a working set is taken apart into the applications of rules of which it consists:
`Rule.apply_ok` says what one application does, and what every application keeps is kept by a pass,
a level and a whole saturation (`Saturation.preserved_ofLevels`). On a level that has converged no
rule adds anything (`Saturation.apply_of_converged`). -/

namespace Factbase

namespace Deriving

variable {α β : Type}

/-- What a computation gives when it starts with an empty cache. -/
def outcome (d : Deriving α) : Except RuleError α := Matching.value (ExceptT.run d)

/-- A computation with the same outcome whatever was compiled before. -/
def IsCacheFree (d : Deriving α) : Prop := Matching.IsCacheFree (ExceptT.run d)

theorem isCacheFree_pure (a : α) : IsCacheFree (pure a : Deriving α) :=
  Matching.isCacheFree_pure (Except.ok a)

@[simp] theorem outcome_pure (a : α) : outcome (pure a : Deriving α) = .ok a := rfl

/-- What follows an outcome. -/
theorem isCacheFree_bindCont {f : α → Deriving β} (hf : ∀ a, IsCacheFree (f a))
    (result : Except RuleError α) : Matching.IsCacheFree (ExceptT.bindCont f result) := by
  cases result with
  | ok a => exact hf a
  | error e => exact Matching.isCacheFree_pure _

theorem IsCacheFree.bind {d : Deriving α} {f : α → Deriving β} (hd : IsCacheFree d)
    (hf : ∀ a, IsCacheFree (f a)) : IsCacheFree (d >>= f) :=
  Matching.IsCacheFree.bind hd (isCacheFree_bindCont hf)

/-- Two computations one after the other succeed when the first does, and then the second. -/
theorem outcome_bind_eq_ok {d : Deriving α} {f : α → Deriving β} (hf : ∀ a, IsCacheFree (f a))
    {b : β} : outcome (d >>= f) = .ok b ↔ ∃ a, outcome d = .ok a ∧ outcome (f a) = .ok b := by
  have hvalue : outcome (d >>= f) = Matching.value (ExceptT.bindCont f (outcome d)) :=
    Matching.value_bind (isCacheFree_bindCont hf)
  rw [hvalue]
  cases outcome d with
  | ok a =>
    constructor
    · exact fun h => ⟨a, rfl, h⟩
    · rintro ⟨a', ha, h⟩
      rw [Except.ok.inj ha]
      exact h
  | error e =>
    constructor
    · intro h
      simp [ExceptT.bindCont] at h
    · rintro ⟨a', ha, -⟩
      simp at ha

end Deriving

namespace Rule

open Deriving

variable {r : Rule} {w w' : WorkingSet} {n : Nat}

theorem isCacheFree_derive : IsCacheFree (r.derive w) := by
  have hsolve : IsCacheFree (liftM (Goal.solveEach w r.body [.empty]) : Deriving (List Binding)) :=
    (Goal.isCacheFree_solveEach (fun goal _ => Goal.isCacheFree_solve goal) _).bind
      fun _ => Matching.isCacheFree_pure _
  exact hsolve.bind fun _ => Matching.isCacheFree_pure _

theorem isCacheFree_apply : IsCacheFree (r.apply w) :=
  isCacheFree_derive.bind fun _ => Deriving.isCacheFree_pure _

/-- A rule derives the head tuples of the solutions of its body. -/
theorem outcome_derive :
    outcome (r.derive w) = (Goal.solutionsEach w r.body [.empty]).mapM r.headTuple := rfl

/-- A head tuple has the values of the terms of the head. -/
theorem headTuple_eq_ok {b : Binding} {t : Tuple} :
    r.headTuple b = .ok t ↔ r.head.terms.mapM b.resolve = some t := by
  unfold headTuple
  induction r.head.terms generalizing t with
  | nil => simp [List.mapM_nil, pure, Except.pure]
  | cons term rest ih =>
    rw [mapM_cons_eq_ok, List.mapM_cons]
    cases b.resolve term with
    | none => simp
    | some value => simp [ih, Option.bind_eq_some_iff]

/-- What an application of a rule does: it inserts the head tuples of the solutions of its body. -/
theorem apply_ok (h : outcome (r.apply w) = .ok (n, w')) :
    ∃ tuples, w.insertEach r.headName tuples = (n, w') ∧
      (∀ t ∈ tuples, ∃ b ∈ Goal.solutionsEach w r.body [.empty],
        r.head.terms.mapM b.resolve = some t) ∧
      ∀ b ∈ Goal.solutionsEach w r.body [.empty],
        ∃ t ∈ tuples, r.head.terms.mapM b.resolve = some t := by
  rw [apply, outcome_bind_eq_ok fun _ => Deriving.isCacheFree_pure _] at h
  obtain ⟨tuples, hderive, hinsert⟩ := h
  rw [outcome_derive] at hderive
  obtain ⟨hfrom, hto⟩ := mem_of_mapM_eq_ok hderive
  refine ⟨tuples, by simpa using hinsert, ?_, ?_⟩
  · intro t ht
    obtain ⟨b, hb, htuple⟩ := hfrom t ht
    exact ⟨b, hb, headTuple_eq_ok.1 htuple⟩
  · intro b hb
    obtain ⟨t, ht, htuple⟩ := hto b hb
    exact ⟨t, ht, headTuple_eq_ok.1 htuple⟩

/-- An application leaves the relations alone into which the rule does not derive. -/
theorem tuples_apply_of_ne (h : outcome (r.apply w) = .ok (n, w')) {name : String}
    (hname : name ≠ r.headName) : w'.tuples name = w.tuples name := by
  obtain ⟨tuples, hinsert, -, -⟩ := apply_ok h
  have hframe : (w.insertEach r.headName tuples).2.tuples name = w.tuples name :=
    WorkingSet.tuples_insertEach_of_ne hname
  rwa [hinsert] at hframe

/-- An application leaves the tuples that are there in front. -/
theorem isPrefix_tuples_apply (h : outcome (r.apply w) = .ok (n, w')) (name : String) :
    w.tuples name <+: w'.tuples name := by
  obtain ⟨tuples, hinsert, -, -⟩ := apply_ok h
  have hkept := w.isPrefix_tuples_insertEach r.headName tuples name
  rwa [hinsert] at hkept

end Rule

namespace Saturation

open Deriving

variable {rules : List Rule} {w w' : WorkingSet} {n : Nat}

theorem isCacheFree_pass : IsCacheFree (pass rules w) := by
  induction rules generalizing w with
  | nil => exact Deriving.isCacheFree_pure _
  | cons r rest ih =>
    exact Rule.isCacheFree_apply.bind fun _ => ih.bind fun _ => Deriving.isCacheFree_pure _

theorem isCacheFree_ofLevel : IsCacheFree (ofLevel rules n w) := by
  induction n generalizing w with
  | zero => exact Deriving.isCacheFree_pure _
  | succ n ih =>
    refine isCacheFree_pass.bind fun result => ?_
    dsimp only
    split
    · exact Deriving.isCacheFree_pure _
    · exact ih.bind fun _ => Deriving.isCacheFree_pure _

/-- The passes over a level start with one, and the others follow if it adds something. -/
theorem outcome_ofLevel_succ {s : Saturation} :
    outcome (ofLevel rules (n + 1) w) = .ok s ↔
      ∃ added w₁, outcome (pass rules w) = .ok (added, w₁) ∧
        (added = 0 ∧ s = ⟨1, 0, true, w₁⟩ ∨
          added ≠ 0 ∧ ∃ t, outcome (ofLevel rules n w₁) = .ok t ∧
            s = { t with iterations := t.iterations + 1, derived := t.derived + added }) := by
  rw [ofLevel, outcome_bind_eq_ok]
  · constructor
    · rintro ⟨⟨added, w₁⟩, hpass, h⟩
      refine ⟨added, w₁, hpass, ?_⟩
      dsimp only at h
      split at h
      · next hzero => exact .inl ⟨hzero, (Except.ok.inj h).symm⟩
      · next hzero =>
        rw [outcome_bind_eq_ok fun _ => Deriving.isCacheFree_pure _] at h
        obtain ⟨t, hrest, h⟩ := h
        exact .inr ⟨hzero, t, hrest, (Except.ok.inj h).symm⟩
    · rintro ⟨added, w₁, hpass, h⟩
      refine ⟨(added, w₁), hpass, ?_⟩
      dsimp only
      rcases h with ⟨hzero, rfl⟩ | ⟨hzero, t, hrest, rfl⟩
      · rw [if_pos hzero]
        rfl
      · rw [if_neg hzero, outcome_bind_eq_ok fun _ => Deriving.isCacheFree_pure _]
        exact ⟨t, hrest, rfl⟩
  · intro result
    dsimp only
    split
    · exact Deriving.isCacheFree_pure _
    · exact isCacheFree_ofLevel.bind fun _ => Deriving.isCacheFree_pure _

theorem isCacheFree_ofLevels {levels : List (List Rule)} : IsCacheFree (ofLevels n levels w) := by
  induction levels generalizing w with
  | nil => exact Deriving.isCacheFree_pure _
  | cons rules rest ih =>
    exact isCacheFree_ofLevel.bind fun _ => ih.bind fun _ => Deriving.isCacheFree_pure _

/-- A pass over a list of rules applies the first and passes over the others. -/
theorem outcome_pass_cons {r : Rule} :
    outcome (pass (r :: rules) w) = .ok (n, w') ↔
      ∃ first w₁ others, outcome (r.apply w) = .ok (first, w₁) ∧
        outcome (pass rules w₁) = .ok (others, w') ∧ first + others = n := by
  rw [pass, outcome_bind_eq_ok fun _ => isCacheFree_pass.bind fun _ =>
    Deriving.isCacheFree_pure _]
  constructor
  · rintro ⟨⟨first, w₁⟩, hfirst, h⟩
    rw [outcome_bind_eq_ok fun _ => Deriving.isCacheFree_pure _] at h
    obtain ⟨⟨others, w₂⟩, hothers, h⟩ := h
    obtain ⟨hsum, rfl⟩ : first + others = n ∧ w₂ = w' := by simpa using h
    exact ⟨first, w₁, others, hfirst, hothers, hsum⟩
  · rintro ⟨first, w₁, others, hfirst, hothers, rfl⟩
    refine ⟨(first, w₁), hfirst, ?_⟩
    rw [outcome_bind_eq_ok fun _ => Deriving.isCacheFree_pure _]
    exact ⟨(others, w'), hothers, rfl⟩

/-- Levels are saturated one after the other. -/
theorem outcome_ofLevels_cons {levels : List (List Rule)} {s : Saturation} :
    outcome (ofLevels n (rules :: levels) w) = .ok s ↔
      ∃ first rest, outcome (ofLevel rules n w) = .ok first ∧
        outcome (ofLevels n levels first.result) = .ok rest ∧
          s = ⟨first.iterations + rest.iterations, first.derived + rest.derived,
            first.converged && rest.converged, rest.result⟩ := by
  rw [ofLevels, outcome_bind_eq_ok fun _ => isCacheFree_ofLevels.bind fun _ =>
    Deriving.isCacheFree_pure _]
  constructor
  · rintro ⟨first, hfirst, h⟩
    rw [outcome_bind_eq_ok fun _ => Deriving.isCacheFree_pure _] at h
    obtain ⟨rest, hrest, h⟩ := h
    exact ⟨first, rest, hfirst, hrest, (Except.ok.inj h).symm⟩
  · rintro ⟨first, rest, hfirst, hrest, rfl⟩
    refine ⟨first, hfirst, ?_⟩
    rw [outcome_bind_eq_ok fun _ => Deriving.isCacheFree_pure _]
    exact ⟨rest, hrest, rfl⟩

section Preserved

variable {P : WorkingSet → Prop}

/-- What every application of the rules keeps, a pass keeps. -/
theorem preserved_pass
    (hstep : ∀ r ∈ rules, ∀ w n w', P w → outcome (r.apply w) = .ok (n, w') → P w')
    (hw : P w) (h : outcome (pass rules w) = .ok (n, w')) : P w' := by
  induction rules generalizing w n with
  | nil =>
    obtain ⟨-, rfl⟩ : 0 = n ∧ w = w' := by simpa [pass] using h
    exact hw
  | cons r rest ih =>
    rw [List.forall_mem_cons] at hstep
    obtain ⟨first, w₁, others, hfirst, hothers, -⟩ := outcome_pass_cons.1 h
    exact ih hstep.2 (hstep.1 w first w₁ hw hfirst) hothers

/-- What every application of the rules keeps, the passes over a level keep. -/
theorem preserved_ofLevel {s : Saturation}
    (hstep : ∀ r ∈ rules, ∀ w n w', P w → outcome (r.apply w) = .ok (n, w') → P w')
    (hw : P w) (h : outcome (ofLevel rules n w) = .ok s) : P s.result := by
  induction n generalizing w s with
  | zero =>
    obtain rfl : _ = s := by simpa [ofLevel] using h
    exact hw
  | succ n ih =>
    obtain ⟨added, w₁, hpass, ⟨-, rfl⟩ | ⟨-, t, hrest, rfl⟩⟩ := outcome_ofLevel_succ.1 h
    · exact preserved_pass hstep hw hpass
    · exact ih (s := t) (preserved_pass hstep hw hpass) hrest

/-- What every application of the rules keeps, a saturation keeps. -/
theorem preserved_ofLevels {levels : List (List Rule)} {s : Saturation}
    (hstep : ∀ rules ∈ levels, ∀ r ∈ rules, ∀ w n w', P w →
      outcome (r.apply w) = .ok (n, w') → P w')
    (hw : P w) (h : outcome (ofLevels n levels w) = .ok s) : P s.result := by
  induction levels generalizing w s with
  | nil =>
    obtain rfl : _ = s := by simpa [ofLevels] using h
    exact hw
  | cons rules rest ih =>
    rw [List.forall_mem_cons] at hstep
    obtain ⟨first, rest, hfirst, hrest, rfl⟩ := outcome_ofLevels_cons.1 h
    exact ih (s := rest) hstep.2 (preserved_ofLevel hstep.1 hw hfirst) hrest

/-- The passes over a level leave the relations alone into which none of its rules derives. -/
theorem tuples_ofLevel_of_forall_ne {s : Saturation} (h : outcome (ofLevel rules n w) = .ok s)
    {name : String} (hname : ∀ r ∈ rules, r.headName ≠ name) :
    s.result.tuples name = w.tuples name := by
  refine preserved_ofLevel (P := fun w' => w'.tuples name = w.tuples name) ?_ rfl h
  intro r hr w₁ added w₂ hw₁ happly
  rw [Rule.tuples_apply_of_ne happly (hname r hr).symm, hw₁]

/-- A saturation leaves the relations alone into which no rule derives. -/
theorem tuples_ofLevels_of_forall_ne {levels : List (List Rule)} {s : Saturation}
    (h : outcome (ofLevels n levels w) = .ok s) {name : String}
    (hname : ∀ rules ∈ levels, ∀ r ∈ rules, r.headName ≠ name) :
    s.result.tuples name = w.tuples name := by
  refine preserved_ofLevels (P := fun w' => w'.tuples name = w.tuples name) ?_ rfl h
  intro rules hrules r hr w₁ added w₂ hw₁ happly
  rw [Rule.tuples_apply_of_ne happly (hname rules hrules r hr).symm, hw₁]

/-- The passes over a level leave the tuples that are there in front. -/
theorem isPrefix_tuples_ofLevel {s : Saturation} (h : outcome (ofLevel rules n w) = .ok s)
    (name : String) : w.tuples name <+: s.result.tuples name := by
  refine preserved_ofLevel (P := fun w' => w.tuples name <+: w'.tuples name) ?_
    (List.prefix_refl _) h
  exact fun r _ w₁ added w₂ hw₁ happly => hw₁.trans (Rule.isPrefix_tuples_apply happly name)

end Preserved

/-- A pass that adds nothing changes nothing, and neither does any of its rules. -/
theorem apply_of_pass_zero (h : outcome (pass rules w) = .ok (0, w')) :
    w' = w ∧ ∀ r ∈ rules, outcome (r.apply w) = .ok (0, w) := by
  induction rules generalizing w with
  | nil =>
    obtain rfl : w = w' := by simpa [pass] using h
    exact ⟨rfl, by simp⟩
  | cons r rest ih =>
    obtain ⟨first, w₁, others, hfirst, hothers, hsum⟩ := outcome_pass_cons.1 h
    -- both counts are zero, so the others are passed over from the same working set
    obtain ⟨rfl, rfl⟩ := Nat.add_eq_zero_iff.1 hsum
    obtain ⟨tuples, hinsert, -, -⟩ := Rule.apply_ok hfirst
    obtain rfl : w = w₁ := by
      have hzero := WorkingSet.insertEach_of_zero (congrArg Prod.fst hinsert)
      rwa [hinsert, eq_comm] at hzero
    obtain ⟨rfl, hrest⟩ := ih hothers
    exact ⟨rfl, List.forall_mem_cons.2 ⟨hfirst, hrest⟩⟩

/-- On a level that has converged no rule adds anything. -/
theorem apply_of_converged {s : Saturation} (h : outcome (ofLevel rules n w) = .ok s)
    (hconverged : s.converged = true) :
    ∀ r ∈ rules, outcome (r.apply s.result) = .ok (0, s.result) := by
  induction n generalizing w s with
  | zero =>
    obtain rfl : _ = s := by simpa [ofLevel] using h
    simp at hconverged
  | succ n ih =>
    -- the passes end with one that adds nothing
    obtain ⟨added, w₁, hpass, ⟨rfl, rfl⟩ | ⟨-, t, hrest, rfl⟩⟩ := outcome_ofLevel_succ.1 h
    · obtain ⟨rfl, hrules⟩ := apply_of_pass_zero hpass
      exact hrules
    · exact ih (s := t) hrest hconverged

end Saturation

namespace Program

/-- The levels divide the rules. -/
theorem mem_of_mem_levels {p : Program} {rs level : List Rule} {r : Rule}
    (hlevel : level ∈ p.levels rs) (hr : r ∈ level) : r ∈ rs := by
  unfold levels at hlevel
  obtain ⟨n, -, rfl⟩ := List.mem_map.1 hlevel
  exact (List.mem_filter.1 hr).1

/-- The rules that a query needs are rules of the program. -/
theorem mem_of_mem_rulesFor {p : Program} {q : GoalQuery} {r : Rule} (h : r ∈ p.rulesFor q) :
    r ∈ p.rules := by
  unfold rulesFor at h
  split at h
  · split at h
    · simp at h
    · exact (List.mem_filter.1 h).1
  · exact h

/-- What saturating does: it saturates level after level, and counts. -/
theorem run_eq_ok {p : Program} {rules : List Rule} {w w' : WorkingSet} {stats : SaturationStats} :
    p.run rules w = .ok (stats, w') ↔
      ∃ t, Deriving.outcome (Saturation.ofLevels p.settings.maxIterations (p.levels rules) w) =
          .ok t ∧
        w' = t.result ∧
        stats = ⟨rules.length, (p.levels rules).length, t.iterations, t.derived, t.converged⟩ := by
  constructor
  · intro h
    obtain ⟨t, ht, hresult⟩ := bind_eq_ok.1 h
    obtain ⟨rfl, rfl⟩ := Prod.mk.inj (Except.ok.inj hresult)
    exact ⟨t, ht, rfl, rfl⟩
  · rintro ⟨t, ht, rfl, rfl⟩
    exact bind_eq_ok.2 ⟨t, ht, rfl⟩

/-- What an evaluation does: it saturates the seeded working set with the rules that the query
needs, and solves the goals there. -/
theorem evaluateIn_eq_ok {p : Program} {s : Store} {w w' : WorkingSet} {q : GoalQuery}
    {a : Answers} :
    p.evaluateIn s w q = .ok (a, w') ↔
      ∃ t, Deriving.outcome (Saturation.ofLevels p.settings.maxIterations
          (p.levels (p.rulesFor q)) (w.seed s)) = .ok t ∧
        w' = t.result ∧
        a = ⟨q.answers w', ⟨q.goals.length, (p.rulesFor q).length,
          (p.levels (p.rulesFor q)).length, t.iterations, t.derived, t.converged⟩⟩ := by
  constructor
  · intro h
    obtain ⟨⟨stats, w₁⟩, hrun, hresult⟩ := bind_eq_ok.1 h
    obtain ⟨t, ht, rfl, rfl⟩ := run_eq_ok.1 hrun
    obtain ⟨rfl, rfl⟩ := Prod.mk.inj (Except.ok.inj hresult)
    exact ⟨t, ht, rfl, rfl⟩
  · rintro ⟨t, ht, rfl, rfl⟩
    exact bind_eq_ok.2 ⟨_, run_eq_ok.2 ⟨t, ht, rfl, rfl⟩, rfl⟩

/-- Evaluating a query starts from an empty working set. -/
theorem evaluate_eq_ok {p : Program} {s : Store} {q : GoalQuery} {a : Answers} :
    p.evaluate s q = .ok a ↔ ∃ w, p.evaluateIn s .empty q = .ok (a, w) := by
  unfold evaluate
  cases p.evaluateIn s .empty q with
  | ok result =>
    obtain ⟨a', w⟩ := result
    simp [Except.map]
  | error e => simp [Except.map]

end Program

end Factbase
