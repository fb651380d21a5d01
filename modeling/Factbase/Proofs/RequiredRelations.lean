import Factbase.Proofs.NegativeCycles

/-! # What is required for some relations

A walk from some relations visits exactly those that lead from them along references, plain or
negated (`DependencyGraph.required_ofRules`), on graphs with cycles too.

A walk always comes to its end: a visit takes one relation from those that wait, and what it adds
are ends of edges out of a relation that was not visited before; so what waits, counted together
with the edges that were not followed, becomes less (`DependencyGraph.effort_visit_lt`). What was
visited or waits is reached, it contains the relations at the start, and what is not there of the
edges out of visited relations waits (`DependencyGraph.IsWalk`); once nothing waits, the visited
relations are those that are reached. -/

namespace Factbase

namespace DependencyGraph

variable {g : DependencyGraph} {walk : Walk} {roots : List String} {name : String}

/-! ## One visit -/

/-- A relation that was visited before is dropped. -/
theorem visit_of_mem {waiting : List String} (hwaiting : walk.waiting = name :: waiting)
    (h : name ∈ walk.visited) : g.visit walk = ⟨walk.visited, waiting⟩ := by
  simp [visit, hwaiting, h]

/-- A relation that was not visited before is visited, and what it depends on comes to wait. -/
theorem exists_visit_eq {waiting : List String} (hwaiting : walk.waiting = name :: waiting)
    (h : name ∉ walk.visited) :
    ∃ found, g.visit walk = ⟨insertOrdered compare name walk.visited, found ++ waiting⟩ ∧
      found.length ≤ (g.edges name).length ∧
      ∀ other, other ∈ found ↔
        g.DependsOn name other ∧ other ∉ insertOrdered compare name walk.visited := by
  let visited := insertOrdered compare name walk.visited
  let found := ((g.edges name).map (·.name)).filter fun target => !visited.contains target
  refine ⟨found.reverse, by simp [visit, hwaiting, h, visited, found], ?_, fun other => ?_⟩
  · rw [List.length_reverse]
    exact (List.length_filter_le _ _).trans_eq (List.length_map _)
  · simp [DependsOn, visited, found]

/-- Where nothing waits there is nothing to visit. -/
theorem visit_of_eq_nil (h : walk.waiting = []) : g.visit walk = walk := by
  simp [visit, h]

/-! ## The end of a walk -/

/-- How many edges lead out of relations that were not visited. -/
def unfollowed (visited : List String) (dependencies : List (String × List Reference)) : Nat :=
  ((dependencies.filter fun d => !visited.contains d.1).flatMap (·.2)).length

/-- What a walk has still to do at most: to take what waits, and to follow the edges out of
relations that were not visited. -/
def effort (g : DependencyGraph) (walk : Walk) : Nat :=
  walk.waiting.length + unfollowed walk.visited g.dependencies

theorem unfollowed_cons (visited : List String) (d : String × List Reference)
    (rest : List (String × List Reference)) :
    unfollowed visited (d :: rest) =
      (if d.1 ∈ visited then 0 else d.2.length) + unfollowed visited rest := by
  by_cases hd : d.1 ∈ visited <;> simp [unfollowed, hd]

/-- The more was visited, the fewer edges were not followed. -/
theorem unfollowed_le {visited visited' : List String} (h : visited ⊆ visited')
    (dependencies : List (String × List Reference)) :
    unfollowed visited' dependencies ≤ unfollowed visited dependencies := by
  induction dependencies with
  | nil => exact Nat.le_refl _
  | cons d rest ih =>
    rw [unfollowed_cons, unfollowed_cons]
    refine Nat.add_le_add ?_ ih
    by_cases hd : d.1 ∈ visited
    · rw [if_pos (h hd), if_pos hd]
    · rw [if_neg hd]
      split <;> omega

/-- A visit follows the edges out of a relation, if it was not visited before. -/
theorem unfollowed_visited_add_le {visited : List String} (h : name ∉ visited)
    (dependencies : List (String × List Reference)) :
    unfollowed (insertOrdered compare name visited) dependencies +
      ((dependencies.lookup name).getD []).length ≤ unfollowed visited dependencies := by
  have hsub : visited ⊆ insertOrdered compare name visited :=
    fun other hother => mem_insertOrdered.2 (.inr hother)
  induction dependencies with
  | nil => exact Nat.le_refl _
  | cons d rest ih =>
    rw [unfollowed_cons, unfollowed_cons, lookup_cons_eq_ite]
    by_cases hd : name = d.1
    · -- these are the edges of the relation; later ones of the same name are not looked up
      have hrest := unfollowed_le hsub rest
      rw [if_pos hd, if_pos (mem_insertOrdered.2 (.inl hd.symm)), if_neg (hd ▸ h),
        Option.getD_some]
      omega
    · have hiff : d.1 ∈ insertOrdered compare name visited ↔ d.1 ∈ visited := by
        rw [mem_insertOrdered, or_iff_right (Ne.symm hd)]
      rw [if_neg hd]
      simp only [hiff]
      omega

/-- A visit lessens what a walk has still to do, unless nothing waits. -/
theorem effort_visit_lt (h : walk.waiting ≠ []) : g.effort (g.visit walk) < g.effort walk := by
  obtain ⟨name, waiting, hwaiting⟩ := List.exists_cons_of_ne_nil h
  have hlength : walk.waiting.length = waiting.length + 1 := by rw [hwaiting, List.length_cons]
  by_cases hname : name ∈ walk.visited
  · rw [visit_of_mem hwaiting hname]
    simp only [effort]
    omega
  · obtain ⟨found, hvisit, hfound, -⟩ := exists_visit_eq (g := g) hwaiting hname
    have hfollowed := unfollowed_visited_add_le hname g.dependencies
    rw [hvisit]
    simp only [effort, List.length_append]
    unfold edges at hfound
    omega

/-- After some visits nothing waits, or each visit has lessened what the walk had to do. -/
theorem waiting_eq_nil_or_effort_add_le (walk : Walk) (n : Nat) :
    (n.repeat g.visit walk).waiting = [] ∨
      g.effort (n.repeat g.visit walk) + n ≤ g.effort walk := by
  induction n with
  | zero => exact .inr (Nat.le_refl _)
  | succ n ih =>
    show (g.visit (n.repeat g.visit walk)).waiting = [] ∨
      g.effort (g.visit (n.repeat g.visit walk)) + (n + 1) ≤ g.effort walk
    by_cases hwaiting : (n.repeat g.visit walk).waiting = []
    · exact .inl (by rw [visit_of_eq_nil hwaiting, hwaiting])
    · have hlt : g.effort (g.visit (n.repeat g.visit walk)) < g.effort (n.repeat g.visit walk) :=
        effort_visit_lt hwaiting
      have hle := ih.resolve_left hwaiting
      exact .inr (by omega)

/-- How often a walk visits a relation at most: what waits at its start, and the ends of edges. -/
theorem effort_start (g : DependencyGraph) (roots : List String) :
    g.effort (.start roots) = (Walk.start roots).waiting.length + g.edgeCount := by
  simp [effort, unfollowed, Walk.start, edgeCount]

/-- A walk comes to its end, and what it has visited then is what is required. -/
theorem repeat_visit_start (roots : List String) {n : Nat} (h : g.effort (.start roots) ≤ n) :
    n.repeat g.visit (.start roots) = ⟨g.required roots, []⟩ := by
  induction n, h using Nat.le_induction with
  | base =>
    have hwaiting : ((g.effort (.start roots)).repeat g.visit (.start roots)).waiting = [] := by
      rcases waiting_eq_nil_or_effort_add_le (g := g) (.start roots)
        (g.effort (.start roots)) with h | h
      · exact h
      · -- nothing is left to do, so nothing waits either
        have hzero : g.effort ((g.effort (.start roots)).repeat g.visit (.start roots)) = 0 := by
          omega
        exact List.length_eq_zero_iff.1 (Nat.eq_zero_of_add_eq_zero_right hzero)
    have hvisited : ((g.effort (.start roots)).repeat g.visit (.start roots)).visited =
        g.required roots := by
      rw [effort_start]
      rfl
    rw [← hwaiting, ← hvisited]
  | succ n _ ih =>
    show g.visit (n.repeat g.visit (.start roots)) = _
    rw [ih]
    rfl

/-! ## What is visited -/

/-- What holds on a walk from some relations. What was visited or waits is reached from them, none
of them is forgotten, and what a visited relation depends on was visited or waits. -/
structure IsWalk (g : DependencyGraph) (roots : List String) (walk : Walk) : Prop where
  sorted : walk.visited.Pairwise fun a b => compare a b = .lt
  reached : ∀ name, name ∈ walk.visited ∨ name ∈ walk.waiting →
    ∃ root ∈ roots, Relation.ReflTransGen g.DependsOn root name
  kept : ∀ root ∈ roots, root ∈ walk.visited ∨ root ∈ walk.waiting
  followed : ∀ name ∈ walk.visited, ∀ other, g.DependsOn name other →
    other ∈ walk.visited ∨ other ∈ walk.waiting

theorem isWalk_start (g : DependencyGraph) (roots : List String) :
    g.IsWalk roots (.start roots) where
  sorted := .nil
  reached name h := ⟨name, by simpa [Walk.start] using h, .refl⟩
  kept root h := .inr (by simpa [Walk.start] using h)
  followed name h := absurd h List.not_mem_nil

/-- A visit goes on with a walk. -/
theorem IsWalk.visit (h : g.IsWalk roots walk) : g.IsWalk roots (g.visit walk) := by
  cases hwaiting : walk.waiting with
  | nil =>
    rw [visit_of_eq_nil hwaiting]
    exact h
  | cons name waiting =>
    have hmem : ∀ other, other ∈ walk.waiting ↔ other = name ∨ other ∈ waiting := by
      simp [hwaiting]
    by_cases hname : name ∈ walk.visited
    · -- nothing is lost with a relation that was visited before
      have hstill : ∀ other, other ∈ walk.visited ∨ other ∈ walk.waiting →
          other ∈ walk.visited ∨ other ∈ waiting := by
        rintro other (hother | hother)
        · exact .inl hother
        · rcases (hmem other).1 hother with rfl | hother
          · exact .inl hname
          · exact .inr hother
      rw [visit_of_mem hwaiting hname]
      refine ⟨h.sorted, fun other hother => ?_, fun root hroot => hstill root (h.kept root hroot),
        fun a ha other hother => hstill other (h.followed a ha other hother)⟩
      exact h.reached other (hother.imp_right fun hother => (hmem other).2 (.inr hother))
    · obtain ⟨found, hvisit, -, hfound⟩ := exists_visit_eq (g := g) hwaiting hname
      have hstill : ∀ other, other ∈ walk.visited ∨ other ∈ walk.waiting →
          other ∈ insertOrdered compare name walk.visited ∨ other ∈ found ++ waiting := by
        rintro other (hother | hother)
        · exact .inl (mem_insertOrdered.2 (.inr hother))
        · rcases (hmem other).1 hother with rfl | hother
          · exact .inl (mem_insertOrdered.2 (.inl rfl))
          · exact .inr (List.mem_append_right _ hother)
      obtain ⟨root, hroot, hreached⟩ := h.reached name (.inr ((hmem name).2 (.inl rfl)))
      rw [hvisit]
      refine ⟨pairwise_insertOrdered h.sorted, ?_, fun root hroot => hstill root (h.kept root hroot),
        ?_⟩
      · rintro other (hother | hother)
        · rcases mem_insertOrdered.1 hother with rfl | hother
          · exact ⟨root, hroot, hreached⟩
          · exact h.reached other (.inl hother)
        · rcases List.mem_append.1 hother with hother | hother
          · exact ⟨root, hroot, hreached.tail ((hfound other).1 hother).1⟩
          · exact h.reached other (.inr ((hmem other).2 (.inr hother)))
      · intro a ha other hother
        rcases mem_insertOrdered.1 ha with rfl | ha
        · -- what the relation depends on and was not visited is what was found
          by_cases hvisited : other ∈ insertOrdered compare a walk.visited
          · exact .inl hvisited
          · exact .inr (List.mem_append_left _ ((hfound other).2 ⟨hother, hvisited⟩))
        · exact hstill other (h.followed a ha other hother)

/-- Any number of visits makes a walk. -/
theorem isWalk_repeat (g : DependencyGraph) (roots : List String) (n : Nat) :
    g.IsWalk roots (n.repeat g.visit (.start roots)) := by
  induction n with
  | zero => exact isWalk_start g roots
  | succ n ih => exact ih.visit

/-- What was visited at the end of a walk. -/
theorem isWalk_required (g : DependencyGraph) (roots : List String) :
    g.IsWalk roots ⟨g.required roots, []⟩ := by
  rw [← repeat_visit_start roots (Nat.le_refl _)]
  exact isWalk_repeat g roots _

/-- The required relations contain all that they depend on. -/
theorem mem_required_of_dependsOn (ha : name ∈ g.required roots) {other : String}
    (h : g.DependsOn name other) : other ∈ g.required roots :=
  ((isWalk_required g roots).followed name ha other h).resolve_right List.not_mem_nil

/-- The required relations contain the roots. -/
theorem subset_required (g : DependencyGraph) (h : name ∈ roots) : name ∈ g.required roots :=
  ((isWalk_required g roots).kept name h).resolve_right List.not_mem_nil

/-- What is required for some relations is what they lead to along dependencies. -/
theorem mem_required_iff : name ∈ g.required roots ↔
    ∃ root ∈ roots, Relation.ReflTransGen g.DependsOn root name := by
  constructor
  · exact fun h => (isWalk_required g roots).reached name (.inl h)
  · rintro ⟨root, hroot, hreached⟩
    induction hreached with
    | refl => exact subset_required g hroot
    | tail _ hstep ih => exact mem_required_of_dependsOn ih hstep

/-- A list of relations that contains all that they depend on. -/
def IsClosed (g : DependencyGraph) (names : List String) : Prop :=
  ∀ name ∈ names, ∀ e ∈ g.edges name, e.name ∈ names

/-- The required relations are closed. -/
theorem required_closed (roots : List String) : g.IsClosed (g.required roots) :=
  fun _ hname e he => mem_required_of_dependsOn hname ⟨e, he, rfl⟩

/-- A walk along the references of some rules comes to its end, after no more visits than there are
roots and references, and it visits each relation once that the roots lead to along references,
whether negated or not. So a rule that derives one of these relations mentions others of them
only. -/
theorem required_ofRules (rules : List Rule) (roots : List String) :
    (∀ n ≥ (Walk.start roots).waiting.length + (ofRules rules).edgeCount,
      n.repeat (ofRules rules).visit (.start roots) = ⟨(ofRules rules).required roots, []⟩) ∧
    ((ofRules rules).required roots).Pairwise (fun a b => compare a b = .lt) ∧
    (∀ name, name ∈ (ofRules rules).required roots ↔
      ∃ root ∈ roots, Relation.ReflTransGen (Mentions rules) root name) ∧
    ∀ r ∈ rules, r.headName ∈ (ofRules rules).required roots →
      ∀ e ∈ r.references, e.name ∈ (ofRules rules).required roots := by
  refine ⟨fun n hn => repeat_visit_start roots (by rwa [effort_start]),
    (isWalk_required _ roots).sorted, fun name => ?_, fun r hr hhead e he => ?_⟩
  · rw [mem_required_iff, dependsOn_ofRules]
  · exact required_closed roots r.headName hhead e (mem_edges_ofRules.2 ⟨r, hr, rfl, he⟩)

/-- The cycle between `p` and `q` is walked once, the negated `r` is required too, `s` is not. -/
example :
    let rule (head : String) (body : List Goal) : Rule := ⟨⟨.derived head, []⟩, body⟩
    let mention (name : String) : Goal := .literal ⟨.derived name, []⟩
    (ofRules [rule "p" [mention "q"], rule "q" [mention "p", .not (mention "r")],
      rule "s" [mention "p"]]).required ["p"] = ["p", "q", "r"] := by decide

end DependencyGraph

end Factbase
