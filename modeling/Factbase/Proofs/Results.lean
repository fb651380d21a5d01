/-! # Results of steps that may fail

Steps one after the other succeed when each of them does (`bind_eq_ok`). So a step for every element
of a list succeeds when there is a result for each element (`exists_mapM_eq_ok`), and gives these
(`mem_of_mapM_eq_ok`). -/

namespace Factbase

variable {α β ε : Type}

/-- Two steps succeed when the first does, and then the second. -/
theorem bind_eq_ok {x : Except ε α} {f : α → Except ε β} {b : β} :
    (x >>= f) = .ok b ↔ ∃ a, x = .ok a ∧ f a = .ok b := by
  cases x <;> simp [bind, Except.bind]

/-- A step for each element succeeds when it does for the first and for the others. -/
theorem mapM_cons_eq_ok {f : α → Except ε β} {a : α} {as : List α} {bs : List β} :
    (a :: as).mapM f = .ok bs ↔
      ∃ b, f a = .ok b ∧ ∃ rest, as.mapM f = .ok rest ∧ b :: rest = bs := by
  rw [List.mapM_cons, bind_eq_ok]
  simp only [bind_eq_ok, pure, Except.pure, Except.ok.injEq]

/-- What a step for each element gives: the results of the elements. -/
theorem mem_of_mapM_eq_ok {f : α → Except ε β} {as : List α} {bs : List β}
    (h : as.mapM f = .ok bs) :
    (∀ b ∈ bs, ∃ a ∈ as, f a = .ok b) ∧ ∀ a ∈ as, ∃ b ∈ bs, f a = .ok b := by
  induction as generalizing bs with
  | nil =>
    obtain rfl : [] = bs := by simpa [List.mapM_nil, pure, Except.pure] using h
    simp
  | cons a rest ih =>
    obtain ⟨b, ha, cs, hrest, rfl⟩ := mapM_cons_eq_ok.1 h
    obtain ⟨hfrom, hto⟩ := ih hrest
    constructor
    · refine List.forall_mem_cons.2 ⟨⟨a, List.mem_cons_self, ha⟩, fun c hc => ?_⟩
      obtain ⟨a', ha', hc'⟩ := hfrom c hc
      exact ⟨a', List.mem_cons_of_mem _ ha', hc'⟩
    · refine List.forall_mem_cons.2 ⟨⟨b, List.mem_cons_self, ha⟩, fun a' ha' => ?_⟩
      obtain ⟨c, hc, hc'⟩ := hto a' ha'
      exact ⟨c, List.mem_cons_of_mem _ hc, hc'⟩

/-- A step for each element succeeds when it does for every element. -/
theorem exists_mapM_eq_ok {f : α → Except ε β} {as : List α} (h : ∀ a ∈ as, ∃ b, f a = .ok b) :
    ∃ bs, as.mapM f = .ok bs := by
  induction as with
  | nil => exact ⟨[], rfl⟩
  | cons a rest ih =>
    rw [List.forall_mem_cons] at h
    obtain ⟨b, hb⟩ := h.1
    obtain ⟨bs, hbs⟩ := ih h.2
    exact ⟨b :: bs, mapM_cons_eq_ok.2 ⟨b, hb, bs, hbs, rfl⟩⟩

end Factbase
