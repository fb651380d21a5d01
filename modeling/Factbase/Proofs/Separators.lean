/-! # Marks in texts

A mark that does not occur in the parts of a text tells where a part ends: `append_mark_inj` divides
at the first mark and `intercalate_inj` at all of them. -/

namespace Factbase

variable {α : Type} {mark : α}

/-- A text is divided in one way at its first mark. -/
theorem append_mark_inj {front front' rest rest' : List α} (h : mark ∉ front) (h' : mark ∉ front')
    (heq : front ++ mark :: rest = front' ++ mark :: rest') : front = front' ∧ rest = rest' := by
  induction front generalizing front' with
  | nil =>
    cases front' with
    | nil => exact ⟨rfl, (List.cons.inj heq).2⟩
    | cons a front' =>
      rw [List.nil_append, List.cons_append] at heq
      exact absurd ((List.cons.inj heq).1 ▸ List.mem_cons_self) h'
  | cons a front ih =>
    cases front' with
    | nil =>
      rw [List.nil_append, List.cons_append] at heq
      exact absurd ((List.cons.inj heq).1 ▸ List.mem_cons_self) h
    | cons b front' =>
      rw [List.cons_append, List.cons_append] at heq
      obtain ⟨rfl, htail⟩ := List.cons.inj heq
      rw [List.mem_cons, not_or] at h h'
      obtain ⟨rfl, rfl⟩ := ih h.2 h'.2 htail
      exact ⟨rfl, rfl⟩

/-- Parts before others, with a mark between them. -/
theorem intercalate_cons {part : List α} {parts : List (List α)} (h : parts ≠ []) :
    [mark].intercalate (part :: parts) = part ++ mark :: [mark].intercalate parts := by
  cases parts with
  | nil => exact absurd rfl h
  | cons next rest =>
    rw [List.intercalate_cons_cons, List.append_assoc, List.singleton_append]

/-- A text is divided in one way at its marks. -/
theorem intercalate_inj {parts parts' : List (List α)}
    (h : ∀ part ∈ parts, part ≠ [] ∧ mark ∉ part) (h' : ∀ part ∈ parts', part ≠ [] ∧ mark ∉ part)
    (heq : [mark].intercalate parts = [mark].intercalate parts') : parts = parts' := by
  have hnil : ∀ {part : List α} {rest : List (List α)}, part ≠ [] →
      [mark].intercalate (part :: rest) ≠ [] := by
    intro part rest hpart hempty
    cases rest with
    | nil => exact hpart (by rwa [List.intercalate_singleton] at hempty)
    | cons next rest =>
      rw [intercalate_cons (List.cons_ne_nil next rest)] at hempty
      exact absurd hempty (by simp)
  induction parts generalizing parts' with
  | nil =>
    cases parts' with
    | nil => rfl
    | cons part' rest' => exact absurd heq.symm (hnil (h' part' List.mem_cons_self).1)
  | cons part rest ih =>
    cases parts' with
    | nil => exact absurd heq (hnil (h part List.mem_cons_self).1)
    | cons part' rest' =>
      rw [List.forall_mem_cons] at h h'
      -- where one text has no mark the other has none
      by_cases hrest : rest = [] <;> by_cases hrest' : rest' = []
      · subst hrest hrest'
        rw [List.intercalate_singleton, List.intercalate_singleton] at heq
        rw [heq]
      · subst hrest
        rw [List.intercalate_singleton, intercalate_cons hrest'] at heq
        exact absurd (heq ▸ List.mem_append_right part' List.mem_cons_self) h.1.2
      · subst hrest'
        rw [List.intercalate_singleton, intercalate_cons hrest] at heq
        exact absurd (heq ▸ List.mem_append_right part List.mem_cons_self) h'.1.2
      · rw [intercalate_cons hrest, intercalate_cons hrest'] at heq
        obtain ⟨rfl, htail⟩ := append_mark_inj h.1.2 h'.1.2 heq
        rw [ih h.2 h'.2 htail]

end Factbase
