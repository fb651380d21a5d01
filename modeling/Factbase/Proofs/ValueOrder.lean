import Mathlib.Data.List.Forall2
import Factbase.Engine

/-! # The sort order of values

A value is read as a number, as an instant or as neither before it is compared, and may be written
in many ways. Its sort key is what counts, and keys are compared in a total preorder: so are values
(`Atom.order`), and so are the keys of rows in either direction, with nulls last
(`Find.Direction.order_eq`).

What a filter finds less by number sorts before (`Atom.order_of_lt`), and sorting the same values
from another order gives equal ones place by place (`forall₂_mergeSort_of_perm`). -/

namespace Factbase

/-! ## Sorting in a total preorder -/

section Sorting

variable {α : Type} {order : α → α → Ordering} [Std.TransCmp order]

/-- What is not greater is less or equal. -/
theorem bne_gt_eq_isLE (o : Ordering) : (o != .gt) = o.isLE := by
  cases o <;> rfl

variable (order) in
/-- Not to be greater is transitive. -/
theorem bne_gt_trans (a b c : α) (hab : (order a b != .gt) = true)
    (hbc : (order b c != .gt) = true) : (order a c != .gt) = true := by
  rw [bne_gt_eq_isLE] at *
  exact Std.TransCmp.isLE_trans hab hbc

variable (order) in
/-- Of two elements one is not greater than the other. -/
theorem bne_gt_total (a b : α) : ((order a b != .gt) || (order b a != .gt)) = true := by
  have hswap : order b a = (order a b).swap := Std.OrientedCmp.eq_swap
  rw [hswap]
  cases order a b <;> rfl

/-- Elements are equal in an order if and only if they compare alike with everything. -/
theorem order_eq_order_iff {a b : α} : order a = order b ↔ order a b = .eq := by
  constructor
  · intro h
    rw [h]
    exact Std.ReflCmp.compare_self
  · intro h
    funext c
    exact Std.TransCmp.congr_left h

/-- Whether comparisons with everything are those of elements of which the second is not less. -/
def ComparesBelow (order : α → α → Ordering) (f g : α → Ordering) : Prop :=
  ∃ a b, order a = f ∧ order b = g ∧ (order a b).isLE

/-- Elements that are not less than each other compare alike with everything. -/
theorem ComparesBelow.antisymm {f g : α → Ordering} (h : ComparesBelow order f g)
    (h' : ComparesBelow order g f) : f = g := by
  obtain ⟨a, b, rfl, rfl, hab⟩ := h
  obtain ⟨b', a', hb, ha, hba⟩ := h'
  refine order_eq_order_iff.2 (Std.OrientedCmp.isLE_antisymm hab ?_)
  have hcongr : order b' a' = order b a := by
    rw [hb]
    exact Std.TransCmp.congr_right (order_eq_order_iff.1 ha)
  rwa [hcongr] at hba

/-- However the elements of a list are arranged, sorting it gives elements that are equal in the
order, place by place. -/
theorem forall₂_mergeSort_of_perm {as bs : List α} (h : as.Perm bs) :
    List.Forall₂ (fun a b => order a b = .eq)
      (as.mergeSort fun a b => order a b != .gt) (bs.mergeSort fun a b => order a b != .gt) := by
  -- as comparisons with everything, elements that are equal in the order are the same
  have hsorted : ∀ cs : List α,
      ((cs.mergeSort fun a b => order a b != .gt).map order).Pairwise (ComparesBelow order) := by
    intro cs
    have hpairwise := List.pairwise_mergeSort (bne_gt_trans order) (bne_gt_total order) cs
    refine List.pairwise_map.2 (hpairwise.imp fun {a b} hab => ⟨a, b, rfl, rfl, ?_⟩)
    rwa [bne_gt_eq_isLE] at hab
  have hperm : (as.mergeSort fun a b => order a b != .gt).Perm
      (bs.mergeSort fun a b => order a b != .gt) :=
    (List.mergeSort_perm as _).trans (h.trans (List.mergeSort_perm bs _).symm)
  have hmap := List.Perm.eq_of_pairwise (fun _ _ _ _ => ComparesBelow.antisymm) (hsorted as)
    (hsorted bs) (hperm.map order)
  rw [← List.forall₂_eq_eq_eq, List.forall₂_map_left_iff, List.forall₂_map_right_iff] at hmap
  exact hmap.imp fun _ _ => order_eq_order_iff.1

end Sorting

/-! ## Keys and values -/

instance : Std.TransCmp Timestamp.order :=
  inferInstanceAs (Std.TransCmp (compareLex (compareOn Timestamp.day)
    (compareLex (compareOn Timestamp.second) (compareOn Timestamp.nano))))

namespace Number

instance : Std.TransCmp totalOrder :=
  inferInstanceAs (Std.TransCmp (compareOn totalRank))

/-- The total order extends `<`. -/
theorem totalOrder_of_less {x y : Float} (h : less x y = true) : totalOrder x y = .lt := by
  simp only [less, Bool.and_eq_true, decide_eq_true_eq] at h
  have hrank : rank x < rank y := h.2
  refine Std.compare_eq_lt.2 ?_
  -- the places of negative numbers are one lower, those of the others stay
  unfold rank at hrank
  unfold totalRank
  split_ifs at hrank ⊢ <;> omega

end Number

namespace SortKey

/-- Sort keys of one class are compared by value, others by their classes. -/
instance : Std.TransCmp SortKey.order where
  eq_swap {a b} := by
    cases a <;> cases b <;> simp only [SortKey.order, SortKey.classRank]
    all_goals exact Std.OrientedCmp.eq_swap
  isLE_trans {a b c} hab hbc := by
    cases a <;> cases b <;> cases c <;> simp only [SortKey.order, SortKey.classRank] at *
    all_goals first | exact Std.TransCmp.isLE_trans hab hbc | contradiction | rfl

/-- Classes do not interleave. -/
theorem order_of_classRank_lt {k l : SortKey} (h : k.classRank < l.classRank) :
    k.order l = .lt := by
  cases k <;> cases l <;> first | rfl | simp [classRank] at h

end SortKey

namespace Atom

instance : Std.TransCmp Atom.order where
  eq_swap {a b} := by
    unfold Atom.order
    exact Std.OrientedCmp.eq_swap
  isLE_trans hab hbc := by
    unfold Atom.order at *
    exact Std.TransCmp.isLE_trans hab hbc

/-- A value that holds a number sorts by it. -/
theorem sortKey_of_number? {a : Atom} {x : Float} (h : a.number? = some x) :
    a.sortKey = .number x := by
  cases a with
  | number y =>
    simp only [number?] at h
    split at h
    · rw [sortKey, Option.some.inj h]
    · simp at h
  | text s => simp only [sortKey, h]
  | null => simp [number?] at h
  | bool b => simp [number?] at h
  | timestamp t => simp [number?] at h

/-- What is less by number sorts before. -/
theorem order_of_lt {a b : Atom} (h : Comparison.lt.holds a b = true) : a.order b = .lt := by
  simp only [Comparison.holds, compareNumbers] at h
  split at h
  · next x y hx hy =>
    rw [order, sortKey_of_number? hx, sortKey_of_number? hy]
    exact Number.totalOrder_of_less h
  · simp at h

end Atom

namespace Find

/-- Values are compared by whether they are null, whatever the direction, and then in it. -/
theorem Direction.order_eq (d : Direction) :
    d.order = compareLex (compareOn fun a => a.isNull.toNat)
      (match d with | .asc => Atom.order | .desc => fun a b => b.order a) := by
  funext a b
  simp only [order, compareLex, compareOn]
  cases ha : a.isNull <;> cases hb : b.isNull
  · cases d <;> rfl
  · rfl
  · rfl
  · have hself : Atom.order .null .null = .eq := rfl
    cases a <;> simp only [Atom.isNull, Bool.false_eq_true] at ha
    cases b <;> simp only [Atom.isNull, Bool.false_eq_true] at hb
    cases d <;> exact hself.symm

instance (d : Direction) : Std.TransCmp d.order := by
  rw [Direction.order_eq]
  cases d with
  | asc => infer_instance
  | desc =>
    have : Std.TransCmp fun a b : Atom => b.order a := Std.TransCmp.opposite
    infer_instance

/-- Nulls come after everything else. -/
theorem Direction.order_null (d : Direction) {a : Atom} (h : a ≠ .null) :
    d.order a .null = .lt := by
  cases a <;> first | rfl | exact absurd rfl h

end Find

namespace Atom

/-- Values are compared in a total preorder, in which classes do not interleave and what is less by
number comes before; so however values are arranged, sorting them gives equal ones place by place.
The sort keys of rows are compared in a total preorder in either direction, and nulls come after
everything else. -/
theorem order_totalPreorder :
    (∀ a b : Atom, b.order a = (a.order b).swap) ∧
    (∀ a b c : Atom, (a.order b).isLE → (b.order c).isLE → (a.order c).isLE) ∧
    (∀ a b : Atom, a.sortKey.classRank < b.sortKey.classRank → a.order b = .lt) ∧
    (∀ a b : Atom, Comparison.lt.holds a b = true → a.order b = .lt) ∧
    (∀ as bs : List Atom, as.Perm bs →
      List.Forall₂ (fun a b => a.order b = .eq) (sort as) (sort bs)) ∧
    ∀ d : Find.Direction,
      (∀ a b : Atom, d.order b a = (d.order a b).swap) ∧
      (∀ a b c : Atom, (d.order a b).isLE → (d.order b c).isLE → (d.order a c).isLE) ∧
      ∀ a : Atom, a ≠ .null → d.order a .null = .lt :=
  ⟨fun _ _ => Std.OrientedCmp.eq_swap, fun _ _ _ => Std.TransCmp.isLE_trans,
    fun _ _ => SortKey.order_of_classRank_lt, fun _ _ => order_of_lt,
    fun _ _ => forall₂_mergeSort_of_perm,
    fun d => ⟨fun _ _ => Std.OrientedCmp.eq_swap, fun _ _ _ => Std.TransCmp.isLE_trans,
      fun _ => d.order_null⟩⟩

/-- Numerals sort by their numbers and before NaN, which sorts before a date. In descending order a
date comes before them, and null after them. -/
theorem order_totalPreorder_numerals :
    (Comparison.lt.holds (.text " 2.50 ") (.text "1e1") = true ∧
      order (.text " 2.50 ") (.text "1e1") = .lt) ∧
    ((order (.text "1e1") (.number Number.nan)).isLE ∧
      (order (.text " 2.50 ") (.number Number.nan)).isLE) ∧
    ((sortKey (.number Number.nan)).classRank < (sortKey (.text "2024-03-01")).classRank ∧
      order (.number Number.nan) (.text "2024-03-01") = .lt) ∧
    (List.Perm [text "1e1", null, number 10] [number 10, null, text "1e1"] ∧
      List.Forall₂ (fun a b => a.order b = .eq) (sort [text "1e1", null, number 10])
        (sort [number 10, null, text "1e1"])) ∧
    ((Find.Direction.desc.order (.text "2024-03-01") (.text "1e1")).isLE ∧
      (Find.Direction.desc.order (.text "1e1") (.text " 2.50 ")).isLE ∧
      (Find.Direction.desc.order (.text "2024-03-01") (.text " 2.50 ")).isLE) ∧
    (Atom.text "1e1" ≠ .null ∧ Find.Direction.desc.order (.text "1e1") .null = .lt) := by
  obtain ⟨-, htrans, hclass, hlt, hsort, hrows⟩ := order_totalPreorder
  obtain ⟨-, hdesc, hnull⟩ := hrows .desc
  have hless : Comparison.lt.holds (.text " 2.50 ") (.text "1e1") = true := by decide
  have hfirst := hlt _ _ hless
  have hlast : (order (.text "1e1") (.number Number.nan)).isLE := by decide
  have hrank : (sortKey (.number Number.nan)).classRank <
      (sortKey (.text "2024-03-01")).classRank := by decide
  have hperm : List.Perm [text "1e1", null, number 10] [number 10, null, text "1e1"] := by decide
  have hdate : (Find.Direction.desc.order (.text "2024-03-01") (.text "1e1")).isLE := by decide
  have hnumeral : (Find.Direction.desc.order (.text "1e1") (.text " 2.50 ")).isLE := by decide
  exact ⟨⟨hless, hfirst⟩, ⟨hlast, htrans _ _ _ (by rw [hfirst]; rfl) hlast⟩,
    ⟨hrank, hclass _ _ hrank⟩, ⟨hperm, hsort _ _ hperm⟩,
    ⟨hdate, hnumeral, hdesc _ _ _ hdate hnumeral⟩, ⟨by decide, hnull _ (by decide)⟩⟩

end Atom

end Factbase
