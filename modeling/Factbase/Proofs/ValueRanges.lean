import Factbase.Proofs.CatalogEntries
import Factbase.Proofs.DateTexts
import Factbase.Proofs.ValueOrder

/-! # The range of an attribute

The least and the greatest value that the catalog names of an attribute of numbers or dates are
values of that type. They bound all of them in the sort order, where a number that is not finite
counts as zero (`Atom.counted`): so they are the bounds of the values themselves as long as all
numbers are finite (`CatalogEntry.bounds_ofValues`), and need not be otherwise
(`CatalogEntry.not_bounds_ofValues`). -/

namespace Factbase

/-! ## Least and greatest elements -/

section Lists

variable {α : Type}

variable {order : α → α → Ordering} [Std.TransCmp order] {as : List α} {a b : α}

/-- What is not less is greater or equal. -/
theorem isLE_of_not_lt (h : ¬ (order b a == .lt) = true) : (order a b).isLE := by
  have hswap : order a b = (order b a).swap := Std.OrientedCmp.eq_swap
  rw [hswap]
  cases hba : order b a with
  | lt => exact absurd (beq_iff_eq.2 hba) h
  | eq => rfl
  | gt => rfl

variable (order) in
/-- A list that is not empty has a least element. -/
theorem exists_leastBy? (hne : as ≠ []) :
    ∃ m ∈ as, leastBy? order as = some m ∧ ∀ a ∈ as, (order m a).isLE := by
  obtain ⟨a, rest, rfl⟩ := List.exists_cons_of_ne_nil hne
  have hpick : ∀ m b, ((if order b m == .lt then b else m) = m ∨
      (if order b m == .lt then b else m) = b) ∧
      (order (if order b m == .lt then b else m) m).isLE ∧
      (order (if order b m == .lt then b else m) b).isLE := by
    intro m b
    split
    · next hlt => exact ⟨.inr rfl, Ordering.isLE_of_eq_lt (beq_iff_eq.1 hlt), Std.ReflCmp.isLE_rfl⟩
    · next hge => exact ⟨.inl rfl, Std.ReflCmp.isLE_rfl, isLE_of_not_lt hge⟩
  obtain ⟨hmem, hle⟩ := rel_foldl_of_pick (fun a b => (order a b).isLE) _
    (fun _ => Std.ReflCmp.isLE_rfl) (fun _ _ _ => Std.TransCmp.isLE_trans) hpick a rest
  exact ⟨_, hmem, rfl, hle⟩

variable (order) in
/-- A list that is not empty has a greatest element. -/
theorem exists_greatestBy? (hne : as ≠ []) :
    ∃ m ∈ as, greatestBy? order as = some m ∧ ∀ a ∈ as, (order a m).isLE := by
  obtain ⟨a, rest, rfl⟩ := List.exists_cons_of_ne_nil hne
  have hpick : ∀ m b, ((if order b m == .lt then m else b) = m ∨
      (if order b m == .lt then m else b) = b) ∧
      (order m (if order b m == .lt then m else b)).isLE ∧
      (order b (if order b m == .lt then m else b)).isLE := by
    intro m b
    split
    · next hlt => exact ⟨.inl rfl, Std.ReflCmp.isLE_rfl, Ordering.isLE_of_eq_lt (beq_iff_eq.1 hlt)⟩
    · next hge => exact ⟨.inr rfl, isLE_of_not_lt hge, Std.ReflCmp.isLE_rfl⟩
  obtain ⟨hmem, hle⟩ := rel_foldl_of_pick (fun a b => (order b a).isLE) _
    (fun _ => Std.ReflCmp.isLE_rfl) (fun _ _ _ hab hbc => Std.TransCmp.isLE_trans hbc hab) hpick a
    rest
  exact ⟨_, hmem, rfl, hle⟩

end Lists

/-! ## The orders of numbers and dates -/

/-- The value as it counts in the range of an attribute: a number that is not finite is zero. -/
def Atom.counted : Atom → Atom
  | .number x => .number (if Number.isFinite x then x else 0)
  | a => a

theorem Atom.counted_of_isFinite {x : Float} (hx : Number.isFinite x = true) :
    counted (.number x) = .number x := by
  rw [counted, if_pos hx]

namespace CatalogEntry

variable {v u : Atom} {values : List Atom} {kind : ValueType}

instance : Std.TransCmp numberOrder :=
  inferInstanceAs (Std.TransCmp (compareOn fun a : Atom => Number.totalRank (a.number?.getD 0)))

/-- What holds no instant comes before what holds one. -/
instance : Std.TransCmp dateOrder where
  eq_swap {a b} := by
    have hswap : ∀ s t : Timestamp, s.order t = (t.order s).swap :=
      fun _ _ => Std.OrientedCmp.eq_swap
    unfold dateOrder
    cases a.instant? <;> cases b.instant? <;> first | rfl | exact hswap _ _
  isLE_trans {a b c} hab hbc := by
    have htrans : ∀ s t u : Timestamp, (s.order t).isLE → (t.order u).isLE → (s.order u).isLE :=
      fun _ _ _ => Std.TransCmp.isLE_trans
    unfold dateOrder at *
    cases ha : a.instant? <;> cases hb : b.instant? <;> cases hc : c.instant? <;>
      simp only [ha, hb, hc] at hab hbc ⊢
    all_goals first | rfl | contradiction | exact htrans _ _ _ hab hbc

theorem exists_eq_number (h : ValueType.ofAtom? v = some .number) : ∃ x, v = .number x := by
  cases v with
  | number x => exact ⟨x, rfl⟩
  | text s =>
    simp only [ValueType.ofAtom?] at h
    split at h <;> simp at h
  | _ => simp [ValueType.ofAtom?] at h

/-- What votes for dates holds an instant and sorts by it: as a text it is no numeral. -/
theorem exists_instant?_eq (h : ValueType.ofAtom? v = some .date) :
    ∃ t, v.instant? = some t ∧ v.counted.sortKey = .instant t := by
  cases v with
  | timestamp t => exact ⟨t, rfl, rfl⟩
  | text s =>
    simp only [ValueType.ofAtom?] at h
    split at h
    · next hdate =>
      obtain ⟨t, ht⟩ := Option.isSome_iff_exists.1 hdate
      refine ⟨t, ht, ?_⟩
      simp only [Atom.counted, Atom.sortKey, Atom.number?_of_parse? ht]
      rw [Atom.instant?, ht]
    · simp at h
  | _ => simp [ValueType.ofAtom?] at h

/-- Numbers are compared as they sort when they are counted. -/
theorem numberOrder_eq (hv : ValueType.ofAtom? v = some .number)
    (hu : ValueType.ofAtom? u = some .number) : numberOrder v u = v.counted.order u.counted := by
  obtain ⟨x, rfl⟩ := exists_eq_number hv
  obtain ⟨y, rfl⟩ := exists_eq_number hu
  have hcounted : ∀ z : Float, (Atom.number z).number?.getD 0 =
      if Number.isFinite z then z else 0 := by
    intro z
    rw [Atom.number?]
    split <;> rfl
  rw [numberOrder, hcounted, hcounted]
  rfl

/-- Dates are compared as they sort. -/
theorem dateOrder_eq (hv : ValueType.ofAtom? v = some .date)
    (hu : ValueType.ofAtom? u = some .date) : dateOrder v u = v.counted.order u.counted := by
  obtain ⟨s, hs, hkey⟩ := exists_instant?_eq hv
  obtain ⟨t, ht, hkey'⟩ := exists_instant?_eq hu
  rw [Atom.order, hkey, hkey', dateOrder, hs, ht]
  rfl

/-! ## Bounds -/

/-- The values that vote for a type. -/
def voters (kind : ValueType) (values : List Atom) : List Atom :=
  values.filter fun v => ValueType.ofAtom? v == some kind

theorem mem_voters : v ∈ voters kind values ↔ v ∈ values ∧ ValueType.ofAtom? v = some kind := by
  rw [voters, List.mem_filter, beq_iff_eq]

/-- Whether two values bound those that vote for a type, when they are counted. -/
structure Bound (kind : ValueType) (values : List Atom) (low high : Atom) : Prop where
  low_mem : low ∈ voters kind values
  high_mem : high ∈ voters kind values
  low_le : ∀ v ∈ voters kind values, (low.counted.order v.counted).isLE
  le_high : ∀ v ∈ voters kind values, (v.counted.order high.counted).isLE

/-- The extremes of numbers and of dates bound them. -/
theorem exists_extremes_eq (hkind : kind = .number ∨ kind = .date)
    (hne : voters kind values ≠ []) :
    ∃ low high, extremes kind values = (some low, some high) ∧ Bound kind values low high := by
  -- the order in which the extremes are taken is that of the values as counted
  have hbound : ∀ (order : Atom → Atom → Ordering) [Std.TransCmp order],
      (∀ {v u}, ValueType.ofAtom? v = some kind → ValueType.ofAtom? u = some kind →
        order v u = v.counted.order u.counted) →
      ∃ low high, leastBy? order (voters kind values) = some low ∧
        greatestBy? order (voters kind values) = some high ∧ Bound kind values low high := by
    intro order _ heq
    obtain ⟨low, hlow, hleast, hle⟩ := exists_leastBy? order hne
    obtain ⟨high, hhigh, hgreatest, hge⟩ := exists_greatestBy? order hne
    refine ⟨low, high, hleast, hgreatest, hlow, hhigh, fun v hv => ?_, fun v hv => ?_⟩
    · rw [← heq (mem_voters.1 hlow).2 (mem_voters.1 hv).2]
      exact hle v hv
    · rw [← heq (mem_voters.1 hv).2 (mem_voters.1 hhigh).2]
      exact hge v hv
  rcases hkind with rfl | rfl
  · obtain ⟨low, high, hleast, hgreatest, h⟩ := hbound numberOrder numberOrder_eq
    exact ⟨low, high, Prod.ext hleast hgreatest, h⟩
  · obtain ⟨low, high, hleast, hgreatest, h⟩ := hbound dateOrder dateOrder_eq
    exact ⟨low, high, Prod.ext hleast hgreatest, h⟩

/-- A type that is named has a value that votes for it. -/
theorem voters_ne_nil {limits : CatalogLimits} {attr : String} (hkind : kind ≠ .mixed)
    (h : (ofValues limits attr values).valueType = kind) : voters kind values ≠ [] := by
  have hsurvey := Survey.summarizes_ofValues limits values
  have htype : (Survey.ofValues limits values).tally.majority
      (Survey.ofValues limits values).tally.total = kind := by
    rw [hsurvey.total]
    exact h
  rcases (Tally.majority_eq_iff _ _).1 htype with hmost | ⟨hmixed, -⟩
  · rw [hsurvey.votes, ValueType.votesFor, List.countP_eq_length_filter] at hmost
    exact List.ne_nil_of_length_pos (by rw [voters]; omega)
  · exact absurd hmixed hkind

/-- When the type of an attribute is number or date, its least and its greatest value are values of
that type. They bound all of them, where a number that is not finite counts as zero; so they bound
dates as they are, and numbers when all of them are finite. -/
theorem bounds_ofValues (limits : CatalogLimits) (attr : String) (values : List Atom)
    (kind : ValueType) (hkind : kind = .number ∨ kind = .date)
    (htype : (ofValues limits attr values).valueType = kind) :
    ∃ low high, (ofValues limits attr values).least = some low ∧
      (ofValues limits attr values).greatest = some high ∧
      (low ∈ values ∧ ValueType.ofAtom? low = some kind) ∧
      (high ∈ values ∧ ValueType.ofAtom? high = some kind) ∧
      (∀ v ∈ values, ValueType.ofAtom? v = some kind →
        (low.counted.order v.counted).isLE ∧ (v.counted.order high.counted).isLE) ∧
      ((kind = .date ∨ ∀ x, Atom.number x ∈ values → Number.isFinite x = true) →
        ∀ v ∈ values, ValueType.ofAtom? v = some kind →
          (low.order v).isLE ∧ (v.order high).isLE) := by
  have hmixed : kind ≠ .mixed := by rcases hkind with rfl | rfl <;> decide
  obtain ⟨low, high, hextremes, h⟩ := exists_extremes_eq hkind (voters_ne_nil hmixed htype)
  have hrange : extremes (ofValues limits attr values).valueType values =
      (some low, some high) := by
    rw [htype]
    exact hextremes
  have hcounted : ∀ v ∈ values, ValueType.ofAtom? v = some kind →
      (low.counted.order v.counted).isLE ∧ (v.counted.order high.counted).isLE :=
    fun v hv hvote =>
      have hvoter := mem_voters.2 ⟨hv, hvote⟩
      ⟨h.low_le v hvoter, h.le_high v hvoter⟩
  refine ⟨low, high, congrArg Prod.fst hrange, congrArg Prod.snd hrange, mem_voters.1 h.low_mem,
    mem_voters.1 h.high_mem, hcounted, fun hfinite => ?_⟩
  -- only a number that is not finite counts as another value
  have hself : ∀ v ∈ values, ValueType.ofAtom? v = some kind → v.counted = v := by
    intro v hv hvote
    cases v with
    | number x =>
      rcases hfinite with rfl | hfinite
      · simp [ValueType.ofAtom?] at hvote
      · exact Atom.counted_of_isFinite (hfinite x hv)
    | _ => rfl
  intro v hv hvote
  obtain ⟨hlow, hlowvote⟩ := mem_voters.1 h.low_mem
  obtain ⟨hhigh, hhighvote⟩ := mem_voters.1 h.high_mem
  have hle := hcounted v hv hvote
  rwa [hself low hlow hlowvote, hself high hhigh hhighvote, hself v hv hvote] at hle

/-- Three finite numbers and a text lie between bounds that are numbers of the list, and so do two
days and a text that is none. -/
theorem bounds_ofValues_figures :
    ((ofValues .default "karma"
        [.number 10, .number (-3), .text "many", .number 7]).valueType = .number ∧
      (∀ x, Atom.number x ∈ [Atom.number 10, .number (-3), .text "many", .number 7] →
        Number.isFinite x = true) ∧
      ∃ low high,
        (ofValues .default "karma"
          [.number 10, .number (-3), .text "many", .number 7]).least = some low ∧
        (ofValues .default "karma"
          [.number 10, .number (-3), .text "many", .number 7]).greatest = some high ∧
        (low.order (.number (-3))).isLE ∧ (Atom.order (.number 10) high).isLE) ∧
    ((ofValues .default "day"
        [.text "2024-01-02", .text "2023-05-06", .text "whenever"]).valueType = .date ∧
      ∃ low high,
        (ofValues .default "day"
          [.text "2024-01-02", .text "2023-05-06", .text "whenever"]).least = some low ∧
        (ofValues .default "day"
          [.text "2024-01-02", .text "2023-05-06", .text "whenever"]).greatest = some high ∧
        (low.order (.text "2023-05-06")).isLE ∧ (Atom.order (.text "2024-01-02") high).isLE) := by
  have hnumber : (ofValues .default "karma"
      [.number 10, .number (-3), .text "many", .number 7]).valueType = .number := by decide
  have hfinite : ∀ x, Atom.number x ∈ [Atom.number 10, .number (-3), .text "many", .number 7] →
      Number.isFinite x = true := by
    intro x hx
    simp only [List.mem_cons, Atom.number.injEq, reduceCtorEq, List.not_mem_nil, or_false,
      false_or] at hx
    rcases hx with rfl | rfl | rfl <;> decide
  have hdate : (ofValues .default "day"
      [.text "2024-01-02", .text "2023-05-06", .text "whenever"]).valueType = .date := by decide
  obtain ⟨low, high, hleast, hgreatest, -, -, -, hbounds⟩ :=
    bounds_ofValues .default "karma" _ .number (.inl rfl) hnumber
  obtain ⟨first, last, hfirst, hlast, -, -, -, hdays⟩ :=
    bounds_ofValues .default "day" _ .date (.inr rfl) hdate
  exact ⟨⟨hnumber, hfinite, low, high, hleast, hgreatest,
      (hbounds (.inr hfinite) (.number (-3)) (by simp) rfl).1,
      (hbounds (.inr hfinite) (.number 10) (by simp) rfl).2⟩,
    hdate, first, last, hfirst, hlast,
    (hdays (.inl rfl) (.text "2023-05-06") (by simp) (by decide)).1,
    (hdays (.inl rfl) (.text "2024-01-02") (by simp) (by decide)).2⟩

/-- Infinity counts as zero among the values of an attribute: it is the least of infinity and one,
although it sorts after one. -/
theorem not_bounds_ofValues :
    ¬ ∀ (limits : CatalogLimits) (attr : String) (values : List Atom),
      (ofValues limits attr values).valueType = .number →
      ∃ low high, (ofValues limits attr values).least = some low ∧
        (ofValues limits attr values).greatest = some high ∧
        ∀ v ∈ values, ValueType.ofAtom? v = some .number →
          (low.order v).isLE ∧ (v.order high).isLE := by
  intro h
  obtain ⟨low, high, hlow, -, hbounds⟩ :=
    h .default "n" [.number Number.infinity, .number 1] (by decide)
  have hleast : (ofValues .default "n" [.number Number.infinity, .number 1]).least =
      some (.number Number.infinity) := by decide
  obtain rfl := Option.some.inj (hleast.symm.trans hlow)
  exact absurd (hbounds (.number 1) (by simp) rfl).1 (by decide)

end CatalogEntry

end Factbase
