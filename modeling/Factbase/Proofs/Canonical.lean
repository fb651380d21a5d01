import Factbase.Filter
import Factbase.Proofs.NumberText
import Factbase.Proofs.Separators
import Factbase.Proofs.TimestampText

/-! # Canonical texts of values

Values with the same canonical text are the same, or numbers that are written alike
(`Atom.eq_or_of_canonical_eq`): they are equal or both NaN (`Atom.canonical_eq_iff`). A comparison
goes by the place of a number in the numeric order, or by the canonical text of a value that holds
none (`Atom.holds_eq`), so no filter tells values apart that are written alike
(`Filter.holdsOf_congr`). A key of a tuple gives back the canonical texts of its columns unless a
text in it holds the separator (`canonical_of_tupleKey_eq`). -/

namespace Factbase

/-- What a value is compared by. -/
inductive Comparand where
  /-- The place in the numeric order of the number that the value holds. -/
  | rank (place : Int)
  /-- The canonical text of a value that holds no number. -/
  | text (canonical : String)
deriving DecidableEq

/-- Whether a comparison holds between comparands. Those by size hold between numbers only. -/
def Comparison.holdsBetween : Comparison → Comparand → Comparand → Bool
  | .eq, s, t => s == t
  | .neq, s, t => s != t
  | .gt, .rank m, .rank n => n < m
  | .lt, .rank m, .rank n => m < n
  | .gte, .rank m, .rank n => n ≤ m
  | .lte, .rank m, .rank n => m ≤ n
  | _, _, _ => false

namespace Atom

/-- The mark of the type in front of a canonical text. -/
theorem toList_canonical (a : Atom) :
    a.canonical.toList = match a with
      | .null => ['n', 'u', 'l', 'l']
      | .bool b => 'b' :: ':' :: (if b then "true" else "false").toList
      | .number x => 'n' :: ':' :: (Number.shortText x).toList
      | .timestamp t => 't' :: ':' :: t.rfc3339.toList
      | .text s => 's' :: ':' :: s.toList := by
  cases a <;> simp only [canonical, String.toList_append] <;> rfl

/-- Values with the same canonical text are the same, or numbers that are written alike. -/
theorem eq_or_of_canonical_eq {a b : Atom} (h : a.canonical = b.canonical) :
    a = b ∨ ∃ x y, a = .number x ∧ b = .number y ∧ Number.shortText x = Number.shortText y := by
  have hchars := congrArg String.toList h
  rw [toList_canonical, toList_canonical] at hchars
  -- the marks in front differ for values of different types
  cases a <;> cases b <;> simp only [List.cons.injEq, false_and, true_and,
    and_false, Char.reduceEq, String.toList_inj] at hchars
  case null.null => exact .inl rfl
  case bool.bool b c =>
    left
    cases b <;> cases c <;> first | rfl | exact absurd hchars (by decide)
  case number.number x y => exact .inr ⟨x, y, rfl, rfl, hchars⟩
  case timestamp.timestamp s t => exact .inl (congrArg _ (Timestamp.rfc3339_injective hchars))
  case text.text s t => exact .inl (congrArg _ hchars)

/-- Whether the value is NaN, which equals nothing. -/
def isNaN : Atom → Bool
  | .number x => Number.isNaN x
  | _ => false

/-- Every value other than NaN equals itself. -/
theorem equals_self (a : Atom) : a.equals a = true ∨ a.isNaN = true := by
  cases a with
  | number x => exact (Number.shortText_eq_iff.1 rfl).imp_right And.left
  | _ => exact .inl (by simp [equals])

/-- Values have one canonical text if and only if they are equal or both NaN. -/
theorem canonical_eq_iff {a b : Atom} :
    a.canonical = b.canonical ↔ a.equals b = true ∨ a.isNaN = true ∧ b.isNaN = true := by
  constructor
  · intro h
    rcases eq_or_of_canonical_eq h with rfl | ⟨x, y, rfl, rfl, htext⟩
    · exact a.equals_self.imp_right fun hnan => ⟨hnan, hnan⟩
    · exact Number.shortText_eq_iff.1 htext
  · intro h
    -- values of different types are neither equal nor both NaN
    cases a <;> cases b <;>
      simp only [equals, isNaN, Bool.false_eq_true, false_and, and_false, or_false, or_self] at h
    case null.null => rfl
    case bool.bool b c => rw [eq_of_beq h]
    case number.number x y => exact congrArg ("n:" ++ ·) (Number.shortText_eq_iff.2 h)
    case timestamp.timestamp s t => rw [eq_of_beq h]
    case text.text s t => rw [eq_of_beq h]

/-- The canonical text keeps apart what differs, in all types of values, and nothing else: values
have one canonical text if and only if they are equal or both NaN. So dropping repeated canonical
texts leaves the first of the values that are equal, and one NaN. -/
theorem faithful_canonical :
    (∀ a b : Atom, a.canonical = b.canonical ↔ a.equals b = true ∨ a.isNaN = true ∧ b.isNaN = true) ∧
    ∀ as : List Atom, distinctBy canonical as =
      as.eraseDupsBy fun a b => a.equals b || a.isNaN && b.isNaN := by
  refine ⟨fun a b => canonical_eq_iff, fun as => ?_⟩
  have hsame : (fun a b : Atom => a.canonical == b.canonical) =
      fun a b => a.equals b || a.isNaN && b.isNaN := by
    funext a b
    rw [Bool.eq_iff_iff, beq_iff_eq, canonical_eq_iff, Bool.or_eq_true, Bool.and_eq_true]
  rw [distinctBy_eq_eraseDupsBy, hsame]

section Congruence

variable {a b a' b' : Atom}

/-- The place in the numeric order of the number that a value holds. -/
def rank? (a : Atom) : Option Int := a.number?.map Number.rank

/-- Only finite numbers are held. -/
theorem isFinite_of_number? {x : Float} (h : a.number? = some x) : Number.isFinite x = true := by
  cases a with
  | number y =>
    simp only [number?] at h
    split at h
    · next hfinite =>
      rw [← Option.some.inj h]
      exact hfinite
    · simp at h
  | text s =>
    simp only [number?] at h
    exact (Option.filter_eq_some_iff.1 h).2
  | null => simp [number?] at h
  | bool b => simp [number?] at h
  | timestamp t => simp [number?] at h

/-- NaN is not held. -/
theorem isNaN_of_number? {x : Float} (h : a.number? = some x) : Number.isNaN x = false :=
  Number.isNaN_of_isFinite (isFinite_of_number? h)

/-- Values that are written alike hold numbers at the same place in the order, or none. -/
theorem rank?_eq (h : a.canonical = b.canonical) : a.rank? = b.rank? := by
  rcases eq_or_of_canonical_eq h with rfl | ⟨x, y, rfl, rfl, htext⟩
  · rfl
  · have hfinite := Number.isFinite_eq_of_shortText_eq htext
    cases hx : Number.isFinite x with
    | false => simp [rank?, number?, ← hfinite, hx]
    | true =>
      have hrank := Number.rank_eq_of_shortText_eq hx (hfinite ▸ hx) htext
      simp [rank?, number?, ← hfinite, hx, hrank]

/-- Equality of values, in terms of places in the order. -/
theorem sameValue_eq :
    a.sameValue b = match a.rank?, b.rank? with
      | some m, some n => m == n
      | _, _ => a.canonical == b.canonical := by
  unfold sameValue rank?
  cases ha : a.number? with
  | none => rfl
  | some x =>
    cases hb : b.number? with
    | none => rfl
    | some y => simp [Number.equals, isNaN_of_number? ha, isNaN_of_number? hb]

/-- What a value is compared by. -/
def comparand (a : Atom) : Comparand :=
  match a.rank? with
  | some place => .rank place
  | none => .text a.canonical

/-- Values that are written alike are compared by the same. -/
theorem comparand_eq (h : a.canonical = b.canonical) : a.comparand = b.comparand := by
  rw [comparand, comparand, rank?_eq h, h]

/-- Values are the same if and only if they are compared by the same. -/
theorem sameValue_iff : a.sameValue b = true ↔ a.comparand = b.comparand := by
  -- a value that holds a number is not written like one that holds none
  have hmixed : a.rank? ≠ b.rank? → a.canonical ≠ b.canonical := fun hne h => hne (rank?_eq h)
  rw [sameValue_eq, comparand, comparand]
  cases ha : a.rank? <;> cases hb : b.rank? <;> simp_all

/-- A comparison by size, in terms of places in the order. -/
theorem compareNumbers_eq {test : Float → Float → Bool} (compareRanks : Int → Int → Bool)
    (h : ∀ x y, Number.isNaN x = false → Number.isNaN y = false →
      test x y = compareRanks (Number.rank x) (Number.rank y)) :
    a.compareNumbers test b = match a.rank?, b.rank? with
      | some m, some n => compareRanks m n
      | _, _ => false := by
  unfold compareNumbers rank?
  cases ha : a.number? with
  | none => rfl
  | some x =>
    cases hb : b.number? with
    | none => rfl
    | some y => exact h x y (isNaN_of_number? ha) (isNaN_of_number? hb)

/-- A range, in terms of places in the order. -/
theorem isBetween_eq {low high : Atom} :
    a.isBetween low high = match a.rank?, low.rank?, high.rank? with
      | some v, some l, some h => decide (l ≤ v) && decide (v ≤ h)
      | _, _, _ => false := by
  unfold isBetween rank?
  cases ha : a.number? with
  | none => rfl
  | some x =>
    cases hl : low.number? with
    | none => rfl
    | some y =>
      cases hh : high.number? with
      | none => rfl
      | some z =>
        simp [Number.lessOrEqual, isNaN_of_number? ha, isNaN_of_number? hl, isNaN_of_number? hh]

/-- Values that are written alike hold the same instant, or none. -/
theorem instant?_eq (h : a.canonical = b.canonical) : a.instant? = b.instant? := by
  rcases eq_or_of_canonical_eq h with rfl | ⟨x, y, rfl, rfl, -⟩ <;> rfl

/-- Values that are written alike hold the same text, or none. -/
theorem text?_eq (h : a.canonical = b.canonical) : a.text? = b.text? := by
  rcases eq_or_of_canonical_eq h with rfl | ⟨x, y, rfl, rfl, -⟩ <;> rfl

/-- Values that are written alike are searched alike. -/
theorem searched?_eq (h : a.canonical = b.canonical) : a.searched? = b.searched? := by
  rcases eq_or_of_canonical_eq h with rfl | ⟨x, y, rfl, rfl, htext⟩
  · rfl
  · exact congrArg some htext

theorem sameValue_congr (ha : a.canonical = a'.canonical) (hb : b.canonical = b'.canonical) :
    a.sameValue b = a'.sameValue b' := by
  rw [sameValue_eq, sameValue_eq, rank?_eq ha, rank?_eq hb, ha, hb]

theorem isMember_congr (ha : a.canonical = a'.canonical) (hb : b.canonical = b'.canonical) :
    a.isMember b = a'.isMember b' := by
  have hvalue : a.sameValue = a'.sameValue := by
    funext c
    exact sameValue_congr ha rfl
  unfold isMember
  rw [hvalue]
  rcases eq_or_of_canonical_eq hb with rfl | ⟨x, y, rfl, rfl, htext⟩
  · rfl
  · simp only [alternatives, List.any_cons, List.any_nil, sameValue_congr rfl hb]

theorem isAfter_congr (ha : a.canonical = a'.canonical) (hb : b.canonical = b'.canonical) :
    a.isAfter b = a'.isAfter b' := by
  rw [isAfter, isAfter, instant?_eq ha, instant?_eq hb]

/-- A comparison goes by what the values are compared by. -/
theorem holds_eq (op : Comparison) (a b : Atom) :
    op.holds a b = op.holdsBetween a.comparand b.comparand := by
  have hless : ∀ x y, Number.isNaN x = false → Number.isNaN y = false →
      Number.less x y = decide (Number.rank x < Number.rank y) := by
    intro x y hx hy
    simp [Number.less, hx, hy]
  have hle : ∀ x y, Number.isNaN x = false → Number.isNaN y = false →
      Number.lessOrEqual x y = decide (Number.rank x ≤ Number.rank y) := by
    intro x y hx hy
    simp [Number.lessOrEqual, hx, hy]
  have hsame : a.sameValue b = (a.comparand == b.comparand) := by
    rw [Bool.eq_iff_iff, sameValue_iff, beq_iff_eq]
  cases op with
  | eq => exact hsame
  | neq => exact congrArg not hsame
  | gt =>
    rw [Comparison.holds,
      compareNumbers_eq (fun m n => decide (n < m)) fun x y hx hy => hless y x hy hx]
    unfold comparand
    cases a.rank? <;> cases b.rank? <;> rfl
  | lt =>
    rw [Comparison.holds, compareNumbers_eq (fun m n => decide (m < n)) hless]
    unfold comparand
    cases a.rank? <;> cases b.rank? <;> rfl
  | gte =>
    rw [Comparison.holds,
      compareNumbers_eq (fun m n => decide (n ≤ m)) fun x y hx hy => hle y x hy hx]
    unfold comparand
    cases a.rank? <;> cases b.rank? <;> rfl
  | lte =>
    rw [Comparison.holds, compareNumbers_eq (fun m n => decide (m ≤ n)) hle]
    unfold comparand
    cases a.rank? <;> cases b.rank? <;> rfl

/-- No comparison tells values apart that are written alike. -/
theorem holds_congr (op : Comparison) (ha : a.canonical = a'.canonical)
    (hb : b.canonical = b'.canonical) : op.holds a b = op.holds a' b' := by
  rw [holds_eq, holds_eq, comparand_eq ha, comparand_eq hb]

end Congruence

end Atom

namespace Filter

/-- No filter tells values apart that are written alike. -/
theorem holdsOf_congr (predicate : Predicate) {values values' : List Atom}
    (h : values.map Atom.canonical = values'.map Atom.canonical) :
    holdsOf predicate values = holdsOf predicate values' := by
  -- filters have two operands or three, and fail on any other number
  rcases values with _ | ⟨a, _ | ⟨b, _ | ⟨c, _ | ⟨d, rest⟩⟩⟩⟩ <;>
    rcases values' with _ | ⟨a', _ | ⟨b', _ | ⟨c', _ | ⟨d', rest'⟩⟩⟩⟩ <;>
    simp only [List.map_cons, List.map_nil, List.cons.injEq, reduceCtorEq, and_false, and_true] at h
  · rfl
  · cases predicate <;> rfl
  · obtain ⟨ha, hb⟩ := h
    cases predicate with
    | compare op => exact congrArg pure (Atom.holds_congr op ha hb)
    | member => exact congrArg pure (Atom.isMember_congr ha hb)
    | after => exact congrArg pure (Atom.isAfter_congr ha hb)
    | regex => rw [holdsOf, holdsOf, regex, regex, Atom.searched?_eq ha, Atom.text?_eq hb]
    | contains =>
      rw [holdsOf, holdsOf, contains, contains, Atom.searched?_eq ha, Atom.text?_eq hb]
    | _ => rfl
  · obtain ⟨ha, hb, hc⟩ := h
    cases predicate with
    | between =>
      rw [holdsOf, holdsOf, Atom.isBetween_eq, Atom.isBetween_eq, Atom.rank?_eq ha,
        Atom.rank?_eq hb, Atom.rank?_eq hc]
    | betweenDate =>
      rw [holdsOf, holdsOf, Atom.isBetweenDates, Atom.isBetweenDates, Atom.instant?_eq ha,
        Atom.instant?_eq hb, Atom.instant?_eq hc]
    | _ => rfl
  · cases predicate <;> rfl

end Filter

/-- The characters that separate the parts of keys. -/
def separators : List Char := [Char.ofNat 0x1E, Char.ofNat 0x1F]

/-- A value that is no text with a character. -/
def Atom.Lacks (c : Char) : Atom → Prop
  | .text s => c ∉ s.toList
  | _ => True

/-- A tuple without texts with a character. -/
def Tuple.Lacks (c : Char) (t : Tuple) : Prop := ∀ a ∈ t, a.Lacks c

/-- Only the characters of a text put a separator into a canonical text. -/
theorem Atom.not_mem_canonical {c : Char} {a : Atom} (hc : c ∈ separators) (h : a.Lacks c) :
    c ∉ a.canonical.toList := by
  have hdigit : c.isDigit = false ∧ c ∉ ['.', '-', 'N', 'a', 'i', 'n', 'f'] ∧
      c ∉ ['-', '+', 'T', ':', '.'] ∧ c ∉ ['n', 'u', 'l', 'l'] ∧
      c ∉ 'b' :: ':' :: "true".toList ∧ c ∉ 'b' :: ':' :: "false".toList ∧
      c ∉ ['n', ':'] ∧ c ∉ ['t', ':'] ∧ c ∉ ['s', ':'] := by
    simp only [separators, List.mem_cons, List.not_mem_nil, or_false] at hc
    rcases hc with rfl | rfl <;> decide
  obtain ⟨hdigit, hnumber, hinstant, hnull, htrue, hfalse, hn, ht, hs⟩ := hdigit
  rw [toList_canonical]
  intro hmem
  cases a with
  | null => exact hnull hmem
  | bool b =>
    cases b
    · exact hfalse hmem
    · exact htrue hmem
  | number x =>
    rcases List.mem_append.1 (show c ∈ ['n', ':'] ++ (Number.shortText x).toList from hmem) with
      hmem | hmem
    · exact hn hmem
    · rcases Number.mem_shortText hmem with hmem | hmem
      · rw [hdigit] at hmem
        exact absurd hmem (by decide)
      · exact hnumber hmem
  | timestamp t =>
    rcases List.mem_append.1 (show c ∈ ['t', ':'] ++ t.rfc3339.toList from hmem) with hmem | hmem
    · exact ht hmem
    · rcases Timestamp.mem_rfc3339 hmem with hmem | hmem
      · rw [hdigit] at hmem
        exact absurd hmem (by decide)
      · exact hinstant hmem
  | text s =>
    rcases List.mem_append.1 (show c ∈ ['s', ':'] ++ s.toList from hmem) with hmem | hmem
    · exact hs hmem
    · exact h hmem

/-- A key gives back the canonical texts of the columns. -/
theorem canonical_of_tupleKey_eq {t t' : Tuple} (ht : t.Lacks (Char.ofNat 0x1F))
    (ht' : t'.Lacks (Char.ofNat 0x1F)) (h : tupleKey t = tupleKey t') :
    t.map Atom.canonical = t'.map Atom.canonical := by
  have hparts : ∀ {t : Tuple}, t.Lacks (Char.ofNat 0x1F) →
      ∀ part ∈ (t.map Atom.canonical).map String.toList, part ≠ [] ∧ Char.ofNat 0x1F ∉ part := by
    intro t ht part hpart
    obtain ⟨text, htext, rfl⟩ := List.mem_map.1 hpart
    obtain ⟨a, ha, rfl⟩ := List.mem_map.1 htext
    -- no part is empty, as each has the mark of its type
    refine ⟨?_, Atom.not_mem_canonical (by decide) (ht a ha)⟩
    rw [Atom.toList_canonical]
    cases a <;> simp
  have hchars := congrArg String.toList h
  rw [tupleKey, tupleKey, String.toList_intercalate, String.toList_intercalate] at hchars
  have hequal := intercalate_inj (hparts ht) (hparts ht') hchars
  exact List.map_injective_iff.2 (fun _ _ htext => String.toList_injective htext) hequal

end Factbase
