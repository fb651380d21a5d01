import Mathlib.Algebra.Group.Nat.Defs
import Factbase.Proofs.Separators
import Factbase.Timestamp

/-! # Texts of instants

Going from a day to its date and back loses nothing (`Date.dayNumber_ofDayNumber`), and every field
of a date and time is written with a fixed width or between marks that do not occur in it. So
instants with the same text are the same (`Timestamp.rfc3339_injective`). -/

namespace Factbase

namespace Date

section Era

variable {century cycle year day : Int}

/-- A day of an era lies in a century, in a cycle of four years, and in a year. Only the last year
of a cycle may have a day 365, and only the last century a full last cycle. -/
theorem exists_dayOfEra_eq {dayOfEra : Int} (h₀ : 0 ≤ dayOfEra) (h₁ : dayOfEra < eraDays) :
    ∃ century cycle year day : Int,
      dayOfEra = 36524 * century + 1461 * cycle + 365 * year + day ∧
      (0 ≤ century ∧ century ≤ 3) ∧ (0 ≤ cycle ∧ cycle ≤ 24) ∧ (0 ≤ year ∧ year ≤ 3) ∧
      (0 ≤ day ∧ day ≤ 365) ∧ (day = 365 → year = 3 ∧ (cycle = 24 → century = 3)) := by
  unfold eraDays at h₁
  obtain ⟨century, hc⟩ : ∃ c, c = min (dayOfEra / 36524) 3 := ⟨_, rfl⟩
  obtain ⟨cycle, hk⟩ : ∃ k, k = (dayOfEra - 36524 * century) / 1461 := ⟨_, rfl⟩
  obtain ⟨year, hy⟩ : ∃ y, y = min ((dayOfEra - 36524 * century - 1461 * cycle) / 365) 3 :=
    ⟨_, rfl⟩
  refine ⟨century, cycle, year, dayOfEra - 36524 * century - 1461 * cycle - 365 * year, ?_⟩
  have hcentury : 0 ≤ century ∧ century ≤ 3 := by omega
  have hrest : 0 ≤ dayOfEra - 36524 * century ∧ dayOfEra - 36524 * century ≤ 36524 := by omega
  have hcycle : 0 ≤ cycle ∧ cycle ≤ 24 := by omega
  have hyear : 0 ≤ year ∧ year ≤ 3 := by omega
  refine ⟨by omega, hcentury, hcycle, hyear, by omega, ?_⟩
  intro hlast
  omega

/-- The year that is found for a day is the one in which it lies. -/
theorem yearOfEra_eq (hc : 0 ≤ century ∧ century ≤ 3) (hk : 0 ≤ cycle ∧ cycle ≤ 24)
    (hy : 0 ≤ year ∧ year ≤ 3) (hd : 0 ≤ day ∧ day ≤ 365)
    (hlast : day = 365 → year = 3 ∧ (cycle = 24 → century = 3)) :
    yearOfEra (36524 * century + 1461 * cycle + 365 * year + day) =
      100 * century + 4 * cycle + year := by
  -- near the end of a cycle the quotient by 1460 runs ahead of the number of cycles
  obtain ⟨ahead, hahead⟩ : ∃ a, a = (24 * century + cycle + 365 * year + day) / 1460 := ⟨_, rfl⟩
  have hday : 0 ≤ day - ahead ∧ day - ahead ≤ 364 := by omega
  -- a century is full only on the last day of the era
  have hfull : 1461 * cycle + 365 * year + day ≤ 36523 ∨
      century = 3 ∧ 1461 * cycle + 365 * year + day = 36524 := by
    omega
  unfold yearOfEra
  generalize hn : 36524 * century + 1461 * cycle + 365 * year + day = n
  have hcycles : n / 1460 = 25 * century + cycle + ahead := by
    clear hfull hlast hday hy hd hk hc
    omega
  have hcentury : n / 36524 - n / 146096 = century := by
    rcases hfull with hrest | ⟨rfl, hrest⟩
    · obtain rfl | rfl | rfl | rfl : century = 0 ∨ century = 1 ∨ century = 2 ∨ century = 3 := by
        omega
      all_goals omega
    · omega
  -- what is left is linear in the quotients
  clear hfull hlast hahead
  generalize n / 1460 = leapDays at *
  generalize n / 36524 = centuries at *
  generalize n / 146096 = lastDay at *
  omega

/-- A day lies in the year that is found for it, and that is a year of the era. -/
theorem dayOfYear_bounds {dayOfEra : Int} (h₀ : 0 ≤ dayOfEra) (h₁ : dayOfEra < eraDays) :
    (0 ≤ yearOfEra dayOfEra ∧ yearOfEra dayOfEra < 400) ∧
      0 ≤ dayOfEra - daysBeforeYear (yearOfEra dayOfEra) ∧
      dayOfEra - daysBeforeYear (yearOfEra dayOfEra) ≤ 365 := by
  obtain ⟨century, cycle, year, day, rfl, hc, hk, hy, hd, hlast⟩ := exists_dayOfEra_eq h₀ h₁
  have hcentury : (100 * century + 4 * cycle + year) / 100 = century := by omega
  have hcycle : (100 * century + 4 * cycle + year) / 4 = 25 * century + cycle := by omega
  rw [yearOfEra_eq hc hk hy hd hlast, daysBeforeYear, hcentury, hcycle]
  omega

end Era

/-- A day lies in the month that is found for it. -/
theorem dayOfMonth_bounds {dayOfYear : Int} (h₀ : 0 ≤ dayOfYear) (h₁ : dayOfYear ≤ 365) :
    0 ≤ (5 * dayOfYear + 2) / 153 ∧ (5 * dayOfYear + 2) / 153 < 12 ∧
      0 ≤ dayOfYear - daysBeforeMonth ((5 * dayOfYear + 2) / 153) ∧
      dayOfYear - daysBeforeMonth ((5 * dayOfYear + 2) / 153) < 31 := by
  unfold daysBeforeMonth
  omega

/-- The number of a date that is counted from March. -/
theorem dayNumber_ofMarch {year month day : Int} (hm₀ : 0 ≤ month) (hm₁ : month < 12)
    (hd : 0 ≤ day) : (ofMarch year month day).dayNumber = dayNumberFromMarch year month day := by
  unfold ofMarch
  split
  · have hmonth : ¬ (month + 3).toNat ≤ 2 := by omega
    have hback : ((month + 3).toNat : Int) - 3 = month := by omega
    rw [dayNumber, if_neg hmonth, hback, Int.toNat_of_nonneg hd]
  · have hmonth : (month - 9).toNat ≤ 2 := by omega
    have hback : ((month - 9).toNat : Int) + 9 = month := by omega
    rw [dayNumber, if_pos hmonth, hback, Int.toNat_of_nonneg hd, Int.add_sub_cancel]

/-- Going from a day to its date and back loses nothing. -/
theorem dayNumber_ofDayNumber (n : Int) : (ofDayNumber n).dayNumber = n := by
  have h₀ : 0 ≤ (n + epochOffset) % eraDays := Int.emod_nonneg _ (by decide)
  have h₁ : (n + epochOffset) % eraDays < eraDays := Int.emod_lt_of_pos _ (by decide)
  have hsum := Int.emod_add_mul_ediv (n + epochOffset) eraDays
  unfold ofDayNumber
  dsimp only
  generalize (n + epochOffset) % eraDays = dayOfEra at *
  generalize (n + epochOffset) / eraDays = era at *
  -- era, year of the era and month are found again from the date
  obtain ⟨⟨hy₀, hy₁⟩, hd₀, hd₁⟩ := dayOfYear_bounds h₀ h₁
  generalize yearOfEra dayOfEra = year at *
  obtain ⟨hm₀, hm₁, hday, -⟩ := dayOfMonth_bounds hd₀ hd₁
  have hera : (year + era * 400) / 400 = era := by omega
  have hyear : (year + era * 400) % 400 = year := by omega
  rw [dayNumber_ofMarch hm₀ hm₁ (by omega), dayNumberFromMarch, hera, hyear]
  rw [Int.mul_comm] at hsum
  omega

/-- Different days have different dates. -/
theorem ofDayNumber_injective {m n : Int} (h : ofDayNumber m = ofDayNumber n) : m = n := by
  rw [← dayNumber_ofDayNumber m, h, dayNumber_ofDayNumber]

/-- Months and days of a date have at most two digits. -/
theorem ofDayNumber_lt (n : Int) : (ofDayNumber n).month < 100 ∧ (ofDayNumber n).day < 100 := by
  have h₀ : 0 ≤ (n + epochOffset) % eraDays := Int.emod_nonneg _ (by decide)
  have h₁ : (n + epochOffset) % eraDays < eraDays := Int.emod_lt_of_pos _ (by decide)
  unfold ofDayNumber
  dsimp only
  obtain ⟨-, hd₀, hd₁⟩ := dayOfYear_bounds h₀ h₁
  obtain ⟨hm₀, hm₁, hday, hday'⟩ := dayOfMonth_bounds hd₀ hd₁
  unfold ofMarch
  split <;> dsimp only <;> omega

end Date

namespace Timestamp

section Fields

variable {width m n : Nat}

/-- A padded number has zeros in front of its digits. -/
theorem toList_padded (width n : Nat) :
    (padded width n).toList =
      List.replicate (width - (Nat.toDigits 10 n).length) '0' ++ Nat.toDigits 10 n :=
  String.toList_ofList

/-- A padded number has its value. -/
theorem ofDigitChars_padded (width n : Nat) :
    Nat.ofDigitChars 10 (padded width n).toList 0 = n := by
  rw [toList_padded, Nat.ofDigitChars_append, Nat.ofDigitChars_replicate_zero, Nat.mul_zero,
    Nat.ofDigitChars_toDigits (by decide) (by decide)]

/-- A padded number consists of digits. -/
theorem isDigit_of_mem_padded {c : Char} (h : c ∈ (padded width n).toList) : c.isDigit = true := by
  rw [toList_padded, List.mem_append] at h
  rcases h with h | h
  · rw [List.eq_of_mem_replicate h]
    decide
  · exact Nat.isDigit_of_mem_toDigits (by decide) (by decide) h

/-- A number that fits is padded to the width. -/
theorem length_padded (hwidth : 0 < width) (h : n < 10 ^ width) :
    (padded width n).toList.length = width := by
  have hle : (Nat.toDigits 10 n).length ≤ width :=
    (Nat.length_toDigits_le_iff (by decide) hwidth).2 h
  rw [toList_padded, List.length_append, List.length_replicate]
  omega

/-- Numbers that are padded to the same text are the same. -/
theorem eq_of_padded_eq (h : (padded width m).toList = (padded width n).toList) : m = n := by
  rw [← ofDigitChars_padded width m, h, ofDigitChars_padded]

/-- The sign of a year, as it is written. -/
def yearSign (year : Int) : List Char :=
  if 0 ≤ year ∧ year ≤ 9999 then [] else [if year < 0 then '-' else '+']

/-- A year is written as its sign and its padded magnitude. -/
theorem toList_yearText (year : Int) :
    (yearText year).toList = yearSign year ++ (padded 4 year.natAbs).toList := by
  unfold yearText yearSign
  split
  · have habs : year.toNat = year.natAbs := by omega
    rw [habs, List.nil_append]
  · split <;> rw [String.toList_append] <;> rfl

/-- Years with the same text are the same. -/
theorem eq_of_yearText_eq {y z : Int} (h : (yearText y).toList = (yearText z).toList) : y = z := by
  rw [toList_yearText, toList_yearText, yearSign, yearSign] at h
  -- a sign in front is not taken for a digit
  have hdigit : ∀ (x : Int) (rest : List Char) (n : Nat),
      (if x < 0 then '-' else '+') :: rest ≠ (padded 4 n).toList := by
    intro x rest n heq
    have hmark : (if x < 0 then '-' else '+').isDigit = true :=
      isDigit_of_mem_padded (heq ▸ List.mem_cons_self)
    split at hmark <;> exact absurd hmark (by decide)
  by_cases hy : 0 ≤ y ∧ y ≤ 9999 <;> by_cases hz : 0 ≤ z ∧ z ≤ 9999
  · rw [if_pos hy, if_pos hz, List.nil_append, List.nil_append] at h
    have habs := eq_of_padded_eq h
    omega
  · rw [if_pos hy, if_neg hz] at h
    rw [List.nil_append, List.singleton_append] at h
    exact absurd h.symm (hdigit z _ _)
  · rw [if_neg hy, if_pos hz] at h
    rw [List.nil_append, List.singleton_append] at h
    exact absurd h (hdigit y _ _)
  · rw [if_neg hy, if_neg hz] at h
    obtain ⟨hsign, hdigits⟩ := List.cons.inj h
    have habs := eq_of_padded_eq hdigits
    split at hsign <;> split at hsign
    · omega
    · exact absurd hsign (by decide)
    · exact absurd hsign (by decide)
    · omega

/-- What the fraction of a second looks like: nothing for zero, else a point and digits, which count
as if filled up to nine. -/
theorem fractionText_eq (h : n < 10 ^ 9) :
    (fractionText n).toList = [] ∧ n = 0 ∨
      ∃ digits, (fractionText n).toList = '.' :: digits ∧ (∀ c ∈ digits, c.isDigit = true) ∧
        Nat.ofDigitChars 10 digits 0 * 10 ^ (9 - digits.length) = n := by
  have hpart : ∀ kept dropped, kept + dropped = 9 → 0 < kept → n / 10 ^ dropped < 10 ^ kept →
      n / 10 ^ dropped * 10 ^ dropped = n →
      ∃ digits, ("." ++ padded kept (n / 10 ^ dropped)).toList = '.' :: digits ∧
        (∀ c ∈ digits, c.isDigit = true) ∧
        Nat.ofDigitChars 10 digits 0 * 10 ^ (9 - digits.length) = n := by
    intro kept dropped hsum hkept hlt hdvd
    have hdropped : 9 - kept = dropped := by omega
    refine ⟨(padded kept (n / 10 ^ dropped)).toList, String.toList_append, fun c hc =>
      isDigit_of_mem_padded hc, ?_⟩
    rw [ofDigitChars_padded, length_padded hkept hlt, hdropped, hdvd]
  unfold fractionText
  split
  · next hzero => exact .inl ⟨rfl, hzero⟩
  · right
    split
    · exact hpart 3 6 rfl (by decide) (by omega) (by omega)
    · split
      · exact hpart 6 3 rfl (by decide) (by omega) (by omega)
      · have hnine := hpart 9 0 rfl (by decide) (by omega) (by omega)
        rwa [Nat.pow_zero, Nat.div_one] at hnine

/-- Fractions of a second with the same text are the same. -/
theorem eq_of_fractionText_eq (hm : m < 10 ^ 9) (hn : n < 10 ^ 9)
    (h : (fractionText m).toList = (fractionText n).toList) : m = n := by
  rcases fractionText_eq hm with ⟨hm', rfl⟩ | ⟨ds, hm', -, rfl⟩ <;>
    rcases fractionText_eq hn with ⟨hn', rfl⟩ | ⟨es, hn', -, rfl⟩
  · rfl
  · rw [hm', hn'] at h
    exact absurd h (by simp)
  · rw [hm', hn'] at h
    exact absurd h (by simp)
  · rw [hm', hn'] at h
    rw [(List.cons.inj h).2]

/-- Numbers below a hundred take two digits. -/
theorem length_padded_two (h : n < 100) : (padded 2 n).toList.length = 2 :=
  length_padded (by decide) h

end Fields

/-- The date of an instant as it is written. -/
def dateChars (d : Date) : List Char :=
  (yearText d.year).toList ++
    ('-' :: (padded 2 d.month).toList ++ '-' :: (padded 2 d.day).toList)

/-- The time of day as it is written, without the fraction. -/
def clockChars (hour minute second : Nat) : List Char :=
  (padded 2 hour).toList ++
    (':' :: (padded 2 minute).toList ++ ':' :: (padded 2 second).toList)

/-- The second of a minute as it is shown: a leap second is second 60. -/
def shownSecond (t : Timestamp) : Nat := t.second % 60 + if 10 ^ 9 ≤ t.nano then 1 else 0

/-- The nanoseconds of the second that is shown. -/
def shownNano (t : Timestamp) : Nat := if 10 ^ 9 ≤ t.nano then t.nano - 10 ^ 9 else t.nano

/-- An instant is written as date, time and fraction. -/
theorem toList_rfc3339 (t : Timestamp) :
    t.rfc3339.toList =
      dateChars (Date.ofDayNumber t.day) ++ 'T' ::
        (clockChars (t.second / 3600) (t.second / 60 % 60) t.shownSecond ++
          ((fractionText t.shownNano).toList ++ "+00:00".toList)) := by
  have hdash : "-".toList = ['-'] := rfl
  have hcolon : ":".toList = [':'] := rfl
  have hmark : "T".toList = ['T'] := rfl
  have hsecond : 10 ^ 9 = 1000000000 := rfl
  simp only [rfc3339, dateTimeText, String.toList_append, List.append_assoc, dateChars, clockChars,
    shownSecond, shownNano, List.cons_append, hdash, hcolon, hmark, hsecond, List.nil_append]

/-- A written date holds digits and signs only. -/
theorem mem_dateChars {d : Date} {c : Char} (h : c ∈ dateChars d) :
    c.isDigit = true ∨ c = '-' ∨ c = '+' := by
  simp only [dateChars, toList_yearText, yearSign, List.mem_append, List.mem_cons,
    List.cons_append] at h
  rcases h with (h | h) | h | h | h | h
  · split at h
    · simp at h
    · right
      rw [List.mem_singleton] at h
      split at h
      · exact .inl h
      · exact .inr h
  · exact .inl (isDigit_of_mem_padded h)
  · exact .inr (.inl h)
  · exact .inl (isDigit_of_mem_padded h)
  · exact .inr (.inl h)
  · exact .inl (isDigit_of_mem_padded h)

/-- Dates that are written alike are the same. -/
theorem eq_of_dateChars_eq {d e : Date} (hd : d.month < 100 ∧ d.day < 100)
    (he : e.month < 100 ∧ e.day < 100) (h : dateChars d = dateChars e) : d = e := by
  have hlength : ∀ f : Date, f.month < 100 ∧ f.day < 100 →
      ('-' :: (padded 2 f.month).toList ++ '-' :: (padded 2 f.day).toList).length = 6 := by
    intro f hf
    simp [length_padded_two hf.1, length_padded_two hf.2]
  obtain ⟨hyear, hrest⟩ := List.append_inj' h (by rw [hlength d hd, hlength e he])
  obtain ⟨hmonth, hday⟩ := List.append_inj (List.cons.inj hrest).2
    (by rw [length_padded_two hd.1, length_padded_two he.1])
  exact Date.ext (eq_of_yearText_eq hyear) (eq_of_padded_eq hmonth)
    (eq_of_padded_eq (List.cons.inj hday).2)

/-- Times of day that are written alike are the same. -/
theorem eq_of_clockChars_eq {hour minute second hour' minute' second' : Nat}
    (hh : hour < 100 ∧ hour' < 100) (hm : minute < 100 ∧ minute' < 100)
    (h : clockChars hour minute second = clockChars hour' minute' second') :
    hour = hour' ∧ minute = minute' ∧ second = second' := by
  obtain ⟨hhour, hrest⟩ := List.append_inj h
    (by rw [length_padded_two hh.1, length_padded_two hh.2])
  obtain ⟨hminute, hsecond⟩ := List.append_inj (List.cons.inj hrest).2
    (by rw [length_padded_two hm.1, length_padded_two hm.2])
  exact ⟨eq_of_padded_eq hhour, eq_of_padded_eq hminute,
    eq_of_padded_eq (List.cons.inj hsecond).2⟩

/-- A second of a day is found by its hour, its minute and its second. -/
theorem eq_of_clock_eq {m n : Nat} (hhour : m / 3600 = n / 3600)
    (hminute : m / 60 % 60 = n / 60 % 60) (hsecond : m % 60 = n % 60) : m = n := by
  omega

/-- The characters of the text of an instant. -/
theorem mem_rfc3339 {t : Timestamp} {c : Char} (h : c ∈ t.rfc3339.toList) :
    c.isDigit = true ∨ c ∈ ['-', '+', 'T', ':', '.'] := by
  have hnano : t.shownNano < 10 ^ 9 := by
    have hlt := t.nano_lt
    unfold shownNano
    split <;> omega
  rw [toList_rfc3339] at h
  simp only [clockChars, List.mem_append, List.mem_cons, List.cons_append] at h
  rcases h with h | rfl | (h | rfl | h | rfl | h) | h | h
  · rcases mem_dateChars h with h | rfl | rfl
    · exact .inl h
    · exact .inr (by decide)
    · exact .inr (by decide)
  · exact .inr (by decide)
  · exact .inl (isDigit_of_mem_padded h)
  · exact .inr (by decide)
  · exact .inl (isDigit_of_mem_padded h)
  · exact .inr (by decide)
  · exact .inl (isDigit_of_mem_padded h)
  · rcases fractionText_eq hnano with ⟨heq, -⟩ | ⟨digits, heq, hdigit, -⟩
    · simp [heq] at h
    · rw [heq] at h
      rcases List.mem_cons.1 h with rfl | h
      · exact .inr (by decide)
      · exact .inl (hdigit c h)
  · have hzone : "+00:00".toList = ['+', '0', '0', ':', '0', '0'] := rfl
    simp only [hzone, List.mem_cons, List.not_mem_nil, or_false] at h
    rcases h with rfl | rfl | rfl | rfl | rfl | rfl <;> decide

/-- Instants with the same text are the same. -/
theorem rfc3339_injective {s t : Timestamp} (h : s.rfc3339 = t.rfc3339) : s = t := by
  have hchars := congrArg String.toList h
  rw [toList_rfc3339, toList_rfc3339] at hchars
  -- the date ends at the mark, and clock and fraction follow at fixed widths
  have hmark : ∀ d, 'T' ∉ dateChars d := by
    intro d hmem
    rcases mem_dateChars hmem with h | h | h <;> exact absurd h (by decide)
  obtain ⟨hdate, htime⟩ := append_mark_inj (hmark _) (hmark _) hchars
  have hday := Date.ofDayNumber_injective
    (eq_of_dateChars_eq (Date.ofDayNumber_lt _) (Date.ofDayNumber_lt _) hdate)
  have hbounds : ∀ u : Timestamp, u.second / 3600 < 100 ∧ u.second / 60 % 60 < 100 ∧
      u.shownSecond < 100 ∧ u.shownNano < 10 ^ 9 := by
    intro u
    have hsecond := u.second_lt
    have hnano := u.nano_lt
    unfold shownSecond shownNano
    refine ⟨by omega, by omega, ?_, ?_⟩ <;> split <;> omega
  obtain ⟨hs₁, hs₂, hs₃, hs₄⟩ := hbounds s
  obtain ⟨ht₁, ht₂, ht₃, ht₄⟩ := hbounds t
  have hlength : ∀ {hour minute second : Nat}, hour < 100 → minute < 100 → second < 100 →
      (clockChars hour minute second).length = 8 := by
    intro hour minute second hh hm hs
    simp [clockChars, length_padded_two hh, length_padded_two hm, length_padded_two hs]
  obtain ⟨hclock, hfraction⟩ := List.append_inj htime
    (by rw [hlength hs₁ hs₂ hs₃, hlength ht₁ ht₂ ht₃])
  obtain ⟨hhour, hminute, hsecond⟩ := eq_of_clockChars_eq ⟨hs₁, ht₁⟩ ⟨hs₂, ht₂⟩ hclock
  have hnano := eq_of_fractionText_eq hs₄ ht₄ (List.append_cancel_right hfraction)
  -- only a leap second is shown as second 60
  have hs := s.isLast
  have ht := t.isLast
  unfold shownSecond at hsecond
  unfold shownNano at hnano
  have hleap : 10 ^ 9 ≤ s.nano ↔ 10 ^ 9 ≤ t.nano := by
    split at hsecond <;> split at hsecond <;> omega
  simp only [hleap] at hsecond hnano
  refine Timestamp.ext hday (eq_of_clock_eq hhour hminute (Nat.add_right_cancel hsecond)) ?_
  split at hnano <;> omega

end Timestamp

end Factbase
