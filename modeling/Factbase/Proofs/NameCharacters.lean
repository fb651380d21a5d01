import Factbase.Proofs.RuleText

/-! # White space ends a name

The characters of names are letters, digits and underscores, so no white space is among them
(`RuleReader.continuesName_of_isBlank`). What a letter or a digit is, the tables of Unicode say: all
their runs lie outside of four stretches of code points that hold the white space beyond ASCII
(`Text.isClear_of_mem_nameCategories`), and halving finds nothing but what is in some run
(`Text.Runs.exists_run_of_search`). -/

namespace Factbase

namespace Text

/-- What halving finds is a member of some run. -/
theorem Runs.exists_run_of_search {runs : Array Run} {n lo hi : Nat}
    (h : search runs n lo hi = true) : ∃ r ∈ runs.toList, r.has n = true := by
  fun_induction search runs n lo hi with
  | case1 => simp at h
  | case2 lo hi _ mid r hr _ ih => exact ih h
  | case3 lo hi _ mid r hr _ _ ih => exact ih h
  | case4 lo hi _ mid r hr => exact ⟨r, Array.mem_toList_iff.2 (Array.mem_of_getElem? hr), h⟩
  | case5 => simp at h

/-- Stretches of code points, first and last, that hold the white space beyond ASCII. -/
def blankStretches : List (Nat × Nat) :=
  [(0x80, 0xA0), (0x1680, 0x1680), (0x2000, 0x205F), (0x3000, 0x3000)]

/-- Whether a run lies outside of the stretches. -/
def Run.isClear (r : Run) : Bool :=
  blankStretches.all fun stretch => r.last < stretch.1 || stretch.2 < r.first

/-- White space is ASCII or in a stretch. -/
theorem exists_stretch_of_isBlank {c : Char} (h : isBlank c = true) (hascii : ¬ c.toNat < 128) :
    ∃ stretch ∈ blankStretches, stretch.1 ≤ c.toNat ∧ c.toNat ≤ stretch.2 := by
  simp only [blankStretches, List.mem_cons, List.not_mem_nil, or_false, exists_eq_or_imp,
    exists_eq_left]
  simp only [isBlank] at h
  grind

/-- White space beyond ASCII is in no run that lies outside of the stretches. -/
theorem Runs.has_eq_false {runs : Array Run} {c : Char} (hruns : runs.toList.all Run.isClear = true)
    (hblank : isBlank c = true) (hascii : ¬ c.toNat < 128) : has runs c.toNat = false := by
  rw [Bool.eq_false_iff]
  intro h
  obtain ⟨r, hr, hhas⟩ := exists_run_of_search h
  obtain ⟨stretch, hstretch, hfirst, hlast⟩ := exists_stretch_of_isBlank hblank hascii
  have hclear := List.all_eq_true.1 (List.all_eq_true.1 hruns r hr) stretch hstretch
  simp only [Run.has, Bool.and_eq_true, Bool.or_eq_true, decide_eq_true_eq] at hhas hclear
  omega

/-- The runs of a table are checked one word after the other. -/
theorem Run.all_readAll {p : Run → Bool} (table : List Char)
    (h : ((words table).all fun word => p (Run.read word)) = true) :
    (Run.readAll (String.ofList table)).toList.all p = true := by
  simpa [Run.readAll, List.all_map] using h

/-- The categories of letters and numbers. -/
def nameCategories : List Category :=
  [.lowercaseLetter, .uppercaseLetter, .otherLetter, .modifierLetter, .titlecaseLetter,
    .letterNumber, .decimalNumber, .otherNumber]

set_option maxRecDepth 100000 in
/-- The runs of letters and numbers lie outside of the stretches. -/
theorem isClear_of_mem_nameCategories {category : Category} (h : category ∈ nameCategories) :
    category.runs.toList.all Run.isClear = true := by
  simp only [nameCategories, List.mem_cons, List.not_mem_nil, or_false] at h
  rcases h with rfl | rfl | rfl | rfl | rfl | rfl | rfl | rfl <;>
    exact Run.all_readAll _ (by decide +kernel)

set_option maxRecDepth 100000 in
/-- The runs of the other alphabetic characters lie outside of the stretches. -/
theorem isClear_otherAlphabeticRuns : otherAlphabeticRuns.toList.all Run.isClear = true :=
  Run.all_readAll _ (by decide +kernel)

/-- White space is neither a letter nor a number. -/
theorem isAlphanumeric_of_isBlank {c : Char} (h : isBlank c = true) :
    isAlphanumeric c = false := by
  by_cases hascii : c.toNat < 128
  · simp only [isAlphanumeric, isAlphabetic, isNumeric, if_pos hascii]
    have hcontrol : c.toNat ≤ 32 := by
      simp only [isBlank] at h
      grind
    have hno : ∀ d : Char, 32 < d.toNat → decide (d ≤ c) = false := fun d hd =>
      decide_eq_false fun hle => absurd (show d.toNat ≤ c.toNat from hle) (by omega)
    simp [isLetter, isDigit, hno]
  · have hcategory : ∀ category ∈ nameCategories, category.has c = false := by
      intro category hmem
      have hclear := isClear_of_mem_nameCategories hmem
      have hhas := Runs.has_eq_false hclear h hascii
      simp only [nameCategories, List.mem_cons, List.not_mem_nil, or_false] at hmem
      rcases hmem with rfl | rfl | rfl | rfl | rfl | rfl | rfl | rfl <;> exact hhas
    simp only [isAlphanumeric, isAlphabetic, isNumeric, if_neg hascii,
      Runs.has_eq_false isClear_otherAlphabeticRuns h hascii]
    simp only [nameCategories, List.forall_mem_cons] at hcategory
    simp [hcategory]

end Text

namespace RuleReader

/-- White space does not go on with a name. -/
theorem continuesName_of_isBlank {c : Char} (h : Text.isBlank c = true) :
    continuesName c = false := by
  have hunderscore : c ≠ '_' := by
    rintro rfl
    exact absurd h (by decide)
  simp [continuesName, Text.isAlphanumeric_of_isBlank h, hunderscore]

/-- What goes on with a name is no white space. -/
theorem isBlank_of_continuesName {c : Char} (h : continuesName c = true) :
    Text.isBlank c = false := by
  rw [← Bool.not_eq_true]
  intro hblank
  rw [continuesName_of_isBlank hblank] at h
  exact Bool.false_ne_true h

/-- What starts a name goes on with one. -/
theorem continuesName_of_startsName {c : Char} (h : startsName c = true) :
    continuesName c = true := by
  simp only [startsName, Bool.or_eq_true] at h
  simp only [continuesName, Text.isAlphanumeric, Bool.or_eq_true]
  exact h.imp_left .inl

end RuleReader

end Factbase
