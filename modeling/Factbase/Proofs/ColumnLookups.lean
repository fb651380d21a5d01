import Factbase.Proofs.DistinctTuples

/-! # Looking up tuples by their columns

A pattern asks for tuples of its length that have certain canonical texts in the bound columns
(`TuplePattern.Suits`). Whatever tuples were inserted, of whatever lengths, a relation gives for a
pattern those that suit it, each once and in the order of insertion
(`Relation.matching_ofTuples`): the positions that are listed for one bound column are those that
going through all tuples finds.

Tuples and columns are reached by their numbers. `ColumnIndexes.addEach?`, `TuplePattern.test?` and
`Relation.matchingAt?` do so step by step and give nothing once a number is out of range, which is
never the case. -/

namespace Factbase

namespace TuplePattern

variable {pattern : TuplePattern} {tuple : Tuple}

/-- The tuple has the length of the pattern and in each bound column the canonical text that is
asked for. -/
def Suits (pattern : TuplePattern) (tuple : Tuple) : Prop :=
  tuple.length = pattern.length ∧ ∀ (column : Nat) (wanted : Atom),
    pattern[column]? = some (some wanted) →
      tuple[column]?.map Atom.canonical = some wanted.canonical

/-- Fitting column by column is to suit the pattern. -/
theorem fits_iff : pattern.fits tuple = true ↔ pattern.Suits tuple := by
  constructor
  · intro h
    refine ⟨?_, fun column wanted hp => getElem?_of_fits h hp⟩
    induction pattern generalizing tuple with
    | nil =>
      cases tuple with
      | nil => rfl
      | cons value tuple => simp [fits] at h
    | cons asked pattern ih =>
      cases tuple with
      | nil => cases asked <;> simp [fits] at h
      | cons value tuple =>
        cases asked with
        | none => exact congrArg Nat.succ (ih (by simpa [fits] using h))
        | some wanted => exact congrArg Nat.succ (ih (Bool.and_eq_true_iff.1 h).2)
  · rintro ⟨hlength, hcolumns⟩
    induction pattern generalizing tuple with
    | nil =>
      obtain rfl := List.length_eq_zero_iff.1 hlength
      rfl
    | cons asked pattern ih =>
      cases tuple with
      | nil => simp at hlength
      | cons value tuple =>
        have hrest : fits pattern tuple = true :=
          ih (Nat.succ.inj hlength) fun column wanted hp => hcolumns (column + 1) wanted (by simpa)
        cases asked with
        | none => exact hrest
        | some wanted =>
          have hvalue : value.canonical = wanted.canonical := by
            simpa using hcolumns 0 wanted (by simp)
          simp [fits, hvalue, hrest]

instance (pattern : TuplePattern) (tuple : Tuple) : Decidable (pattern.Suits tuple) :=
  decidable_of_iff _ fits_iff

/-- The numbers of the bound columns from a number on, with the canonical texts asked for. -/
def boundFrom (column : Nat) : TuplePattern → List (Nat × String)
  | [] => []
  | none :: pattern => boundFrom (column + 1) pattern
  | some wanted :: pattern => (column, wanted.canonical) :: boundFrom (column + 1) pattern

/-- Whether a tuple suits the pattern, where its columns are read by their numbers. There is no
answer if a column is out of range. -/
def test? (pattern : TuplePattern) (tuple : Tuple) : Option Bool :=
  if tuple.length = pattern.length then
    (pattern.boundFrom 0).allM fun (column, key) => tuple[column]?.map (·.canonical == key)
  else some false

/-- The columns that follow some others are in range when there is one for each part of the
pattern. -/
theorem allM_boundFrom (front : Tuple) (h : tuple.length = pattern.length) :
    ((pattern.boundFrom front.length).allM fun (column, key) =>
      (front ++ tuple)[column]?.map (·.canonical == key)) = some (pattern.fits tuple) := by
  induction pattern generalizing front tuple with
  | nil =>
    obtain rfl := List.length_eq_zero_iff.1 h
    rfl
  | cons asked pattern ih =>
    cases tuple with
    | nil => simp at h
    | cons value tuple =>
      have hrest := ih (front ++ [value]) (Nat.succ.inj h)
      rw [List.append_assoc, List.singleton_append, List.length_append] at hrest
      cases asked with
      | none => exact hrest
      | some wanted =>
        simp only [boundFrom, List.allM_cons, List.getElem?_append_right (Nat.le_refl _),
          Nat.sub_self, List.getElem?_cons_zero, fits]
        cases hvalue : value.canonical == wanted.canonical
        · simp [hvalue]
        · simpa [hvalue] using hrest

/-- No column that the test reads is out of range. -/
theorem test?_eq_some (pattern : TuplePattern) (tuple : Tuple) :
    pattern.test? tuple = some (pattern.fits tuple) := by
  unfold test?
  split
  · next h => exact allM_boundFrom [] h
  · next h =>
    rw [eq_comm, Option.some.injEq, Bool.eq_false_iff, ne_eq, fits_iff]
    exact fun hsuits => h hsuits.1

end TuplePattern

namespace ColumnIndexes

variable {columns : ColumnIndexes}

/-- There is an index for each of as many columns. -/
def widen (columns : ColumnIndexes) (width : Nat) : ColumnIndexes :=
  columns ++ List.replicate (width - columns.length) .empty

/-- Adds a position to those of a key in the column of a number, if that is in range. -/
def addAt? (columns : ColumnIndexes) (position column : Nat) (key : String) :
    Option ColumnIndexes :=
  columns[column]?.map fun index => columns.set column (index.add key position)

/-- Adds the position of a tuple column after column, from a number on. -/
def addEach? (position : Nat) : Nat → ColumnIndexes → Tuple → Option ColumnIndexes
  | _, columns, [] => some columns
  | column, columns, value :: tuple =>
    (columns.addAt? position column value.canonical).bind fun columns =>
      addEach? position (column + 1) columns tuple

/-- When there is an index for each column of a tuple, none of them is out of range. -/
theorem addEach?_widen (columns front : ColumnIndexes) (position : Nat) (tuple : Tuple) :
    addEach? position front.length (front ++ columns.widen tuple.length) tuple =
      some (front ++ columns.add position tuple) := by
  induction tuple generalizing columns front with
  | nil => cases columns <;> simp [addEach?, widen, add]
  | cons value tuple ih =>
    -- the column is the first after those in front, new or not
    have hstep : ∀ (index : Index String) (rest : ColumnIndexes),
        addEach? position front.length (front ++ index :: rest.widen tuple.length)
          (value :: tuple) =
        some (front ++ index.add value.canonical position :: rest.add position tuple) := by
      intro index rest
      have hrest := ih rest (front ++ [index.add value.canonical position])
      simpa [addEach?, addAt?] using hrest
    cases columns with
    | nil => simpa [widen, add, List.replicate_succ] using hstep .empty []
    | cons index columns => simpa [widen, add] using hstep index columns

/-- The candidates are the positions listed for the bound columns, whose numbers may be past the
last index. -/
theorem candidates_drop (columns : ColumnIndexes) (pattern : TuplePattern) (column : Nat) :
    candidates (columns.drop column) pattern =
      (pattern.boundFrom column).map fun (column, key) => columns.lookup column key := by
  induction pattern generalizing column with
  | nil => simp [candidates, TuplePattern.boundFrom]
  | cons asked pattern ih =>
    have hrest := ih (column + 1)
    rw [← List.tail_drop] at hrest
    cases asked with
    | none => simpa [candidates, TuplePattern.boundFrom] using hrest
    | some wanted =>
      have hfirst : lookup (columns.drop column) 0 wanted.canonical =
          columns.lookup column wanted.canonical := by
        simp [lookup]
      rw [TuplePattern.boundFrom, List.map_cons, ← hrest]
      dsimp only
      rw [← hfirst]
      cases columns.drop column <;> simp [candidates, lookup]

end ColumnIndexes

/-- A test that always has an answer keeps the elements that it holds of. -/
theorem filterM_some {α : Type} (p : α → Bool) (as : List α) :
    as.filterM (fun a => some (p a)) = some (as.filter p) := by
  have haux : ∀ acc, List.filterAuxM (fun a => some (p a)) as acc =
      some ((as.filter p).reverse ++ acc) := by
    induction as with
    | nil => exact fun acc => rfl
    | cons a rest ih =>
      intro acc
      rw [List.filterAuxM]
      cases hp : p a <;> simp [hp, ih]
  rw [List.filterM, haux]
  simp

/-- What is found for all elements is found one after the other. -/
theorem mapM_eq_some_filterMap {α β : Type} {f : α → Option β} {as : List α}
    (h : ∀ a ∈ as, (f a).isSome) : as.mapM f = some (as.filterMap f) := by
  induction as with
  | nil => rfl
  | cons a rest ih =>
    obtain ⟨ha, hrest⟩ := List.forall_mem_cons.1 h
    obtain ⟨b, hb⟩ := Option.isSome_iff_exists.1 ha
    simp [hb, ih hrest]

namespace Relation

/-- The tuples that suit a pattern, where tuples and columns are reached by their numbers: those at
the positions that the shortest list for a bound column has, or all tuples when no column is bound.
There is no answer if a number is out of range. -/
def matchingAt? (r : Relation) (pattern : TuplePattern) : Option (List Tuple) := do
  let lists := (pattern.boundFrom 0).map fun (column, key) => r.columns.lookup column key
  let candidates ←
    match shortest? lists with
    | some positions => positions.toList.mapM (r.tuples[·]?)
    | none => some r.tuples.toList
  candidates.filterM pattern.test?

/-- The positions that are listed for a column are those of tuples. -/
theorem isSome_getElem?_of_mem_lookup (r : Relation) {column position : Nat} {key : String}
    (h : position ∈ (r.columns.lookup column key).toList) : (r.tuples[position]?).isSome := by
  rw [r.lookup_columns] at h
  have hlt := List.mem_range.1 (List.mem_filter.1 h).1
  rw [Array.length_toList] at hlt
  simp [hlt]

/-- No number that a look-up uses is out of range. -/
theorem matchingAt?_eq_some (r : Relation) (pattern : TuplePattern) :
    r.matchingAt? pattern = some (r.matching pattern) := by
  have htest : pattern.test? = fun tuple => some (pattern.fits tuple) :=
    funext pattern.test?_eq_some
  have hcandidates := r.columns.candidates_drop pattern 0
  rw [List.drop_zero] at hcandidates
  rw [matchingAt?, matching, htest, ← hcandidates]
  cases hshortest : shortest? (r.columns.candidates pattern) with
  | none => exact filterM_some _ _
  | some positions =>
    obtain ⟨column, wanted, -, rfl⟩ :=
      ColumnIndexes.exists_of_mem_candidates (mem_of_shortest? hshortest)
    simp only [mapM_eq_some_filterMap fun position h => r.isSome_getElem?_of_mem_lookup h]
    exact filterM_some _ _

/-- Each of the tuples of a relation is there once. -/
theorem nodup_tuples (r : Relation) : r.tuples.toList.Nodup :=
  List.Pairwise.of_map tupleKey (fun _ _ hkey heq => hkey (congrArg tupleKey heq)) r.isDistinct

/-- Whatever tuples were inserted in whatever order, and whatever is asked of whichever columns: a
look-up gives the tuples that suit the pattern of those that are held, which are the first with each
key, in the order of insertion and each once. Neither looking up tuples nor inserting one uses a
number of a tuple or of a column that is out of range. -/
theorem matching_ofTuples (inserted : List Tuple) (pattern : TuplePattern) :
    (ofTuples inserted).matching pattern =
        (ofTuples inserted).tuples.toList.filter (fun t => pattern.Suits t) ∧
      ((ofTuples inserted).tuples.toList =
        inserted.eraseDupsBy fun t u => tupleKey t = tupleKey u) ∧
      ((ofTuples inserted).matching pattern).Nodup ∧
      (ofTuples inserted).matchingAt? pattern = some ((ofTuples inserted).matching pattern) ∧
      ∀ tuple, ((ofTuples inserted).insert tuple).1 = true →
        ColumnIndexes.addEach? (ofTuples inserted).size 0
            ((ofTuples inserted).columns.widen tuple.length) tuple =
          some ((ofTuples inserted).insert tuple).2.columns := by
  refine ⟨?_, toList_ofTuples inserted, ?_, matchingAt?_eq_some _ _, fun tuple hnew => ?_⟩
  · rw [matching_eq_filter]
    refine List.filter_congr fun t _ => ?_
    rw [Bool.eq_iff_iff, TuplePattern.fits_iff, decide_eq_true_iff]
  · rw [matching_eq_filter]
    exact (nodup_tuples _).filter _
  · rw [insert_fst, Bool.not_eq_true'] at hnew
    rw [insert, dif_neg (by simp [hnew])]
    exact ColumnIndexes.addEach?_widen _ [] _ _

-- tuples of other lengths are in the same columns
example : (ofTuples [[.text "a", .text "x"], [.text "b", .text "x", .null], [.text "c"],
      [.text "d", .text "x"]]).matching [none, some (.text "x")] =
    [[.text "a", .text "x"], [.text "d", .text "x"]] := by
  rw [matching_eq_filter, toList_ofTuples]
  decide

end Relation

end Factbase
