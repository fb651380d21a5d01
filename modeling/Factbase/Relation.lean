import Factbase.Atom
import Factbase.Index
import Std.Data.HashSet

/-! # Relations

A `Relation` is a sequence of different tuples, in the order in which they were inserted; tuples
are told apart by their keys. There is an index for every column, and `Relation.matching` walks the
shortest of the position lists that the bound columns of a pattern offer. That the keys are those of
the tuples, and the indexes those of their columns, is part of what a relation is. -/

namespace Factbase

/-- What is asked of each column of a tuple; `none` asks nothing. -/
abbrev TuplePattern := List (Option Atom)

/-- Whether a tuple has the length of the pattern and agrees with it on every bound column. -/
def TuplePattern.fits : TuplePattern → Tuple → Bool
  | [], [] => true
  | none :: pattern, _ :: tuple => TuplePattern.fits pattern tuple
  | some wanted :: pattern, value :: tuple =>
    value.canonical == wanted.canonical && TuplePattern.fits pattern tuple
  | _, _ => false

/-- A fitting tuple has in a bound column the canonical text that is asked for. -/
theorem TuplePattern.getElem?_of_fits {pattern : TuplePattern} {tuple : Tuple} {column : Nat}
    {wanted : Atom} (h : pattern.fits tuple = true) (hp : pattern[column]? = some (some wanted)) :
    tuple[column]?.map Atom.canonical = some wanted.canonical := by
  induction pattern generalizing tuple column with
  | nil => simp at hp
  | cons asked pattern ih =>
    cases tuple with
    | nil => cases asked <;> simp [fits] at h
    | cons value tuple =>
      have hrest : TuplePattern.fits pattern tuple = true := by
        cases asked with
        | none => simpa [fits] using h
        | some wanted => exact (Bool.and_eq_true_iff.1 h).2
      cases column with
      | zero =>
        obtain rfl : asked = some wanted := by simpa using hp
        have hvalue : value.canonical = wanted.canonical := by
          simpa using (Bool.and_eq_true_iff.1 h).1
        simp [hvalue]
      | succ column => simpa using @ih tuple column hrest (by simpa using hp)

namespace Tuple

/-- Whether the value in a column has a canonical text. -/
def holds (column : Nat) (key : String) (tuple : Tuple) : Bool :=
  tuple[column]?.any (·.canonical == key)

@[simp] theorem holds_nil (column : Nat) (key : String) : holds column key [] = false := rfl

@[simp] theorem holds_cons_zero (key : String) (value : Atom) (tuple : Tuple) :
    holds 0 key (value :: tuple) = (value.canonical == key) := rfl

@[simp] theorem holds_cons_succ (column : Nat) (key : String) (value : Atom) (tuple : Tuple) :
    holds (column + 1) key (value :: tuple) = holds column key tuple := rfl

/-- The positions of the tuples whose value in a column has a canonical text. -/
def positions (tuples : List Tuple) (column : Nat) (key : String) : List Nat :=
  (List.range tuples.length).filter fun i => tuples[i]?.any (holds column key)

/-- A further tuple takes the position after the others. -/
theorem positions_append (tuples : List Tuple) (tuple : Tuple) (column : Nat) (key : String) :
    positions (tuples ++ [tuple]) column key =
      positions tuples column key ++ if holds column key tuple then [tuples.length] else [] :=
  positionsOf_append (holds column key) tuples tuple

/-- The tuples at the positions of a column's value are those with that value. -/
theorem filterMap_positions (tuples : List Tuple) (column : Nat) (key : String) :
    (positions tuples column key).filterMap (tuples[·]?) = tuples.filter (holds column key) :=
  filterMap_positionsOf (holds column key) tuples

end Tuple

/-- For each column, the positions of tuples by the canonical text of their value. -/
abbrev ColumnIndexes := List (Index String)

namespace ColumnIndexes

/-- The positions of a value in a column. -/
def lookup (columns : ColumnIndexes) (column : Nat) (key : String) : Array Nat :=
  (columns[column]?.getD .empty).lookup key

/-- Adds the position of a tuple to the indexes of its columns. -/
def add (position : Nat) : ColumnIndexes → Tuple → ColumnIndexes
  | columns, [] => columns
  | [], value :: tuple => Index.empty.add value.canonical position :: add position [] tuple
  | column :: columns, value :: tuple =>
    column.add value.canonical position :: add position columns tuple

/-- Adding a tuple adds its position to those of each of its values. -/
theorem lookup_add (columns : ColumnIndexes) (position : Nat) (tuple : Tuple) (column : Nat)
    (key : String) :
    ((columns.add position tuple).lookup column key).toList =
      (columns.lookup column key).toList ++
        if tuple.holds column key then [position] else [] := by
  induction tuple generalizing columns column with
  | nil => cases columns <;> simp [add]
  | cons value tuple ih =>
    cases columns with
    | nil =>
      cases column with
      | zero =>
        by_cases h : value.canonical = key <;>
          simp [add, lookup, Index.lookup_add, h]
      | succ column => exact ih [] column
    | cons index columns =>
      cases column with
      | zero =>
        by_cases h : value.canonical = key <;>
          simp [add, lookup, Index.lookup_add, h]
      | succ column => exact ih columns column

/-- For each bound column of a pattern, the positions of the tuples that agree with it there. -/
def candidates : ColumnIndexes → TuplePattern → List (Array Nat)
  | _, [] => []
  | columns, none :: pattern => candidates columns.tail pattern
  | [], some _ :: pattern => #[] :: candidates [] pattern
  | column :: columns, some wanted :: pattern =>
    Index.lookup column wanted.canonical :: candidates columns pattern

/-- Each candidate belongs to a bound column. -/
theorem exists_of_mem_candidates {columns : ColumnIndexes} {pattern : TuplePattern}
    {positions : Array Nat} (h : positions ∈ columns.candidates pattern) :
    ∃ column wanted, pattern[column]? = some (some wanted) ∧
      positions = columns.lookup column wanted.canonical := by
  induction pattern generalizing columns with
  | nil => simp [candidates] at h
  | cons asked pattern ih =>
    have hrest : ∀ rest : ColumnIndexes, (∀ i, rest[i]? = columns[i + 1]?) →
        positions ∈ rest.candidates pattern →
        ∃ column wanted, (asked :: pattern)[column]? = some (some wanted) ∧
          positions = columns.lookup column wanted.canonical := by
      intro rest hget hmem
      obtain ⟨column, wanted, hp, hpos⟩ := ih hmem
      exact ⟨column + 1, wanted, by simpa using hp, by rw [hpos, lookup, lookup, hget]⟩
    cases asked with
    | none => exact hrest columns.tail (by simp) (by simpa [candidates] using h)
    | some wanted =>
      cases columns with
      | nil =>
        rcases List.mem_cons.1 (by simpa only [candidates] using h) with rfl | h
        · exact ⟨0, wanted, by simp, by simp [lookup]⟩
        · exact hrest [] (by simp) h
      | cons column columns =>
        rcases List.mem_cons.1 (by simpa only [candidates] using h) with rfl | h
        · exact ⟨0, wanted, by simp, by simp [lookup]⟩
        · exact hrest columns (by simp) h

end ColumnIndexes

/-- A sequence of different tuples. -/
structure Relation where
  tuples : Array Tuple
  keys : Std.HashSet String
  columns : ColumnIndexes
  mem_keys : ∀ key, key ∈ keys ↔ key ∈ tuples.toList.map tupleKey
  isDistinct : (tuples.toList.map tupleKey).Nodup
  lookup_columns : ∀ column key,
    (columns.lookup column key).toList = Tuple.positions tuples.toList column key

namespace Relation

/-- No tuples. -/
def empty : Relation where
  tuples := #[]
  keys := ∅
  columns := []
  mem_keys := by simp
  isDistinct := by simp
  lookup_columns := by simp [ColumnIndexes.lookup, Tuple.positions]

instance : Inhabited Relation := ⟨empty⟩

/-- Number of tuples. -/
def size (r : Relation) : Nat := r.tuples.size

/-- Whether there are no tuples. -/
def isEmpty (r : Relation) : Bool := r.tuples.isEmpty

/-- Whether a tuple is there. -/
def contains (r : Relation) (tuple : Tuple) : Bool := r.keys.contains (tupleKey tuple)

/-- A tuple is there when one with its key is. -/
theorem contains_iff {r : Relation} {tuple : Tuple} :
    r.contains tuple = true ↔ ∃ t ∈ r.tuples.toList, tupleKey t = tupleKey tuple := by
  rw [contains, Std.HashSet.contains_iff_mem, r.mem_keys, List.mem_map]

/-- Appends a tuple that is not there. -/
def push (r : Relation) (tuple : Tuple) (isNew : ¬ r.contains tuple) : Relation where
  tuples := r.tuples.push tuple
  keys := r.keys.insert (tupleKey tuple)
  columns := r.columns.add r.tuples.size tuple
  mem_keys := by
    intro key
    rw [Std.HashSet.mem_insert, r.mem_keys, beq_iff_eq, Array.toList_push, List.map_append,
      List.mem_append, List.map_singleton, List.mem_singleton, or_comm, eq_comm]
  isDistinct := by
    rw [Array.toList_push, List.map_append, List.map_singleton]
    refine List.nodup_append.2 ⟨r.isDistinct, by simp, ?_⟩
    rintro key hkey _ hnew rfl
    rw [List.mem_singleton.1 hnew, ← r.mem_keys, ← Std.HashSet.contains_iff_mem] at hkey
    exact isNew hkey
  lookup_columns := by
    intro column key
    rw [ColumnIndexes.lookup_add, r.lookup_columns, Array.toList_push, Tuple.positions_append,
      Array.length_toList]

/-- Inserts a tuple, and tells whether it is new. -/
def insert (r : Relation) (tuple : Tuple) : Bool × Relation :=
  if h : r.contains tuple then (false, r) else (true, r.push tuple h)

/-- Inserts tuples in order, and counts the new ones. -/
def insertEach (r : Relation) (tuples : List Tuple) : Nat × Relation :=
  tuples.foldl
    (fun (added, r) tuple =>
      let (isNew, r) := r.insert tuple
      (added + isNew.toNat, r))
    (0, r)

/-- Inserting several tuples is inserting the first and then the others. -/
theorem insertEach_cons (r : Relation) (tuple : Tuple) (rest : List Tuple) :
    r.insertEach (tuple :: rest) =
      ((r.insert tuple).1.toNat + ((r.insert tuple).2.insertEach rest).1,
        ((r.insert tuple).2.insertEach rest).2) := by
  have hfold : ∀ (tuples : List Tuple) (n : Nat) (r : Relation),
      tuples.foldl (fun (added, r) tuple =>
        let (isNew, r) := r.insert tuple
        (added + isNew.toNat, r)) (n, r) =
      (n + (r.insertEach tuples).1, (r.insertEach tuples).2) := by
    intro tuples
    induction tuples with
    | nil => exact fun n r => rfl
    | cons t tuples ih =>
      intro n r
      rw [insertEach, List.foldl_cons, List.foldl_cons]
      dsimp only
      rw [ih, ih, Nat.zero_add, Nat.add_assoc]
  rw [insertEach, List.foldl_cons]
  dsimp only
  rw [hfold, Nat.zero_add]

section Insert

variable {r : Relation} {tuple : Tuple}

/-- Inserting a tuple keeps the others, adds that one only, and one with its key is there. -/
theorem tuples_insert (r : Relation) (tuple : Tuple) :
    (∀ t ∈ r.tuples.toList, t ∈ (r.insert tuple).2.tuples.toList) ∧
      (∀ t ∈ (r.insert tuple).2.tuples.toList, t ∈ r.tuples.toList ∨ t = tuple) ∧
      ∃ t ∈ (r.insert tuple).2.tuples.toList, tupleKey t = tupleKey tuple := by
  unfold insert
  split
  · next h => exact ⟨fun _ ht => ht, fun _ ht => .inl ht, contains_iff.1 h⟩
  · simp only [push, Array.toList_push, List.mem_append, List.mem_singleton]
    exact ⟨fun _ ht => .inl ht, fun _ ht => ht, tuple, .inr rfl, rfl⟩

/-- A tuple is new when none with its key is there. -/
theorem insert_fst (r : Relation) (tuple : Tuple) : (r.insert tuple).1 = !r.contains tuple := by
  unfold insert
  split <;> simp [*]

/-- A new tuple goes to the end. -/
theorem toList_insert (r : Relation) (tuple : Tuple) :
    (r.insert tuple).2.tuples.toList =
      if r.contains tuple then r.tuples.toList else r.tuples.toList ++ [tuple] := by
  unfold insert
  split
  · rfl
  · rw [push, Array.toList_push]

/-- A tuple that is not new changes nothing. -/
theorem insert_of_not_new (h : (r.insert tuple).1 = false) : (r.insert tuple).2 = r := by
  unfold insert at h ⊢
  split
  · rfl
  · next hnew => rw [dif_neg hnew] at h; simp at h

variable {tuples : List Tuple}

/-- Inserting tuples keeps those that are there. -/
theorem mem_insertEach_of_mem {t : Tuple} (h : t ∈ r.tuples.toList) :
    t ∈ (r.insertEach tuples).2.tuples.toList := by
  induction tuples generalizing r with
  | nil => exact h
  | cons tuple rest ih =>
    rw [insertEach_cons]
    exact ih ((r.tuples_insert tuple).1 t h)

/-- Inserting tuples adds these only. -/
theorem mem_of_mem_insertEach {t : Tuple} (h : t ∈ (r.insertEach tuples).2.tuples.toList) :
    t ∈ r.tuples.toList ∨ t ∈ tuples := by
  induction tuples generalizing r with
  | nil => exact .inl h
  | cons tuple rest ih =>
    rw [insertEach_cons] at h
    rcases ih h with h | h
    · rcases (r.tuples_insert tuple).2.1 t h with h | rfl
      · exact .inl h
      · exact .inr List.mem_cons_self
    · exact .inr (List.mem_cons_of_mem _ h)

/-- After inserting tuples one with the key of each is there. -/
theorem exists_mem_insertEach (r : Relation) {t : Tuple} (h : t ∈ tuples) :
    ∃ t' ∈ (r.insertEach tuples).2.tuples.toList, tupleKey t' = tupleKey t := by
  induction tuples generalizing r with
  | nil => simp at h
  | cons tuple rest ih =>
    rw [insertEach_cons]
    rcases List.mem_cons.1 h with rfl | h
    · obtain ⟨t', ht', hkey⟩ := (r.tuples_insert t).2.2
      exact ⟨t', mem_insertEach_of_mem ht', hkey⟩
    · exact ih _ h

/-- Where no tuple is new, nothing changes. -/
theorem insertEach_of_zero (h : (r.insertEach tuples).1 = 0) : (r.insertEach tuples).2 = r := by
  induction tuples generalizing r with
  | nil => rfl
  | cons tuple rest ih =>
    rw [insertEach_cons] at h ⊢
    obtain ⟨hfirst, hrest⟩ := Nat.add_eq_zero_iff.1 h
    have hsame : (r.insert tuple).2 = r :=
      insert_of_not_new (by cases hnew : (r.insert tuple).1 <;> simp [hnew] at hfirst ⊢)
    rw [hsame] at hrest ⊢
    exact ih hrest

/-- Tuples with keys that are there are not new. -/
theorem insertEach_of_forall_contains (h : ∀ t ∈ tuples, r.contains t = true) :
    r.insertEach tuples = (0, r) := by
  induction tuples with
  | nil => rfl
  | cons tuple rest ih =>
    rw [List.forall_mem_cons] at h
    rw [insertEach_cons, insert, dif_pos h.1, ih h.2]
    rfl

/-- What inserting tuples does depends on the tuples that are there only. -/
theorem insertEach_congr {r' : Relation} (h : r.tuples.toList = r'.tuples.toList)
    (tuples : List Tuple) : (r.insertEach tuples).1 = (r'.insertEach tuples).1 ∧
      (r.insertEach tuples).2.tuples.toList = (r'.insertEach tuples).2.tuples.toList := by
  induction tuples generalizing r r' with
  | nil => exact ⟨rfl, h⟩
  | cons tuple rest ih =>
    have hcontains : r.contains tuple = r'.contains tuple := by
      rw [Bool.eq_iff_iff, contains_iff, contains_iff, h]
    have hinsert : (r.insert tuple).2.tuples.toList = (r'.insert tuple).2.tuples.toList := by
      rw [toList_insert, toList_insert, hcontains, h]
    obtain ⟨hcount, htuples⟩ := ih hinsert
    rw [insertEach_cons, insertEach_cons, insert_fst, insert_fst, hcontains, hcount]
    exact ⟨rfl, htuples⟩

/-- After inserting a tuple the tuples with its key are there, and those that were. -/
theorem contains_insert (r : Relation) (tuple t : Tuple) :
    (r.insert tuple).2.contains t = (r.contains t || tupleKey t = tupleKey tuple) := by
  unfold insert
  split
  · next h =>
    have hcontains : tupleKey t = tupleKey tuple → r.contains t = true := by
      intro hkey
      rwa [contains, hkey]
    simpa using hcontains
  · rw [contains, push, Std.HashSet.contains_insert, Bool.or_comm, contains, Bool.beq_eq_decide_eq,
      decide_eq_decide.2 eq_comm]

/-- Inserting tuples appends the first with each key that is not there. -/
theorem toList_insertEach (r : Relation) (tuples : List Tuple) :
    (r.insertEach tuples).2.tuples.toList = r.tuples.toList ++
      (tuples.filter fun t => !r.contains t).eraseDupsBy fun t u => tupleKey t = tupleKey u := by
  induction tuples generalizing r with
  | nil => exact (List.append_nil _).symm
  | cons tuple rest ih =>
    rw [insertEach_cons]
    dsimp only
    rw [ih, toList_insert]
    cases h : r.contains tuple with
    | true =>
      rw [insert, dif_pos h, List.filter_cons_of_neg (by simp [h])]
      rfl
    | false =>
      have hfilter : ∀ t, (!(r.insert tuple).2.contains t) =
          (decide (decide (tupleKey t = tupleKey tuple) = false) && !r.contains t) := by
        intro t
        rw [contains_insert, Bool.not_or, Bool.and_comm, Bool.decide_eq_false]
      rw [List.filter_cons_of_pos (by simp [h]), List.eraseDupsBy_cons, List.filter_filter,
        List.filter_congr fun t _ => hfilter t, if_neg (by simp), List.append_assoc]
      rfl

/-- Inserting tuples leaves those that are there in front. -/
theorem isPrefix_insertEach (r : Relation) (tuples : List Tuple) :
    r.tuples.toList <+: (r.insertEach tuples).2.tuples.toList :=
  ⟨_, (r.toList_insertEach tuples).symm⟩

/-- Tuples with keys of their own are appended. -/
theorem tuples_insertEach_of_nodup (h : ((r.tuples.toList ++ tuples).map tupleKey).Nodup) :
    (r.insertEach tuples).2.tuples.toList = r.tuples.toList ++ tuples := by
  induction tuples generalizing r with
  | nil => exact (List.append_nil _).symm
  | cons tuple rest ih =>
    have hnew : ¬ r.contains tuple = true := by
      rw [contains_iff]
      rintro ⟨t, ht, hkey⟩
      rw [List.map_append, List.nodup_append] at h
      exact h.2.2 _ (List.mem_map_of_mem ht) _ (List.mem_map_of_mem List.mem_cons_self) hkey
    have hpush : (r.insert tuple).2.tuples.toList = r.tuples.toList ++ [tuple] := by
      rw [toList_insert, if_neg hnew]
    rw [insertEach_cons]
    dsimp only
    rw [ih, hpush, List.append_assoc, List.singleton_append]
    rwa [hpush, List.append_assoc, List.singleton_append]

end Insert

/-- The relation of the given tuples. -/
def ofTuples (tuples : List Tuple) : Relation := (empty.insertEach tuples).2

/-- The relation of tuples with keys of their own holds them in order. -/
theorem tuples_ofTuples_of_nodup {tuples : List Tuple} (h : (tuples.map tupleKey).Nodup) :
    (ofTuples tuples).tuples.toList = tuples :=
  tuples_insertEach_of_nodup h

/-- The first of the shortest arrays. -/
def shortest? : List (Array Nat) → Option (Array Nat)
  | [] => none
  | a :: rest => some (rest.foldl (fun best b => if b.size < best.size then b else best) a)

/-- The tuples that a pattern fits, in their order. -/
def matching (r : Relation) (pattern : TuplePattern) : List Tuple :=
  match shortest? (r.columns.candidates pattern) with
  | some positions => (positions.toList.filterMap (r.tuples[·]?)).filter pattern.fits
  -- no column is bound
  | none => r.tuples.toList.filter pattern.fits

/-- The shortest of some arrays is one of them. -/
theorem mem_of_shortest? {arrays : List (Array Nat)} {a : Array Nat}
    (h : shortest? arrays = some a) : a ∈ arrays := by
  cases arrays with
  | nil => simp [shortest?] at h
  | cons b rest =>
    have hfold : ∀ (rest : List (Array Nat)) (best : Array Nat),
        rest.foldl (fun best b => if b.size < best.size then b else best) best ∈ best :: rest := by
      intro rest
      induction rest with
      | nil => simp
      | cons c rest ih =>
        intro best
        rw [List.foldl_cons]
        split
        · exact List.mem_cons_of_mem _ (ih c)
        · rcases List.mem_cons.1 (ih best) with h | h
          · rw [h]
            exact List.mem_cons_self
          · exact List.mem_cons_of_mem _ (List.mem_cons_of_mem _ h)
    rw [← Option.some.inj h]
    exact hfold rest b

/-- Walking an index gives what going through all tuples gives. -/
theorem matching_eq_filter (r : Relation) (pattern : TuplePattern) :
    r.matching pattern = r.tuples.toList.filter pattern.fits := by
  unfold matching
  split
  · next positions hshortest =>
    obtain ⟨column, wanted, hp, rfl⟩ :=
      ColumnIndexes.exists_of_mem_candidates (mem_of_shortest? hshortest)
    have hget : (fun i : Nat => r.tuples[i]?) = fun i => r.tuples.toList[i]? := by
      funext i
      exact Array.getElem?_toList.symm
    rw [r.lookup_columns, hget, Tuple.filterMap_positions, List.filter_filter]
    refine List.filter_congr fun tuple _ => ?_
    -- a tuple that fits has the value by which the index was chosen
    by_cases hfits : pattern.fits tuple = true
    · have hvalue := TuplePattern.getElem?_of_fits hfits hp
      obtain ⟨value, hvalue, hkey⟩ := Option.map_eq_some_iff.1 hvalue
      simp [hfits, Tuple.holds, hvalue, hkey]
    · simp [hfits]
  · rfl

end Relation

end Factbase
