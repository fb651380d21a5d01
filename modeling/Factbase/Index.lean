import Std.Data.HashMap

/-! # Indexes

An `Index` tells at which positions of a sequence a key occurs. Positions are added as the sequence
grows, so those of a key stand in increasing order, and `Index.select` gives the records with a key
in the order of the sequence. What an index should have for a key are the positions that
`positionsOf` finds by going through the sequence. -/

namespace Factbase

/-- The positions of the records of which something holds, in increasing order. -/
def positionsOf {α : Type} (p : α → Bool) (records : List α) : List Nat :=
  (List.range records.length).filter fun i => records[i]?.any p

/-- A further record takes the position after the others. -/
theorem positionsOf_append {α : Type} (p : α → Bool) (records : List α) (record : α) :
    positionsOf p (records ++ [record]) =
      positionsOf p records ++ if p record then [records.length] else [] := by
  unfold positionsOf
  rw [List.length_append, List.length_singleton, List.range_succ, List.filter_append]
  congr 1
  · refine List.filter_congr fun i hi => ?_
    rw [List.getElem?_append_left (List.mem_range.1 hi)]
  · simp [List.filter_cons]

/-- The records at the positions where something holds are those of which it holds. -/
theorem filterMap_positionsOf {α : Type} (p : α → Bool) (records : List α) :
    (positionsOf p records).filterMap (records[·]?) = records.filter p := by
  suffices h : ∀ n, n ≤ records.length →
      ((List.range n).filter fun i => records[i]?.any p).filterMap (records[·]?) =
        (records.take n).filter p by
    have hall := h records.length (Nat.le_refl _)
    rwa [List.take_length] at hall
  intro n
  induction n with
  | zero => simp
  | succ n ih =>
    intro hn
    have hget : records[n]? = some records[n] := List.getElem?_eq_getElem hn
    rw [List.range_succ, List.filter_append, List.filterMap_append, ih (Nat.le_of_lt hn),
      List.take_add_one, List.filter_append]
    congr 1
    by_cases h : p records[n] <;> simp [hget, h]

/-- Positions of records by a key, in increasing order. -/
structure Index (κ : Type) [BEq κ] [Hashable κ] where
  positions : Std.HashMap κ (Array Nat)

namespace Index

variable {κ : Type} [BEq κ] [Hashable κ]

/-- No positions. -/
def empty : Index κ := ⟨∅⟩

/-- The positions of a key. -/
def lookup (index : Index κ) (key : κ) : Array Nat := index.positions.getD key #[]

/-- Adds a position to those of a key. -/
def add (index : Index κ) (key : κ) (position : Nat) : Index κ :=
  ⟨index.positions.insert key ((index.lookup key).push position)⟩

@[simp] theorem lookup_empty (key : κ) : (empty : Index κ).lookup key = #[] := by
  simp [lookup, empty]

/-- Adding a position changes the positions of its own key only. -/
theorem lookup_add [LawfulBEq κ] [LawfulHashable κ] (index : Index κ) (key : κ) (position : Nat)
    (other : κ) :
    (index.add key position).lookup other =
      if key == other then (index.lookup key).push position else index.lookup other := by
  simp [lookup, add, Std.HashMap.getD_insert]

/-- The keys, in no particular order. -/
def keys (index : Index κ) : List κ := index.positions.keys

/-- The records of an array at the positions of a key. -/
def select {α : Type} (index : Index κ) (records : Array α) (key : κ) : List α :=
  (index.lookup key).toList.filterMap (records[·]?)

end Index

end Factbase
