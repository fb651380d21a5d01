import Factbase.Atom

/-! # Sort order of atoms

Values sort by class: everything that holds a number, then everything that holds an instant, then
the other texts, truth values, and null. `SortKey` is a class with what is compared inside it;
classes never interleave. -/

namespace Factbase

/-- The class of a value in the sort order, with what is compared inside the class. -/
inductive SortKey where
  | number (value : Float)
  | instant (value : Timestamp)
  | text (value : String)
  | bool (value : Bool)
  | null

namespace SortKey

/-- Place of the class among the classes. -/
def classRank : SortKey → Nat
  | .number _ => 0
  | .instant _ => 1
  | .text _ => 2
  | .bool _ => 3
  | .null => 4

/-- Order of sort keys: inside a class by value, else by class. -/
def order : SortKey → SortKey → Ordering
  | .number x, .number y => Number.totalOrder x y
  | .instant s, .instant t => s.order t
  | .text a, .text b => compare a b
  | .bool a, .bool b => compare a.toNat b.toNat
  | a, b => compare a.classRank b.classRank

end SortKey

namespace Atom

/-- Sort key of a value. Every number has a place, the infinite ones and NaN too. -/
def sortKey : Atom → SortKey
  | .null => .null
  | .bool b => .bool b
  | .number x => .number x
  | .timestamp t => .instant t
  | .text s =>
    match number? (.text s) with
    | some x => .number x
    | none =>
      match instant? (.text s) with
      | some t => .instant t
      | none => .text s

/-- Sort order of values. -/
def order (a b : Atom) : Ordering := a.sortKey.order b.sortKey

/-- Whether `a` may stand before `b` in sorted order. -/
def sortsBefore (a b : Atom) : Bool := a.order b != .gt

/-- Sorts values; equal ones keep their order. -/
def sort (atoms : List Atom) : List Atom := atoms.mergeSort sortsBefore

end Atom

end Factbase
