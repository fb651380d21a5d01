import Factbase.Atom.Codec
import Factbase.Literal

/-! # Bindings

A `Binding` gives values to some variables. Two bindings agree when the values of every variable
that both bind have the same canonical text; `unify` and `merge` succeed exactly on agreement.

The entries stand in the order of their variables, each variable once, so that bindings with the
same values are equal and have the same canonical text. -/

namespace Factbase

/-- Values of variables. -/
structure Binding where
  entries : List (String × Atom)
  isOrdered : IsOrdered entries

namespace Binding

/-- The binding of no variable. -/
def empty : Binding := ⟨[], List.Pairwise.nil⟩

instance : Inhabited Binding := ⟨empty⟩

/-- The value of a variable. -/
def get? (b : Binding) (name : String) : Option Atom := b.entries.lookup name

/-- Whether a variable has a value. -/
def contains (b : Binding) (name : String) : Bool := (b.get? name).isSome

/-- Number of variables with a value. -/
def size (b : Binding) : Nat := b.entries.length

/-- Gives a variable a value, whether or not it had one. -/
def insert (b : Binding) (name : String) (value : Atom) : Binding :=
  ⟨putEntry name value b.entries, b.isOrdered.putEntry name value⟩

@[simp] theorem get?_empty (name : String) : empty.get? name = none := rfl

/-- Binding a variable changes its own value only. -/
theorem get?_insert (b : Binding) (name : String) (value : Atom) (other : String) :
    (b.insert name value).get? other = if other = name then some value else b.get? other :=
  lookup_putEntry name value other b.entries

/-- The binding with the given entries; of two for one variable the later wins. -/
def ofEntries (entries : List (String × Atom)) : Binding :=
  entries.foldl (fun b e => b.insert e.1 e.2) empty

/-- The value of a term: a constant is its own value. -/
def resolve (b : Binding) : Term → Option Atom
  | .const value => some value
  | .var name => b.get? name

/-- Binds a variable in place, unless it already has another value; tells whether it has the value
now. -/
def unify (b : Binding) (name : String) (value : Atom) : Bool × Binding :=
  match b.get? name with
  | some bound => (bound.canonical = value.canonical, b)
  | none => (true, b.insert name value)

/-- The binding with a variable bound to a value, unless it already has another one. -/
def unify? (b : Binding) (name : String) (value : Atom) : Option Binding :=
  match b.unify name value with
  | (true, c) => some c
  | (false, _) => none

/-- Unification gives the binding itself where the variable has the value, else one more entry. -/
theorem unify?_def (b : Binding) (name : String) (value : Atom) :
    b.unify? name value =
      match b.get? name with
      | some bound => if bound.canonical = value.canonical then some b else none
      | none => some (b.insert name value) := by
  unfold unify? unify
  cases b.get? name with
  | some bound => by_cases h : bound.canonical = value.canonical <;> simp [h]
  | none => rfl

/-- Binds further variables, as long as they agree. -/
def unifyEach? (b : Binding) (entries : List (String × Atom)) : Option Binding :=
  entries.foldlM (fun b e => b.unify? e.1 e.2) b

/-- The binding of the variables of both, if the two agree. -/
def merge? (b other : Binding) : Option Binding := b.unifyEach? other.entries

/-- The binding of the given variables only. -/
def restrict (b : Binding) (names : List String) : Binding :=
  ⟨b.entries.filter fun e => names.contains e.1, b.isOrdered.filter _⟩

/-- Restricting a binding takes away the values of the other variables. -/
theorem get?_restrict (b : Binding) (names : List String) (name : String) :
    (b.restrict names).get? name = if name ∈ names then b.get? name else none := by
  ext value
  rw [get?, ← (b.restrict names).isOrdered.mem_iff_lookup, restrict, List.mem_filter,
    b.isOrdered.mem_iff_lookup, List.contains_iff_mem, get?]
  split
  · next hname => simp [hname]
  · next hname => simp [hname]

/-- Ends each entry of the canonical text of a binding. -/
def recordSeparator : String := String.singleton (Char.ofNat 0x1E)

/-- The text by which a set of bindings tells its members apart. -/
def canonical (b : Binding) : String :=
  String.join (b.entries.map fun e => e.1 ++ "=" ++ e.2.canonical ++ recordSeparator)

/-- The binding as a record. -/
def encode (b : Binding) : Json := Json.ofMembers (b.entries.map fun e => (e.1, e.2.encode))

end Binding

end Factbase
