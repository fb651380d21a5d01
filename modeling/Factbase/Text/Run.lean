/-! # Runs of code points

A Unicode property is a set of code points that falls into few runs: `Run` is the code points
from `first` to `last` in steps of `step`, and a property is an array of runs in increasing order.
`Run.readAll` reads such an array from the compact form used by the tables of this library
(`41-5A 100-136/2 AA`, in hexadecimal), and `Runs.has` finds a code point by halving.

A `Shift` is a run whose members are all moved by one amount; case mappings are arrays of shifts. -/

namespace Factbase.Text

/-- Code points from `first` to `last` in steps of `step`. -/
structure Run where
  first : Nat
  last : Nat
  step : Nat
deriving DecidableEq, Repr

/-- A run whose members are all moved by `amount`. -/
structure Shift where
  run : Run
  amount : Int
deriving DecidableEq, Repr

/-- Blank-separated words. -/
def words (text : List Char) : List (List Char) :=
  (text.foldr (fun c acc =>
    if c == ' ' || c == '\n' then [] :: acc
    else match acc with
      | [] => [[c]]
      | w :: ws => (c :: w) :: ws) [[]]).filter (· ≠ [])

/-- Value of a hexadecimal digit, zero for any other character. -/
def hexDigit (c : Char) : Nat :=
  if '0' ≤ c ∧ c ≤ '9' then c.toNat - 48
  else if 'A' ≤ c ∧ c ≤ 'F' then c.toNat - 55
  else if 'a' ≤ c ∧ c ≤ 'f' then c.toNat - 87
  else 0

/-- Value of a hexadecimal numeral. -/
def hexValue (digits : List Char) : Nat := digits.foldl (fun n c => 16 * n + hexDigit c) 0

namespace Run

/-- Whether `n` is a member. -/
def has (r : Run) (n : Nat) : Bool :=
  r.first ≤ n && n ≤ r.last && (n - r.first) % r.step == 0

/-- Reads `41-5A`, `100-136/2` or `AA`. -/
def read (word : List Char) : Run :=
  let (range, step) := word.span (· != '/')
  let (first, last) := range.span (· != '-')
  { first := hexValue first
    last := if last.isEmpty then hexValue first else hexValue (last.drop 1)
    step := if step.isEmpty then 1 else hexValue (step.drop 1) }

/-- Reads the runs of a table, separated by blanks. -/
def readAll (table : String) : Array Run := ((words table.toList).map read).toArray

end Run

namespace Shift

/-- Where the shift sends `n`, a member of its run. -/
def target (s : Shift) (n : Nat) : Nat := (n + s.amount).toNat

/-- The member of the run that the shift sends to `n`. -/
def source? (s : Shift) (n : Nat) : Option Nat :=
  let m := (n - s.amount).toNat
  if s.run.has m then some m else none

/-- Reads `41-5A:20` or, for a shift downwards, `178:-79`. -/
def read (word : List Char) : Shift :=
  let (run, amount) := word.span (· != ':')
  { run := Run.read run
    amount := match amount.drop 1 with
      | '-' :: digits => - hexValue digits
      | digits => hexValue digits }

/-- Reads the shifts of a table, separated by blanks. -/
def readAll (table : String) : Array Shift := ((words table.toList).map read).toArray

end Shift

namespace Runs

/-- Halving between the positions `lo` and `hi` of an increasing array. -/
def search (runs : Array Run) (n lo hi : Nat) : Bool :=
  if _h : lo < hi then
    let mid := (lo + hi) / 2
    match runs[mid]? with
    | none => false
    | some r =>
      if n < r.first then search runs n lo mid
      else if r.last < n then search runs n (mid + 1) hi
      else r.has n
  else false
termination_by hi - lo
decreasing_by all_goals omega

/-- Whether `n` is a member of one of the runs, which stand in increasing order. -/
def has (runs : Array Run) (n : Nat) : Bool := search runs n 0 runs.size

end Runs

end Factbase.Text
