import Factbase.Pattern.Reader
import Factbase.Pattern.Search
import Std.Data.HashMap

/-! # Matchers

A `Matcher` decides whether a text matches what a user wrote: a pattern, or `/pattern/options`. What
is no pattern is looked for as a part of the text, without regard to case.

A `PatternCache` keeps the matchers that were compiled before, by what was written. -/

namespace Factbase

/-- Decides whether a text matches. -/
inductive Matcher where
  | pattern (p : Pattern)
  /-- Looks for a text in lower case. -/
  | substring (needle : List Char)

/-- Whether a text is part of another. -/
def isPartOf (needle : List Char) : List Char → Bool
  | [] => needle.isEmpty
  | c :: rest => needle.isPrefixOf (c :: rest) || isPartOf needle rest

/-- Letters that may follow the closing slash. -/
def isOptionLetter (c : Char) : Bool := ['i', 'm', 's', 'x', 'g', 'u'].contains c

/-- The body and the option letters of `/body/options`, divided at the last slash. -/
def splitDelimited (written : List Char) : Option (List Char × List Char) :=
  match written with
  | '/' :: rest =>
    -- read backwards, the letters come first and end at the last slash
    match rest.reverse.span (· != '/') with
    | (letters, _ :: body) =>
      if letters.all isOptionLetter then some (body.reverse, letters.reverse) else none
    | (_, []) => none
  | _ => none

/-- The options that letters stand for. -/
def Pattern.Options.ofLetters (letters : List Char) : Pattern.Options :=
  { Pattern.Options.plain with
    caseless := letters.contains 'i'
    multiLine := letters.contains 'm'
    dotAll := letters.contains 's'
    spaced := letters.contains 'x' }

namespace Matcher

/-- The matcher for what a user wrote. -/
def compile (written : String) : Matcher :=
  let (body, letters) := (splitDelimited written.toList).getD (written.toList, [])
  match Pattern.parse? (.ofLetters letters) body with
  | some p => .pattern p
  | none => .substring (Text.lowercase body)

/-- Whether a text matches. -/
def isMatch (m : Matcher) (text : String) : Bool :=
  match m with
  | .pattern p => p.occursIn text.toList
  | .substring needle => isPartOf needle (Text.lowercase text.toList)

end Matcher

/-- Matchers by what was written. -/
structure PatternCache where
  matchers : Std.HashMap String Matcher
  /-- Each text stands with the matcher that is compiled from it. -/
  isCompiled : ∀ written m, matchers[written]? = some m → m = Matcher.compile written

namespace PatternCache

/-- No matchers. -/
def empty : PatternCache := ⟨∅, by simp⟩

instance : Inhabited PatternCache := ⟨empty⟩

/-- Number of matchers. -/
def size (cache : PatternCache) : Nat := cache.matchers.size

/-- Whether there are no matchers. -/
def isEmpty (cache : PatternCache) : Bool := cache.matchers.isEmpty

/-- Adds the matcher for what was written. -/
def add (cache : PatternCache) (written : String) (m : Matcher)
    (h : m = Matcher.compile written) : PatternCache where
  matchers := cache.matchers.insert written m
  isCompiled := by
    intro other m' h'
    rw [Std.HashMap.getElem?_insert] at h'
    split at h'
    · next heq =>
      rw [← eq_of_beq heq, ← h]
      exact (Option.some.inj h').symm
    · exact cache.isCompiled other m' h'

/-- The matcher for what was written, compiled unless it is there. -/
def get (cache : PatternCache) (written : String) : Matcher × PatternCache :=
  match cache.matchers[written]? with
  | some m => (m, cache)
  | none =>
    let m := Matcher.compile written
    (m, cache.add written m rfl)

/-- The cache saves work only: it gives the matcher that compiling would give. -/
@[simp] theorem get_fst (cache : PatternCache) (written : String) :
    (cache.get written).1 = Matcher.compile written := by
  unfold get
  split
  · next h => exact cache.isCompiled _ _ h
  · rfl

end PatternCache

end Factbase
