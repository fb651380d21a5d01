import Factbase.Find.Compile
import Factbase.Find.Reader

/-! # From query texts to goals

`process` reads a query text, resolves the attributes that it names, and compiles it. A text with
errors gives these and nothing else. -/

namespace Factbase.Find

/-- A query text that was read. -/
structure Processed where
  compiled : Compiled
  /-- What became of the attributes that are not known as written. -/
  warnings : List String

/-- The resolutions of the attributes that a query names, in order. Where no attribute is known,
nothing is resolved. -/
def resolutions (resolver : Resolver) (known : List String) (q : Query) :
    List (String × Resolution) :=
  if known.isEmpty then [] else q.attributes.map fun attr => (attr, resolver.resolve known attr)

/-- Reads and compiles a query text. -/
def process (options : CompilerOptions) (resolver : Resolver) (known : List String)
    (text : String) : Except (List Error) Processed := do
  let q ← Query.parse text
  let resolved := resolutions resolver known q
  let aliases := resolved.filterMap fun r => r.2.alias? r.1
  return ⟨q.compile options aliases, resolved.filterMap fun r => r.2.warning? r.1⟩

end Factbase.Find
