import Factbase.Atom
import Factbase.Ordered
import Factbase.Text.Quoted

/-! # Terms and literals

A `Literal` applies a `Predicate` to terms, each a variable or a constant. The predicates are the
relations of facts and of links, a closed set of filters, and the relations that rules derive, which
have any other name.

`Predicate.ofName` finds the predicate of a name, `Literal.display` writes a literal so that
strings and timestamps stand in quotes. -/

namespace Factbase

/-- A variable or a constant. -/
inductive Term where
  | var (name : String)
  | const (value : Atom)
deriving DecidableEq, Inhabited

/-- The comparison operators. -/
inductive Comparison where
  | gt
  | lt
  | gte
  | lte
  | eq
  | neq
deriving DecidableEq, Repr

/-- What a literal asserts of its terms. -/
inductive Predicate where
  /-- The relation of facts: entity, attribute, value. -/
  | attr
  /-- The relation of links: source, label, target. -/
  | link
  | compare (op : Comparison)
  /-- A value between two bounds, both included. -/
  | between
  /-- A value among alternatives. -/
  | member
  | regex
  | contains
  /-- A date later than another. -/
  | after
  /-- A date between two others, both included. -/
  | betweenDate
  /-- A relation that rules derive. -/
  | derived (name : String)
deriving DecidableEq, Inhabited

/-- A predicate applied to terms. -/
structure Literal where
  predicate : Predicate
  terms : List Term
deriving DecidableEq, Inhabited

/-- A name of a variable without its leading question mark. -/
def variableName (written : String) : String :=
  match written.toList with
  | '?' :: rest => String.ofList rest
  | _ => written

namespace Term

/-- The variable of a written name. -/
def ofName (written : String) : Term := .var (variableName written)

/-- The name of a variable. -/
def var? : Term → Option String
  | .var name => some name
  | .const _ => none

/-- The term in a rule text. -/
def display : Term → String
  | .var name => "?" ++ name
  | .const (.text s) => Text.quote s
  | .const (.timestamp t) => Text.quote t.rfc3339
  | .const a => a.display

end Term

namespace Comparison

/-- The operator as written between two terms. -/
def symbol : Comparison → String
  | .gt => ">"
  | .lt => "<"
  | .gte => ">="
  | .lte => "<="
  | .eq => "="
  | .neq => "!="

/-- The operator as written before its terms. -/
def word : Comparison → String
  | .gt => "gt"
  | .lt => "lt"
  | .gte => "gte"
  | .lte => "lte"
  | .eq => "eq"
  | .neq => "neq"

end Comparison

namespace Predicate

/-- The predicate of a name; a name that is not built in is that of a derived relation. -/
def ofName (name : String) : Predicate :=
  match name with
  | "attr" => .attr
  | "link" => .link
  | "gt" | ">" => .compare .gt
  | "lt" | "<" => .compare .lt
  | "gte" | ">=" => .compare .gte
  | "lte" | "<=" => .compare .lte
  | "eq" | "=" | "==" => .compare .eq
  | "neq" | "!=" => .compare .neq
  | "between" => .between
  | "in" => .member
  | "regex" => .regex
  | "contains" => .contains
  | "after" => .after
  | "betweenDate" => .betweenDate
  | other => .derived other

/-- The name of a predicate. -/
def name : Predicate → String
  | .attr => "attr"
  | .link => "link"
  | .compare op => op.symbol
  | .between => "between"
  | .member => "in"
  | .regex => "regex"
  | .contains => "contains"
  | .after => "after"
  | .betweenDate => "betweenDate"
  | .derived name => name

/-- Whether the predicate is looked up in a relation, and so may bind variables. -/
def isRelation : Predicate → Bool
  | .attr => true
  | .link => true
  | .derived _ => true
  | _ => false

/-- Whether the predicate is not derived by rules. -/
def isBuiltIn : Predicate → Bool
  | .derived _ => false
  | _ => true

end Predicate

namespace Literal

/-- The literal of a named predicate. -/
def named (name : String) (terms : List Term) : Literal := ⟨.ofName name, terms⟩

/-- The variables of the literal, in order of first appearance. -/
def variableNames (l : Literal) : List String := distinctBy id (l.terms.filterMap Term.var?)

/-- The variables of a literal are those among its terms. -/
@[simp] theorem mem_variableNames {l : Literal} {name : String} :
    name ∈ l.variableNames ↔ Term.var name ∈ l.terms := by
  have hmem : name ∈ l.variableNames ↔ name ∈ l.terms.filterMap Term.var? := by
    constructor
    · exact mem_of_mem_distinctBy
    · intro h
      obtain ⟨other, hother, rfl⟩ := exists_mem_distinctBy id h
      exact hother
  rw [hmem, List.mem_filterMap]
  constructor
  · rintro ⟨t, ht, hvar⟩
    cases t with
    | var other =>
      obtain rfl : other = name := by simpa [Term.var?] using hvar
      exact ht
    | const value => simp [Term.var?] at hvar
  · exact fun h => ⟨.var name, h, rfl⟩

/-- The literal in a rule text. -/
def display (l : Literal) : String :=
  l.predicate.name ++ "(" ++ ", ".intercalate (l.terms.map Term.display) ++ ")"

end Literal

end Factbase
