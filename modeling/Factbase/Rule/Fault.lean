import Factbase.Goal

/-! # What can be wrong with rules

`ReadFault` is why a rule text cannot be read, `RuleFault` why a rule is rejected, and `RuleError`
collects everything that can go wrong with rules, with one wording each. -/

namespace Factbase

/-- Why a rule text cannot be read at some point. -/
inductive ReadFault where
  | missing (c : Char)
  | trailingInput
  | noPredicate
  | noTerm
  | noVariable
  | noComparison
  | unterminatedText
  | invalidNumber (written : String)
deriving DecidableEq, Repr

/-- Why a rule is rejected. -/
inductive RuleFault where
  /-- The head is not a derived relation. -/
  | builtInHead (predicate : String)
  /-- A variable of the head need not be bound by the body. -/
  | unboundVariable (name : String)
  /-- An earlier rule derives the same relation with another number of terms. -/
  | arity (predicate : String) (expected actual : Nat)
deriving DecidableEq, Repr

/-- What can go wrong with rules. -/
inductive RuleError where
  | rejected (fault : RuleFault) (rule : Rule)
  /-- A relation depends on its own negation, along the given relations. -/
  | unstratified (cycle : List String)
  /-- A text cannot be read at a byte offset, where a character or the end was found. -/
  | unreadable (offset : Nat) (fault : ReadFault) (found : Option Char)
  /-- A solution of a body leaves a term of the head without value. -/
  | unboundHead (term : Term) (rule : Rule)
  /-- The levels of the relations did not settle. -/
  | unsettledStrata
deriving Inhabited

namespace ReadFault

/-- What is wrong. -/
def reason : ReadFault → String
  | .missing c => "expected `" ++ String.singleton c ++ "`"
  | .trailingInput => "unexpected trailing input"
  | .noPredicate => "expected a predicate name"
  | .noTerm => "expected a term"
  | .noVariable => "expected a variable name after `?`"
  | .noComparison => "expected a comparison operator"
  | .unterminatedText => "unterminated string literal"
  | .invalidNumber written => "invalid number `" ++ written ++ "`"

/-- Whether the message says what was found instead. -/
def namesFound : ReadFault → Bool
  | .unterminatedText => false
  | .invalidNumber _ => false
  | _ => true

/-- The message of a fault. -/
def message (fault : ReadFault) (found : Option Char) : String :=
  if fault.namesFound then
    fault.reason ++ ", found " ++
      match found with
      | some c => "`" ++ String.singleton c ++ "`"
      | none => "end of input"
  else fault.reason

end ReadFault

namespace RuleFault

/-- The message of a fault. -/
def message : RuleFault → String
  | .builtInHead predicate => "rule head cannot use built-in predicate `" ++ predicate ++ "`"
  | .unboundVariable name => "head variable ?" ++ name ++ " is not bound by the body"
  | .arity predicate expected actual =>
    "arity mismatch for `" ++ predicate ++ "`: expected " ++ toString expected ++ " args, got " ++
      toString actual

end RuleFault

namespace RuleError

/-- The message of an error. -/
def message : RuleError → String
  | .rejected (.unboundVariable name) rule =>
    "unsafe rule `" ++ rule.display ++ "`: variable ?" ++ name ++
      " in the head is not bound by a positive body literal"
  | .rejected fault rule => "invalid rule: " ++ fault.message ++ " in `" ++ rule.display ++ "`"
  | .unstratified cycle =>
    "rules are not stratifiable: negation in cycle " ++ " -> ".intercalate cycle
  | .unreadable offset fault found =>
    "syntax error at offset " ++ toString offset ++ ": " ++ fault.message found
  | .unboundHead term rule =>
    "internal error: head term " ++ term.display ++ " unbound after solving `" ++ rule.display ++
      "`"
  | .unsettledStrata => "internal error: stratum assignment did not converge"

end RuleError

end Factbase
