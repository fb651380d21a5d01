import Factbase.Json

/-! # Evaluation plans

A `Plan` tells how a query was evaluated: how much there was to do, and whether it came to an
end. -/

namespace Factbase

/-- How a query was evaluated. -/
structure Plan where
  goals : Nat
  rules : Nat
  strata : Nat
  iterations : Nat
  derived : Nat
  converged : Bool
deriving DecidableEq, Repr

namespace Plan

/-- A count with its noun, which takes an `s` unless the count is one. -/
def counted (n : Nat) (noun : String) : String :=
  toString n ++ " " ++ noun ++ (if n = 1 then "" else "s")

/-- The plan in one line. -/
def display (p : Plan) : String :=
  counted p.goals "goal" ++ ", " ++ counted p.rules "rule" ++ " in " ++ toString p.strata ++
    (if p.strata = 1 then " stratum" else " strata") ++ ", " ++
    counted p.iterations "iteration" ++ ", " ++ counted p.derived "derived tuple" ++ ", " ++
    (if p.converged then "converged" else "iteration limit reached")

/-- The plan as a record. -/
def encode (p : Plan) : Json :=
  Json.ofMembers
    [("goalCount", .ofNat p.goals), ("ruleCount", .ofNat p.rules), ("strata", .ofNat p.strata),
      ("iterations", .ofNat p.iterations), ("derivedTuples", .ofNat p.derived),
      ("converged", .bool p.converged)]

end Plan

end Factbase
