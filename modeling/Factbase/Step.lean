import Factbase.Engine.Codec

/-! # Query steps

A `QueryStep` answers one query text over rows: it loads them as entities of a type into a new
engine, with the rules of a text if there is one. Steps share nothing. -/

namespace Factbase

/-- A query over rows. -/
structure QueryStep where
  entityType : String
  query : String
  rules : Option String
  config : EngineConfig

namespace QueryStep

/-- The answer over some rows. The rows are looked at first, then the rules, then the query. -/
def run (s : QueryStep) (rows : List Json) : Except EngineError QueryOutput := do
  let engine ← (Engine.empty s.config).addRows s.entityType rows
  match s.rules with
  | none => (engine.query s.query).1
  | some text =>
    let (engine, added) := engine.addRuleText text
    let _ ← added
    (engine.query s.query).1

/-- The step as a record. -/
def encode (s : QueryStep) : Json :=
  .ofMembers
    [("entityType", .text s.entityType), ("query", .text s.query),
      ("rules", .ofOption .text s.rules), ("config", s.config.encode)]

/-- Reads a step. -/
def decode? (json : Json) : Option QueryStep :=
  match Json.fields? ["entityType", "query", "rules", "config"] json with
  | some [entityType, query, rules, config] => do
    let entityType ← Json.required Json.text? entityType
    let query ← Json.required Json.text? query
    let rules ← Json.withDefault none (Json.optional Json.text?) rules
    let config ← Json.withDefault EngineConfig.default EngineConfig.decode? config
    return { entityType, query, rules, config }
  | _ => none

end QueryStep

end Factbase
