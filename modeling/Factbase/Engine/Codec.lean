import Factbase.Catalog.Codec
import Factbase.Engine
import Factbase.Find.Codec

/-! # Engine configurations in JSON

The configuration of an engine as a JSON record; what is missing has its default value. -/

namespace Factbase.EngineConfig

/-- The configuration as a record. -/
def encode (c : EngineConfig) : Json :=
  .ofMembers
    [("evaluator", c.evaluator.encode), ("catalog", c.catalog.encode),
      ("compiler", c.compiler.encode), ("resolveAttributes", .bool c.resolveAttributes)]

/-- Reads a configuration. -/
def decode? (json : Json) : Option EngineConfig :=
  match Json.fields? ["evaluator", "catalog", "compiler", "resolveAttributes"] json with
  | some [evaluator, catalog, compiler, resolve] => do
    let evaluator ← Json.withDefault default.evaluator Settings.decode? evaluator
    let catalog ← Json.withDefault default.catalog CatalogLimits.decode? catalog
    let compiler ← Json.withDefault default.compiler Find.CompilerOptions.decode? compiler
    let resolveAttributes ← Json.withDefault default.resolveAttributes Json.bool? resolve
    return { evaluator, catalog, compiler, resolveAttributes }
  | _ => none

end Factbase.EngineConfig
