import Factbase.Atom.Order
import Factbase.Evaluation
import Factbase.Find.Processed
import Factbase.Row
import Factbase.Rule.Reader

/-! # The query engine

An `Engine` holds a store and a program and answers query texts. The catalog of the store is kept
once it was asked for, until a fact is added.

`Engine.query` reads a query text, evaluates it, and shapes the answers: one row of cells for each
distinct row of columns, sorted, and cut off at the limit. -/

namespace Factbase

/-- Configuration of an engine. -/
structure EngineConfig where
  evaluator : Settings
  catalog : CatalogLimits
  compiler : Find.CompilerOptions
  /-- Resolve attribute names against the catalog. -/
  resolveAttributes : Bool
deriving DecidableEq, Repr

/-- What can go wrong with an engine. -/
inductive EngineError where
  | invalidQuery (text : String) (errors : List Find.Error)
  | rule (error : RuleError)
  /-- A row, by its number, is not an object. -/
  | invalidRow (index : Nat)

/-- The answer to a query text. -/
structure QueryOutput where
  columns : List String
  /-- Rows of cells, one for each column. -/
  rows : List (List Atom)
  plan : Plan
  warnings : List String

/-- A store and a program. -/
structure Engine where
  config : EngineConfig
  store : Store
  program : Program
  /-- The catalog, if it was asked for since the last fact was added. -/
  cachedCatalog : Option (List CatalogEntry)

/-- The configuration unless another is given. -/
def EngineConfig.default : EngineConfig := ⟨.default, .default, .default, true⟩

/-- The message of an error. -/
def EngineError.message : EngineError → String
  | .invalidQuery _ errors => "invalid query: " ++ toString errors.length ++ " syntax error(s)"
  | .rule error => error.message
  | .invalidRow index => "row " ++ toString index ++ " is not a JSON object"

namespace QueryOutput

/-- The cells of a column, none when there is no such column. -/
def column (o : QueryOutput) (name : String) : List Atom :=
  o.rows.filterMap fun row => (o.columns.zip row).lookup name

/-- The rows as records of cells. -/
def encodeRows (encodeAtom : Atom → Json) (o : QueryOutput) : Json :=
  .ofList (fun row => .ofMembers (o.columns.zip (row.map encodeAtom))) o.rows

/-- The rows as data. -/
def toJson (o : QueryOutput) : Json := o.encodeRows Atom.toJson

/-- The output as a record; warnings are left out where there are none. -/
def encode (o : QueryOutput) : Json :=
  .ofMembers
    ([("columns", .ofList .text o.columns), ("rows", o.encodeRows Atom.encode),
        ("plan", o.plan.encode)] ++
      if o.warnings.isEmpty then [] else [("warnings", .ofList .text o.warnings)])

end QueryOutput

/-- Order of rows by their sort keys. Nulls are last in both directions. -/
def Find.Direction.order (d : Find.Direction) (a b : Atom) : Ordering :=
  match a.isNull, b.isNull with
  | true, true => .eq
  | true, false => .gt
  | false, true => .lt
  | false, false =>
    match d with
    | .asc => a.order b
    | .desc => b.order a

/-- The value that a binding gives to a variable, null when it gives none. -/
def Binding.cell (b : Binding) (name : String) : Atom := (b.get? name).getD .null

/-- Order of bindings by a sort key. -/
def Find.SortKey.order (k : Find.SortKey) (a b : Binding) : Ordering :=
  k.direction.order (a.cell k.carrier) (b.cell k.carrier)

namespace Find.Compiled

/-- The bindings in the order of the sort key, if there is one; equal ones keep their order. -/
def sorted (c : Find.Compiled) (bindings : List Binding) : List Binding :=
  match c.sortKey with
  | some key => bindings.mergeSort fun a b => key.order a b != Ordering.gt
  | none => bindings

/-- The cells of a binding, one for each column. -/
def row (c : Find.Compiled) (b : Binding) : List Atom :=
  c.projection.map fun column => b.cell column.2

/-- The rows of bindings: sorted, each row once, and no more than the limit. -/
def rows (c : Find.Compiled) (bindings : List Binding) : List (List Atom) :=
  let distinct := distinctBy (fun row : List Atom => row.map Atom.canonical)
    ((c.sorted bindings).map c.row)
  match c.limit with
  | some n => distinct.take n
  | none => distinct

end Find.Compiled

namespace Engine

/-- The engine without facts, links and rules. -/
def empty (config : EngineConfig) : Engine :=
  ⟨config, .empty config.catalog, .empty config.evaluator, none⟩

/-- Adds a fact. -/
def addFact (e : Engine) (f : Fact) : Engine :=
  { e with store := e.store.addFact f, cachedCatalog := none }

/-- Adds facts in order. -/
def addFacts (e : Engine) (fs : List Fact) : Engine :=
  { e with store := e.store.addFacts fs, cachedCatalog := none }

/-- Adds a link. The catalog does not depend on links. -/
def addLink (e : Engine) (l : Link) : Engine := { e with store := e.store.addLink l }

/-- Adds links in order. -/
def addLinks (e : Engine) (ls : List Link) : Engine := { e with store := e.store.addLinks ls }

/-- Adds the facts of rows, if all are objects. -/
def addRows (e : Engine) (entityType : String) (rows : List Json) : Except EngineError Engine :=
  match Row.factsOfAll entityType rows with
  | .ok facts => .ok (e.addFacts facts)
  | .error index => .error (.invalidRow index)

/-- Adds a rule, or tells why it is rejected. -/
def addRule (e : Engine) (r : Rule) : Except EngineError Engine :=
  match e.program.addRule r with
  | .ok program => .ok { e with program }
  | .error error => .error (.rule error)

/-- Adds the rules of a text, up to the first that is rejected, and counts them. -/
def addRuleText (e : Engine) (text : String) : Engine × Except EngineError Nat :=
  match Rule.parseAll text with
  | .error error => (e, .error (.rule error))
  | .ok rules =>
    match e.program.addRules rules with
    | (program, none) => ({ e with program }, .ok rules.length)
    -- the rules before the rejected one stay
    | (program, some error) => ({ e with program }, .error (.rule error))

/-- The catalog, kept for the next time. -/
def catalog (e : Engine) : List CatalogEntry × Engine :=
  match e.cachedCatalog with
  | some entries => (entries, e)
  | none =>
    let entries := e.store.catalog
    (entries, { e with cachedCatalog := some entries })

/-- Reads a query text, resolving its attributes where the configuration says so. -/
def process (e : Engine) (text : String) :
    Except (List Find.Error) Find.Processed × Engine :=
  if e.config.resolveAttributes then
    let (entries, e) := e.catalog
    (Find.process e.config.compiler .anyCase (entries.map (·.attr)) text, e)
  else (Find.process e.config.compiler .exact [] text, e)

/-- The answer to a query that was read. -/
def answer (e : Engine) (p : Find.Processed) : Except EngineError QueryOutput :=
  match e.program.evaluate e.store p.compiled.query with
  | .error error => .error (.rule error)
  | .ok answers =>
    .ok
      { columns := p.compiled.projection.map (·.1)
        rows := p.compiled.rows answers.bindings
        plan := answers.plan
        warnings := p.warnings }

/-- The answer to a query text. -/
def query (e : Engine) (text : String) : Except EngineError QueryOutput × Engine :=
  let (processed, e) := e.process text
  match processed with
  | .error errors => (.error (.invalidQuery text errors), e)
  | .ok p => (e.answer p, e)

end Engine

end Factbase
