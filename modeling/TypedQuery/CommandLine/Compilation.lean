import TypedQuery.CommandLine.Options
import TypedQuery.Compile.Basic
import TypedQuery.Expr.Dump
import TypedQuery.Query.Json
import TypedQuery.Registry.Standard
import TypedQuery.Schema.Json
/-!
One run of the `compile` command, from the texts of a schema and a query tree to the text that
is printed.
-/
namespace TypedQuery
namespace CommandLine

/-- The two documents of a run. -/
inductive Document where
  | schema | queryTree
deriving DecidableEq, Repr

def Document.text : Document → String
  | .schema => "schema"
  | .queryTree => "query tree"

/-- Why a run fails. -/
inductive RunError where
  | json (document : Document)
  | schema (error : SchemaError)
  | unknownRoot (name : String)
  | compile (error : CompileError)
  | render (error : RenderError)
deriving DecidableEq, Repr

def RunError.message : RunError → String
  | .json document => "invalid JSON in " ++ document.text
  | .schema error => "schema: " ++ error.message
  | .unknownRoot name => "unknown root entity `" ++ name ++ "`"
  | .compile error => "error[" ++ error.code ++ "]: " ++ error.message
  | .render error => "render: " ++ error.message

/-- The number of arrays and objects that may stand around each other in a query tree. -/
def depthLimit : Nat := 127

/-- A document that is read by `read`. -/
def readDocument {α : Type} (document : Document) (read : Json → Option α) (text : String) :
    Except RunError α :=
  match (Json.read? text).bind read with
  | some value => .ok value
  | none => .error (.json document)

/-- A query that is not nested too deeply. Parts of a document that belong to no query do not
count. -/
def readQuery? (j : Json) : Option Query :=
  (Query.ofJson? j).filter fun q => q.toJson.depth ≤ depthLimit

/-- Compile a query against a schema and write it back. -/
def compileSource (schemaText queryText : String) (options : Options) :
    Except RunError String := do
  let schema ← readDocument .schema Schema.ofJson? schemaText
  let q ← readDocument .queryTree readQuery? queryText
  let model ← schema.resolve.mapError .schema
  match model.entity? options.root with
  | none => .error (.unknownRoot options.root)
  | some root => do
    let graph ← (q.compilePredicate .standard model (.entity root.name)).mapError .compile
    let text ← (graph.render .standard options.style).mapError .render
    .ok ((if options.showGraph then graph.dump else "") ++ text ++ "\n")

end CommandLine
end TypedQuery
