import TypedQuery.Rendering
/-!
The options of the `compile` command.

Flags may stand in any order and the last of a kind counts. One argument is no flag: the file
of the query tree.
-/
namespace TypedQuery
namespace CommandLine

/-- The flags that a value follows. -/
inductive ValueFlag where
  | schema | root | style
deriving DecidableEq, Repr

def ValueFlag.text : ValueFlag → String
  | .schema => "--schema"
  | .root => "--root"
  | .style => "--style"

/-- What a compilation cannot do without. -/
inductive Required where
  | schema | root | query
deriving DecidableEq, Repr

def Required.text : Required → String
  | .schema => "--schema <file>"
  | .root => "--root <Entity>"
  | .query => "query tree file"

inductive OptionError where
  | missingValue (flag : ValueFlag)
  | unknownStyle (text : String)
  | unknownOption (text : String)
  | missing (what : Required)
deriving DecidableEq, Repr

def OptionError.message : OptionError → String
  | .missingValue flag => "missing value for `" ++ flag.text ++ "`"
  | .unknownStyle text =>
    "unknown render style `" ++ text ++ "`; expected `static` or `preferred`"
  | .unknownOption text => "unknown option `" ++ text ++ "`"
  | .missing what => "missing " ++ what.text

/-- What is to be compiled, and what is to be printed of it. -/
structure Options where
  schema : String
  root : String
  query : String
  showGraph : Bool
  style : RenderStyle
  traceTree : Bool
deriving DecidableEq, Repr

/-- The options that have been given so far. -/
structure Given where
  schema? : Option String
  root? : Option String
  query? : Option String
  showGraph : Bool
  style : RenderStyle
  traceTree : Bool

def Given.nothing : Given :=
  { schema? := none, root? := none, query? := none, showGraph := false, style := .preferred,
    traceTree := false }

def readStyle : String → Except OptionError RenderStyle
  | "static" => .ok .static
  | "preferred" => .ok .preferred
  | text => .error (.unknownStyle text)

def Given.read (g : Given) : List String → Except OptionError Given
  | [] => .ok g
  | "--schema" :: rest =>
    match rest with
    | value :: rest => Given.read { g with schema? := some value } rest
    | [] => .error (.missingValue .schema)
  | "--root" :: rest =>
    match rest with
    | value :: rest => Given.read { g with root? := some value } rest
    | [] => .error (.missingValue .root)
  | "--style" :: rest =>
    match rest with
    | value :: rest => do
      let style ← readStyle value
      Given.read { g with style := style } rest
    | [] => .error (.missingValue .style)
  | "--graph" :: rest => Given.read { g with showGraph := true } rest
  | "--trace-tree" :: rest => Given.read { g with traceTree := true } rest
  | arg :: rest =>
    if arg.startsWith "-" || g.query?.isSome then .error (.unknownOption arg)
    else Given.read { g with query? := some arg } rest

/-- A part that has to be there. -/
def require {α : Type} (what : Required) : Option α → Except OptionError α
  | some value => .ok value
  | none => .error (.missing what)

def Options.read (args : List String) : Except OptionError Options := do
  let g ← Given.nothing.read args
  let schema ← require .schema g.schema?
  let root ← require .root g.root?
  let query ← require .query g.query?
  .ok {
    schema := schema, root := root, query := query, showGraph := g.showGraph,
    style := g.style, traceTree := g.traceTree }

end CommandLine
end TypedQuery
