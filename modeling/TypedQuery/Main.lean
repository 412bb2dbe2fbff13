import TypedQuery.CommandLine.Compilation
import TypedQuery.CommandLine.FunctionList
/-!
The command line.
-/
open TypedQuery TypedQuery.CommandLine

namespace TypedQuery.CommandLine

def usageLines : List String := [
  "typed query compiler",
  "",
  "Usage: typedquery <command> [options]",
  "",
  "Commands:",
  "  compile --schema <file> --root <Entity> [options] <query.json>",
  "                       Compile a JSON query tree and print it back",
  "      --graph          Also print the typed graph",
  "      --style <style>  How calls are written: preferred (default) or static",
  "      --trace-tree     Accepted; compilation keeps no log",
  "  functions            List the standard query functions",
  "  help                 Show this message"]

def usage : String := String.join (usageLines.map fun line => line ++ "\n")

def compileUsage : String :=
  "Usage: typedquery compile --schema <file> --root <Entity> [--graph] " ++
    "[--style static|preferred] [--trace-tree] <query.json>"

/-- Read a file, or say which one cannot be read. -/
def readText (path : String) : IO (Except String String) := do
  try
    return .ok (← IO.FS.readFile path)
  catch e =>
    return .error ("cannot read '" ++ path ++ "': " ++ toString e)

/-- Print a result, or the error in its place. -/
def finish : Except String String → IO UInt32
  | .ok text => do
    IO.print text
    return 0
  | .error message => do
    IO.eprintln message
    return 1

def runCompile (args : List String) : IO UInt32 := do
  match Options.read args with
  | .error e =>
    IO.eprintln ("error: " ++ e.message)
    IO.eprintln compileUsage
    return 1
  | .ok options =>
    match ← readText options.schema with
    | .error message => finish (.error message)
    | .ok schema =>
      match ← readText options.query with
      | .error message => finish (.error message)
      | .ok query =>
        finish ((compileSource schema query options).mapError RunError.message)

end TypedQuery.CommandLine

def main (args : List String) : IO UInt32 := do
  match args with
  | [] | "help" :: _ | "--help" :: _ | "-h" :: _ =>
    IO.print usage
    return 0
  | "compile" :: args => runCompile args
  | "functions" :: _ => finish (.ok (functionList .standard))
  | other :: _ =>
    IO.eprintln ("Unknown command: " ++ other)
    IO.eprintln ""
    IO.print usage
    return 1
