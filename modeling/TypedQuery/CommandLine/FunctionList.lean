import TypedQuery.Registry.Standard
/-!
The list of the standard functions, one to a line: the call, then the member behind it.
-/
namespace TypedQuery
namespace CommandLine

/-- `text` with spaces behind it up to some width. -/
def padRight (width : Nat) (text : String) : String :=
  text ++ String.ofList (List.replicate (width - text.length) ' ')

def functionLine (width : Nat) (m : Mapping) : String :=
  padRight width m.format ++ "  " ++ m.member.text ++
    (match m.style with
      | .static => ""
      | .chained => " (chained)") ++ "\n"

/-- All calls are as wide as the longest of them. -/
def functionList (r : Registry) : String :=
  let width := (r.mappings.map fun m => m.format.length).foldl max 0
  String.join (r.mappings.map (functionLine width))

end CommandLine
end TypedQuery
