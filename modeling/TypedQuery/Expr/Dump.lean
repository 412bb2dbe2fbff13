import TypedQuery.Expr.Basic
/-!
Graphs as indented text, one node to a line with its type.
-/
namespace TypedQuery

def Param.text (p : Param) : String := p.name ++ "#" ++ toString p.id

namespace Expr

/-- What a node is, without its type and its parts. -/
def label : Expr → String
  | .constant v => "Constant " ++ v.text
  | .parameter p => "Parameter " ++ p.text
  | .property _ name _ => "Property " ++ name
  | .memberAccess _ m => "MemberAccess " ++ m.text
  | .call m _ => "Call " ++ m.text
  | .callOn _ m _ => "Call " ++ m.text
  | .binary op _ _ _ => "Binary " ++ op.keyword
  | .convert _ _ explicit => if explicit then "Cast" else "Convert"
  | .typeIs _ target => "TypeIs " ++ target.text
  | .newArray _ _ => "NewArray"
  | .lambda ps _ => "Lambda (" ++ ", ".intercalate (ps.map Param.text) ++ ")"
  | .quote _ => "Quote"

/-- The line of a node at some depth. -/
def line (depth : Nat) (e : Expr) : String :=
  String.ofList (List.replicate (2 * depth) ' ') ++ e.label ++ " : " ++ e.type.text ++ "\n"

mutual
def dumpAt (depth : Nat) : Expr → String
  | .property e name t => line depth (.property e name t) ++ dumpAt (depth + 1) e
  | .memberAccess e m => line depth (.memberAccess e m) ++ dumpAt (depth + 1) e
  | .call m args => line depth (.call m args) ++ dumpEach (depth + 1) args
  | .callOn e m args =>
    line depth (.callOn e m args) ++ dumpAt (depth + 1) e ++ dumpEach (depth + 1) args
  | .binary op l r t =>
    line depth (.binary op l r t) ++ dumpAt (depth + 1) l ++ dumpAt (depth + 1) r
  | .convert e t explicit => line depth (.convert e t explicit) ++ dumpAt (depth + 1) e
  | .typeIs e t => line depth (.typeIs e t) ++ dumpAt (depth + 1) e
  | .newArray t es => line depth (.newArray t es) ++ dumpEach (depth + 1) es
  | .lambda ps e => line depth (.lambda ps e) ++ dumpAt (depth + 1) e
  | .quote e => line depth (.quote e) ++ dumpAt (depth + 1) e
  | .constant v => line depth (.constant v)
  | .parameter p => line depth (.parameter p)

def dumpEach (depth : Nat) : List Expr → String
  | [] => ""
  | e :: es => dumpAt depth e ++ dumpEach depth es
end

def dump (e : Expr) : String := dumpAt 0 e

end Expr
end TypedQuery
