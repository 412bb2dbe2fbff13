import TypedQuery.Expr.Value
import TypedQuery.Member.Basic
import TypedQuery.Query.Operator
/-!
Typed expression graphs: what a query means.

Every node has a type. Where it follows from the parts of the node it is computed from them,
and only where it does not it is part of the node.
-/
namespace TypedQuery

/-- A parameter of a lambda. Parameters are told apart by their number, not by their name. -/
structure Param where
  id : Nat
  name : String
  type : Ty
deriving DecidableEq, Repr

def Param.renumber (f : Nat → Nat) (p : Param) : Param := { p with id := f p.id }

/-- A node.

`property` is supplied by the resource model and `memberAccess` by the library. A `call` has
no receiver, `callOn` has one. An explicit conversion was asked for by a cast, the others
come from widening operands. `quote` hands a lambda over as an expression. -/
inductive Expr where
  | constant (value : Value)
  | parameter (param : Param)
  | property (receiver : Expr) (name : String) (type : Ty)
  | memberAccess (receiver : Expr) (member : Member)
  | call (member : Member) (args : List Expr)
  | callOn (receiver : Expr) (member : Member) (args : List Expr)
  | binary (op : BinaryOp) (left right : Expr) (type : Ty)
  | convert (operand : Expr) (type : Ty) (explicit : Bool)
  | typeIs (operand : Expr) (target : Ty)
  | newArray (element : Ty) (elements : List Expr)
  | lambda (params : List Param) (body : Expr)
  | quote (inner : Expr)
deriving Repr

namespace Expr

def type : Expr → Ty
  | .constant v => v.type
  | .parameter p => p.type
  | .property _ _ t => t
  | .memberAccess _ m => m.result
  | .call m _ => m.result
  | .callOn _ m _ => m.result
  | .binary _ _ _ t => t
  | .convert _ t _ => t
  | .typeIs _ _ => .bool
  | .newArray t _ => .array t
  | .lambda ps body => .function (ps.map Param.type) body.type
  | .quote e => .quoted e.type

def constant? : Expr → Option Value
  | .constant v => some v
  | _ => none

/-- Whether this is the parameter with the number `id`. -/
def isParameter (id : Nat) : Expr → Bool
  | .parameter p => p.id == id
  | _ => false

/-- Members of nodes are compared with what they result in, which is the type of the node. -/
def sameMember (m n : Member) : Bool := m.same n && m.result == n.result

mutual
/-- Equality of graphs. It is structural but for constants, which are compared as numbers. -/
def same : Expr → Expr → Bool
  | .constant v, .constant w => v.same w
  | .parameter p, .parameter q => p == q
  | .property e n t, .property f m u => e.same f && n == m && t == u
  | .memberAccess e m, .memberAccess f n => e.same f && sameMember m n
  | .call m as, .call n bs => sameMember m n && sames as bs
  | .callOn e m as, .callOn f n bs => e.same f && sameMember m n && sames as bs
  | .binary o l r t, .binary p l' r' u => o == p && l.same l' && r.same r' && t == u
  | .convert e t x, .convert f u y => e.same f && t == u && x == y
  | .typeIs e t, .typeIs f u => e.same f && t == u
  | .newArray t es, .newArray u fs => t == u && sames es fs
  | .lambda ps e, .lambda qs f => ps == qs && e.same f
  | .quote e, .quote f => e.same f
  | _, _ => false

def sames : List Expr → List Expr → Bool
  | [], [] => true
  | e :: es, f :: fs => e.same f && sames es fs
  | _, _ => false
end

mutual
/-- The graph with other numbers for its parameters. -/
def renumber (f : Nat → Nat) : Expr → Expr
  | .constant v => .constant v
  | .parameter p => .parameter (p.renumber f)
  | .property e name t => .property (e.renumber f) name t
  | .memberAccess e m => .memberAccess (e.renumber f) m
  | .call m es => .call m (renumberEach f es)
  | .callOn e m es => .callOn (e.renumber f) m (renumberEach f es)
  | .binary op l r t => .binary op (l.renumber f) (r.renumber f) t
  | .convert e t explicit => .convert (e.renumber f) t explicit
  | .typeIs e t => .typeIs (e.renumber f) t
  | .newArray t es => .newArray t (renumberEach f es)
  | .lambda ps e => .lambda (ps.map (Param.renumber f)) (e.renumber f)
  | .quote e => .quote (e.renumber f)

def renumberEach (f : Nat → Nat) : List Expr → List Expr
  | [] => []
  | e :: es => e.renumber f :: renumberEach f es
end

end Expr
end TypedQuery
