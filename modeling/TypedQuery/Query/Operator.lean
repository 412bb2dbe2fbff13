/-!
Operators: those that compute a value, and the two that only queries have.
-/
namespace TypedQuery

/-- Operators on two values. Queries and compiled graphs share them. -/
inductive BinaryOp where
  | and | or
  | add | subtract | multiply | divide | modulo
  | equal | notEqual
  | less | greater | lessOrEqual | greaterOrEqual
deriving DecidableEq, Repr

namespace BinaryOp

def keyword : BinaryOp → String
  | .and => "and"
  | .or => "or"
  | .add => "add"
  | .subtract => "sub"
  | .multiply => "mul"
  | .divide => "div"
  | .modulo => "mod"
  | .equal => "eq"
  | .notEqual => "ne"
  | .less => "lt"
  | .greater => "gt"
  | .lessOrEqual => "le"
  | .greaterOrEqual => "ge"

def isLogical : BinaryOp → Bool
  | .and | .or => true
  | _ => false

def isArithmetic : BinaryOp → Bool
  | .add | .subtract | .multiply | .divide | .modulo => true
  | _ => false

def isEquality : BinaryOp → Bool
  | .equal | .notEqual => true
  | _ => false

def isRelational : BinaryOp → Bool
  | .less | .greater | .lessOrEqual | .greaterOrEqual => true
  | _ => false

/-- The strength with which an operator binds its operands. -/
def precedence : BinaryOp → Nat
  | .or => 1
  | .and => 2
  | .equal | .notEqual => 3
  | .less | .greater | .lessOrEqual | .greaterOrEqual => 4
  | .add | .subtract => 5
  | .multiply | .divide | .modulo => 6

end BinaryOp

/-- Operators of a query: member access, membership in an array, and those on values. The
first two compile to members and calls, so graphs do not know them. -/
inductive Operator where
  | dot
  | isIn
  | value (op : BinaryOp)
deriving DecidableEq, Repr

namespace Operator

def keyword : Operator → String
  | .dot => "."
  | .isIn => "in"
  | .value op => op.keyword

def precedence : Operator → Nat
  | .dot => 7
  | .isIn => 4
  | .value op => op.precedence

/-- The operator on values that this one is. -/
def value? : Operator → Option BinaryOp
  | .value op => some op
  | _ => none

def all : List Operator :=
  [.dot, .isIn] ++
    [.and, .or, .add, .subtract, .multiply, .divide, .modulo, .equal, .notEqual, .less,
      .greater, .lessOrEqual, .greaterOrEqual].map .value

theorem mem_all (op : Operator) : op ∈ all := by
  cases op with
  | value op => cases op <;> decide
  | _ => decide

/-- Member access binds most tightly, whatever the other operator is. -/
theorem precedence_le_dot (op : Operator) : op.precedence ≤ Operator.dot.precedence := by
  cases op with
  | value op => cases op <;> decide
  | _ => decide

end Operator
end TypedQuery
