import ShiftReduce.Calculator.Expr
import ShiftReduce.Signed64
/-!
Evaluation of syntax trees in signed 64-bit integers. The operands of a node are evaluated before
the node, the left one first, and the first node that has no value ends the evaluation.
-/
namespace ShiftReduce.Calculator

inductive ExponentDefect where
  | tooSmall
  | tooLarge
  deriving DecidableEq, Repr

def ExponentDefect.message : ExponentDefect → String
  | .tooSmall => "number too small to fit in target type"
  | .tooLarge => "number too large to fit in target type"

inductive EvalError where
  | tooDeep
  | malformed (node : Expr)
  | divisionByZero (node : Expr)
  | invalidExponent (node : Expr) (defect : ExponentDefect)
  | overflow (node : Expr)
  deriving DecidableEq, Repr

namespace EvalError

def message : EvalError → String
  | .tooDeep => "expression is nested deeper than " ++ inspect maxDepth ++ " levels"
  | .malformed node => "malformed syntax tree: " ++ node.text
  | .divisionByZero node => "division by zero: " ++ node.text
  | .invalidExponent node _ => "invalid exponent: " ++ node.text
  | .overflow node => "arithmetic overflow: " ++ node.text

def causes : EvalError → List String
  | .invalidExponent _ defect => [defect.message]
  | _ => []

end EvalError

def exponent (n : Int) : Except ExponentDefect Nat :=
  if n < 0 then .error .tooSmall
  else if 0x100000000 ≤ n then .error .tooLarge
  else .ok n.toNat

/-- The value of `node` from those of its operands. Division rounds toward zero. -/
def Operator.apply (op : Operator) (node : Expr) (left right : Int) : Except EvalError Int :=
  let checked (result : Option Int) : Except EvalError Int :=
    match result with
    | some n => .ok n
    | none => .error (.overflow node)
  match op with
  | .add => checked (Signed64.inRange? (left + right))
  | .sub => checked (Signed64.inRange? (left - right))
  | .mul => checked (Signed64.inRange? (left * right))
  | .div =>
    if right = 0 then .error (.divisionByZero node)
    else checked (Signed64.inRange? (left.tdiv right))
  | .pow =>
    match exponent right with
    | .error defect => .error (.invalidExponent node defect)
    | .ok e => checked (Signed64.pow? left e)

def Expr.eval : Expr → Except EvalError Int
  | .num n => .ok n
  | .group inner _ => inner.eval
  | .operation op left right depth =>
    match left.eval with
    | .error e => .error e
    | .ok l =>
      match right.eval with
      | .error e => .error e
      | .ok r => op.apply (.operation op left right depth) l r
  | .tooDeep => .error .tooDeep
  | .punct => .error (.malformed .punct)
  | .error => .error (.malformed .error)

end ShiftReduce.Calculator
