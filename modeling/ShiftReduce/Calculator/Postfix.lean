import ShiftReduce.Calculator.Grammar
/-!
Postfix programs that build syntax trees on a stack, with or without the depth limit. They serve
programs that read their trees, and no result is about them: what is proved of trees is about how
they are parsed, evaluated and printed.
-/
namespace ShiftReduce.Calculator

inductive Instruction where
  | push (tree : Expr)
  | duplicate
  | operate (op : Operator)
  | parenthesize (times : Nat)
  /-- Puts the tree under operators whose other operand is a number, on the right. -/
  | growLeft (op : Operator) (times : Nat) (n : Int)
  /-- Puts the tree under operators whose other operand is a number, on the left. -/
  | growRight (op : Operator) (times : Nat) (n : Int)
  | rawOperation (op : Operator) (depth : Nat)
  | rawGroup (depth : Nat)

def repeated (build : Expr → Option Expr) : Nat → Expr → Except (Fault Expr) Expr
  | 0, tree => .ok tree
  | times + 1, tree =>
    match counted (build tree) with
    | .ok tree => repeated build times tree
    | .error f => .error f

namespace Instruction

def arity : Instruction → Nat
  | .push _ => 0
  | .operate _ => 2
  | .rawOperation _ _ => 2
  | _ => 1

def run (i : Instruction) (stack : List Expr) : Except (Fault Expr) (List Expr) :=
  match i, stack with
  | .push tree, stack => .ok (tree :: stack)
  | .duplicate, top :: stack => .ok (top :: top :: stack)
  | .operate op, right :: left :: stack =>
    (counted (Expr.binary? op left right)).map (· :: stack)
  | .parenthesize times, top :: stack => (repeated Expr.paren? times top).map (· :: stack)
  | .growLeft op times n, top :: stack =>
    (repeated (fun tree => Expr.binary? op tree (.num n)) times top).map (· :: stack)
  | .growRight op times n, top :: stack =>
    (repeated (fun tree => Expr.binary? op (.num n) tree) times top).map (· :: stack)
  | .rawOperation op depth, right :: left :: stack =>
    .ok (.operation op left right depth :: stack)
  | .rawGroup depth, top :: stack => .ok (.group top depth :: stack)
  | i, stack => .error (.missingOperand i.arity stack.length)

end Instruction

def tops : List Expr → List Instruction → Except (Fault Expr) (List Expr)
  | _, [] => .ok []
  | stack, i :: rest =>
    match i.run stack with
    | .ok stack => (tops stack rest).map (stack.head?.toList ++ ·)
    | .error f => .error f

end ShiftReduce.Calculator
