import Mathlib.Algebra.Order.Ring.Int
import ShiftReduce.Calculator.Expr
/-!
Expression trees without depths, and what the calculator builds from them bottom-up: the tree
itself with the height of each node stored, or what stands for a tree that is too deep.
-/
namespace ShiftReduce.Calculator

inductive Leaf where
  | num (n : Int)
  | punct
  | error
  | tooDeep

def Leaf.expr : Leaf → Expr
  | .num n => .num n
  | .punct => .punct
  | .error => .error
  | .tooDeep => .tooDeep

inductive Term where
  | leaf (leaf : Leaf)
  | operation (op : Operator) (left right : Term)
  | group (inner : Term)

namespace Term

/-- A subtree that was replaced counts as one over the limit. -/
def height : Term → Nat
  | .leaf .tooDeep => maxDepth + 1
  | .leaf _ => 1
  | .operation _ left right => max left.height right.height + 1
  | .group inner => inner.height + 1

def stored : Term → Expr
  | .leaf l => l.expr
  | .operation op left right =>
    .operation op left.stored right.stored (operation op left right).height
  | .group inner => .group inner.stored (group inner).height

def rebuild : Term → Option Expr
  | .leaf l => some l.expr
  | .operation op left right =>
    left.rebuild.bind fun l => right.rebuild.bind fun r => Expr.binary? op l r
  | .group inner => inner.rebuild.bind Expr.paren?

def limited (t : Term) : Expr := if t.height ≤ maxDepth then t.stored else .tooDeep

theorem depth_stored (t : Term) : t.stored.depth = t.height := by
  cases t with
  | leaf l => cases l <;> rfl
  | operation op left right => rfl
  | group inner => rfl

theorem depth_limited (t : Term) : t.limited.depth = min t.height (maxDepth + 1) := by
  unfold limited
  by_cases low : t.height ≤ maxDepth
  · rw [if_pos low, depth_stored]
    omega
  · rw [if_neg low]
    have cutOff : Expr.tooDeep.depth = maxDepth + 1 := rfl
    omega

theorem limited_of_le {t : Term} (low : t.height ≤ maxDepth) : t.limited = t.stored := if_pos low

theorem depthOver_of_lt {depth : Nat} (small : depth ≤ maxDepth + 1) :
    Expr.depthOver depth = some (depth + 1) := by
  have bound : depth + 1 < 0x10000000000000000 := by
    unfold maxDepth at small
    omega
  exact if_pos bound

theorem capped_limited {t : Term} {depth : Nat} {node : Nat → Expr}
    (agree : min depth (maxDepth + 1) = min t.height (maxDepth + 1))
    (same : t.height ≤ maxDepth → node t.height = t.stored) :
    Expr.capped depth node = t.limited := by
  unfold Expr.capped limited
  by_cases low : t.height ≤ maxDepth
  · have equal : depth = t.height := by omega
    rw [if_pos low, equal, if_neg (Nat.not_lt.2 low)]
    exact same low
  · have high : maxDepth < depth := by omega
    rw [if_neg low, if_pos high]

theorem binary?_limited (op : Operator) (left right : Term) :
    Expr.binary? op left.limited right.limited = some (operation op left right).limited := by
  have deepLeft := left.depth_limited
  have deepRight := right.depth_limited
  have tall : (operation op left right).height = max left.height right.height + 1 := rfl
  unfold Expr.binary?
  rw [depthOver_of_lt (by omega), Option.map_some]
  refine congrArg some (capped_limited (by omega) fun low => ?_)
  rw [limited_of_le (by omega), limited_of_le (by omega)]
  rfl

theorem paren?_limited (inner : Term) :
    inner.limited.paren? = some (group inner).limited := by
  have deep := inner.depth_limited
  have tall : (group inner).height = inner.height + 1 := rfl
  unfold Expr.paren?
  rw [depthOver_of_lt (by omega), Option.map_some]
  refine congrArg some (capped_limited (by omega) fun low => ?_)
  rw [limited_of_le (by omega)]
  rfl

/-- Building never fails, and cuts off exactly what is too deep. -/
theorem rebuild_eq_limited (t : Term) : t.rebuild = some t.limited := by
  induction t with
  | leaf l => cases l <;> rfl
  | operation op left right ihl ihr =>
    unfold rebuild
    rw [ihl, ihr]
    exact binary?_limited op left right
  | group inner ih =>
    unfold rebuild
    rw [ih]
    exact paren?_limited inner

end Term

end ShiftReduce.Calculator
