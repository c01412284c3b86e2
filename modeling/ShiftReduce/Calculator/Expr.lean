import ShiftReduce.Text.Inspect
/-!
Syntax trees of the calculator. Every operator node and every pair of parentheses stores the depth
of its subtree, and a subtree deeper than `maxDepth` is replaced by `tooDeep`, so that what walks
a tree recurses at most that far. Depths are counted in 64-bit words.
-/
namespace ShiftReduce.Calculator

inductive Operator where
  | add
  | sub
  | mul
  | div
  | pow
  deriving DecidableEq, Repr

def Operator.sign : Operator → String
  | .add => "+"
  | .sub => "-"
  | .mul => "*"
  | .div => "/"
  | .pow => "**"

theorem Operator.mem_sign {op : Operator} {c : Char} (member : c ∈ op.sign.toList) :
    c ∈ ['+', '-', '*', '/'] := by
  cases op <;> simp_all [sign]

instance : Inspect Operator where
  inspect
    | .add => "Add"
    | .sub => "Sub"
    | .mul => "Mul"
    | .div => "Div"
    | .pow => "Pow"

def maxDepth : Nat := 256

/-- `punct` is carried by operators and parentheses while they are parsed. -/
inductive Expr where
  | num (n : Int)
  | operation (op : Operator) (left right : Expr) (depth : Nat)
  | group (inner : Expr) (depth : Nat)
  | punct
  | error
  | tooDeep
  deriving DecidableEq, Repr

namespace Expr

def depth : Expr → Nat
  | .operation _ _ _ depth => depth
  | .group _ depth => depth
  | .tooDeep => maxDepth + 1
  | _ => 1

def depthOver (depth : Nat) : Option Nat :=
  if depth + 1 < 0x10000000000000000 then some (depth + 1) else none

def capped (depth : Nat) (node : Nat → Expr) : Expr :=
  if maxDepth < depth then .tooDeep else node depth

def binary? (op : Operator) (left right : Expr) : Option Expr :=
  (depthOver (max left.depth right.depth)).map fun depth =>
    capped depth (.operation op left right)

def paren? (inner : Expr) : Option Expr :=
  (depthOver inner.depth).map fun depth => capped depth (.group inner)

def text : Expr → String
  | .num n => inspect n
  | .operation op left right _ => "(" ++ op.sign ++ " " ++ left.text ++ " " ++ right.text ++ ")"
  | .group inner _ => "(" ++ inner.text ++ ")"
  | .punct => "<punct>"
  | .error => "<error>"
  | .tooDeep => "<too deep>"

def inspected : Expr → String
  | .num n => "Num(" ++ inspect n ++ ")"
  | .operation op left right depth => Text.record "Binary"
    [("op", inspect op), ("lhs", left.inspected), ("rhs", right.inspected),
      ("depth", inspect depth)]
  | .group inner depth => Text.record "Paren"
    [("expr", inner.inspected), ("depth", inspect depth)]
  | .punct => "Punct"
  | .error => "Error"
  | .tooDeep => "TooDeep"

instance : Inspect Expr := ⟨inspected⟩

end Expr

end ShiftReduce.Calculator
