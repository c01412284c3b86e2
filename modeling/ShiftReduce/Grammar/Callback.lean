import ShiftReduce.Text.Inspect
/-!
Callbacks compute the value of a left-hand side from the values of its components. A callback
is a total function: where it has no value it yields a `Fault` that says why, and what it has to
say about operands it did not expect are its remarks.
-/
namespace ShiftReduce

inductive Overflow where
  | add
  | multiply
  | exponentiate
  deriving DecidableEq, Repr

def Overflow.verb : Overflow → String
  | .add => "add"
  | .multiply => "multiply"
  | .exponentiate => "exponentiate"

inductive Fault (V : Type) where
  | overflow (operation : Overflow)
  | missingOperand (index count : Nat)
  | unexpectedOperands (first second : Option V)
  | missingContents (count : Nat)
  deriving DecidableEq, Repr

def Fault.message {V : Type} [Inspect V] : Fault V → String
  | .overflow operation => "attempt to " ++ operation.verb ++ " with overflow"
  | .missingOperand index count =>
    "index out of bounds: the len is " ++ inspect count ++ " but the index is " ++ inspect index
  | .unexpectedOperands first second =>
    "internal error: entered unreachable code: unexpected arguments: (" ++
      inspect first ++ ", " ++ inspect second ++ ")"
  | .missingContents count =>
    "swap_remove index (is 1) should be < len (is " ++ inspect count ++ ")"

structure Callback (V : Type) where
  apply : List V → Except (Fault V) V
  remarks : List V → List String := fun _ => []

def Callback.ofTotal {V : Type} (f : List V → V) : Callback V where
  apply args := .ok (f args)

end ShiftReduce
