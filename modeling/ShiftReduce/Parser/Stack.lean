import ShiftReduce.Table.Check
/-!
The stack of a parse: the states and the values on it, each a list with its top first. Every push
adds one state and one value to the initial state, so there is always one state more.
-/
namespace ShiftReduce

inductive Breakdown (S V : Type) where
  | table (error : TableError S)
  | fault (fault : Fault V)

structure Stack (V : Type) where
  states : List Nat
  values : List V

namespace Stack

variable {S V : Type}

def initial : Stack V := ⟨[0], []⟩

def current (s : Stack V) : Nat := s.states.headD 0

def push (s : Stack V) (state : Nat) (value : V) : Stack V :=
  ⟨state :: s.states, value :: s.values⟩

def pop (s : Stack V) (count : Nat) : Stack V :=
  ⟨s.states.drop count, s.values.drop count⟩

/-- The topmost values in the order in which they were pushed. -/
def operands (s : Stack V) (count : Nat) : List V := (s.values.take count).reverse

/-- Pops the components of a rule and computes the value of its left-hand side. The stack is
untouched when it has too few values to pop or when the rule has no way to a value. -/
def reduce (s : Stack V) (rule : Rule S V) : Except (Breakdown S V) V × Stack V :=
  let underflow := Breakdown.table (.stackUnderflow rule.id rule.arity s.values.length)
  if s.values.length < rule.arity then (.error underflow, s)
  else
    match rule.callback with
    | some callback =>
      ((callback.apply (s.operands rule.arity)).mapError .fault, s.pop rule.arity)
    | none =>
      if rule.arity = 1 then
        match s.operands rule.arity with
        | value :: _ => (.ok value, s.pop rule.arity)
        | [] => (.error underflow, s.pop rule.arity)
      else (.error (.table (.missingCallback rule.id rule.arity)), s)

end Stack

end ShiftReduce
