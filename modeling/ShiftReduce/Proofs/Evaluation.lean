import Mathlib.Algebra.Order.Ring.Int
import ShiftReduce.Calculator.Eval
/-!
The value of a syntax tree over the integers. A tree has one if it is made of numbers, and every
operation in it has an exact result in the range of signed 64-bit integers. The evaluation in words
of 64 bits finds this value, and no other.
-/
namespace ShiftReduce.Calculator

open Signed64 (InRange inRange? pow? pow?_eq inRange?_eq_some_iff)

/-- The result over the integers, where a quotient is rounded toward zero. There is none for a
divisor of zero, or for an exponent that 32 bits without a sign cannot hold. -/
def Operator.result? (op : Operator) (left right : Int) : Option Int :=
  match op with
  | .add => some (left + right)
  | .sub => some (left - right)
  | .mul => some (left * right)
  | .div => if right = 0 then none else some (left.tdiv right)
  | .pow => if 0 ≤ right ∧ right < 0x100000000 then some (left ^ right.toNat) else none

inductive Expr.Evaluates : Expr → Int → Prop where
  | num (n : Int) : Evaluates (.num n) n
  | group {inner : Expr} {depth : Nat} {n : Int} (contents : Evaluates inner n) :
      Evaluates (.group inner depth) n
  | operation {op : Operator} {left right : Expr} {depth : Nat} {l r n : Int}
      (first : Evaluates left l) (second : Evaluates right r) (exact : op.result? l r = some n)
      (inside : InRange n) : Evaluates (.operation op left right depth) n

theorem exponent_eq_ok_iff {n : Int} {e : Nat} :
    exponent n = .ok e ↔ (0 ≤ n ∧ n < 0x100000000) ∧ n.toNat = e := by
  unfold exponent
  by_cases negative : n < 0
  · rw [if_pos negative]
    exact iff_of_false (by simp) (by omega)
  · rw [if_neg negative]
    by_cases large : 0x100000000 ≤ n
    · rw [if_pos large]
      exact iff_of_false (by simp) (by omega)
    · rw [if_neg large, Except.ok.injEq]
      exact (and_iff_right ⟨by omega, by omega⟩).symm

theorem apply_eq_ok_iff_bind {op : Operator} {node : Expr} {l r v : Int} :
    op.apply node l r = .ok v ↔ (op.result? l r).bind inRange? = some v := by
  unfold Operator.apply Operator.result?
  cases op with
  | add => cases found : inRange? (l + r) <;> simp [found]
  | sub => cases found : inRange? (l - r) <;> simp [found]
  | mul => cases found : inRange? (l * r) <;> simp [found]
  | div =>
    by_cases zero : r = 0
    · simp [zero]
    · cases found : inRange? (l.tdiv r) <;> simp [zero, found]
  | pow =>
    cases small : exponent r with
    | error defect =>
      have outside : ¬ (0 ≤ r ∧ r < 0x100000000) := by
        intro fits
        rw [exponent_eq_ok_iff.2 ⟨fits, rfl⟩] at small
        cases small
      simp [outside]
    | ok e =>
      obtain ⟨fits, rfl⟩ := exponent_eq_ok_iff.1 small
      simp only [if_pos fits, pow?_eq]
      cases found : inRange? (l ^ r.toNat) <;> simp [found]

theorem apply_eq_ok_iff {op : Operator} {node : Expr} {l r v : Int} :
    op.apply node l r = .ok v ↔ op.result? l r = some v ∧ InRange v := by
  rw [apply_eq_ok_iff_bind, Option.bind_eq_some_iff]
  constructor
  · rintro ⟨n, exact, kept⟩
    obtain ⟨inside, rfl⟩ := inRange?_eq_some_iff.1 kept
    exact ⟨exact, inside⟩
  · rintro ⟨exact, inside⟩
    exact ⟨v, exact, inRange?_eq_some_iff.2 ⟨inside, rfl⟩⟩

theorem eval_operation_iff {op : Operator} {left right : Expr} {depth : Nat} {v : Int} :
    (Expr.operation op left right depth).eval = .ok v ↔
      ∃ l r, left.eval = .ok l ∧ right.eval = .ok r ∧
        op.apply (.operation op left right depth) l r = .ok v := by
  constructor
  · intro evaluated
    unfold Expr.eval at evaluated
    split at evaluated
    · cases evaluated
    next l first =>
      split at evaluated
      · cases evaluated
      next r second => exact ⟨l, r, first, second, evaluated⟩
  · rintro ⟨l, r, first, second, applied⟩
    unfold Expr.eval
    rw [first, second]
    exact applied

theorem eval_eq_ok_iff {e : Expr} {v : Int} : e.eval = .ok v ↔ e.Evaluates v := by
  constructor
  · intro evaluated
    induction e generalizing v with
    | num n =>
      cases evaluated
      exact .num n
    | operation op left right depth ihl ihr =>
      obtain ⟨l, r, first, second, applied⟩ := eval_operation_iff.1 evaluated
      obtain ⟨exact, inside⟩ := apply_eq_ok_iff.1 applied
      exact .operation (ihl first) (ihr second) exact inside
    | group inner depth ih => exact .group (ih evaluated)
    | punct => cases evaluated
    | error => cases evaluated
    | tooDeep => cases evaluated
  · intro value
    induction value with
    | num n => rfl
    | group _ ih => exact ih
    | @operation op left right depth l r n _ _ exact inside ihl ihr =>
      have applied : op.apply (.operation op left right depth) l r = .ok n :=
        apply_eq_ok_iff.2 ⟨exact, inside⟩
      exact eval_operation_iff.2 ⟨l, r, ihl, ihr, applied⟩

end ShiftReduce.Calculator
