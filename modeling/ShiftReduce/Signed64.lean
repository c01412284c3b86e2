/-!
Signed 64-bit arithmetic over the integers: an operation is carried out exactly, and its result
is kept only if it lies in range.
-/
namespace ShiftReduce.Signed64

def least : Int := -0x8000000000000000

def greatest : Int := 0x7FFFFFFFFFFFFFFF

def InRange (n : Int) : Prop := least ≤ n ∧ n ≤ greatest

instance (n : Int) : Decidable (InRange n) :=
  inferInstanceAs (Decidable (least ≤ n ∧ n ≤ greatest))

def inRange? (n : Int) : Option Int := if InRange n then some n else none

theorem inRange?_eq_some_iff {n m : Int} : inRange? n = some m ↔ InRange n ∧ n = m := by
  simp [inRange?]

/-- The representative of `n` modulo `2 ^ 64` that lies in range. -/
def wrap (n : Int) : Int := n.bmod 0x10000000000000000

/-- The power if it lies in range. Bases of magnitude at most one repeat with period two, and
every other base leaves the range within 64 steps, so large powers are never computed. -/
def pow? (base : Int) (exponent : Nat) : Option Int :=
  if base.natAbs ≤ 1 then
    inRange? (if exponent = 0 then 1 else Int.pow base (2 - exponent % 2))
  else if 64 ≤ exponent then none
  else inRange? (Int.pow base exponent)

theorem pow_parity {base : Int} (small : base.natAbs ≤ 1) {exponent : Nat} (pos : exponent ≠ 0) :
    Int.pow base (2 - exponent % 2) = Int.pow base exponent := by
  have same : ∀ n, base ^ (2 - (n + 1) % 2) = base ^ (n + 1) := by
    intro n
    have cases : base = 0 ∨ base = 1 ∨ base = -1 := by omega
    rcases cases with rfl | rfl | rfl
    · rw [Int.zero_pow (by omega), Int.zero_pow (by omega)]
    · rw [Int.one_pow, Int.one_pow]
    · induction n with
      | zero => rfl
      | succ n ih =>
        rw [Int.pow_succ, ← ih]
        rcases Nat.mod_two_eq_zero_or_one n with even | odd
        · rw [show (n + 1 + 1) % 2 = 0 by omega, show (n + 1) % 2 = 1 by omega]; rfl
        · rw [show (n + 1 + 1) % 2 = 1 by omega, show (n + 1) % 2 = 0 by omega]; rfl
  obtain ⟨n, rfl⟩ := Nat.exists_eq_succ_of_ne_zero pos
  exact same n

theorem pow?_eq (base : Int) (exponent : Nat) :
    pow? base exponent = inRange? (Int.pow base exponent) := by
  unfold pow?
  split
  · next small =>
    split
    · next zero =>
      subst zero
      exact congrArg inRange? (Int.pow_zero base).symm
    · next pos => rw [pow_parity small pos]
  · next large =>
    split
    · next long =>
      have grows : 2 ^ 64 ≤ (Int.pow base exponent).natAbs := by
        rw [show (Int.pow base exponent).natAbs = base.natAbs ^ exponent from Int.natAbs_pow base _]
        exact Nat.le_trans (Nat.pow_le_pow_right (by omega) long)
          (Nat.pow_le_pow_left (by omega) exponent)
      have outside : ¬ InRange (Int.pow base exponent) := by
        simp only [InRange, least, greatest]
        omega
      exact (if_neg outside).symm
    · rfl

def low32 (n : Int) : Nat := (n % 0x100000000).toNat

end ShiftReduce.Signed64
