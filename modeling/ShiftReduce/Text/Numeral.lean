/-!
Positional numerals. `numeral` writes a natural number without leading zeros in a base up to
sixteen, with lower-case letters above nine; `value` reads digits back. The decimal readers
accept exactly the text that the decimal writers produce.
-/
namespace ShiftReduce.Text

def digitChar (d : Nat) : Char :=
  if d < 10 then Char.ofNat (48 + d) else Char.ofNat (87 + d)

def digitValue (c : Char) : Nat :=
  if c.toNat < 58 then c.toNat - 48 else c.toNat - 87

theorem digitValue_digitChar {d : Nat} (h : d < 16) : digitValue (digitChar d) = d :=
  (by decide : ∀ d, d < 16 → digitValue (digitChar d) = d) d h

def numeral (base n : Nat) : List Char :=
  if base < 2 ∨ n < base then [digitChar n]
  else numeral base (n / base) ++ [digitChar (n % base)]
termination_by n
decreasing_by exact Nat.div_lt_self (by omega) (by omega)

def value (base : Nat) (ds : List Char) : Nat :=
  ds.foldl (fun n d => base * n + digitValue d) 0

theorem value_append (base : Nat) (ds : List Char) (d : Char) :
    value base (ds ++ [d]) = base * value base ds + digitValue d := by
  simp [value]

theorem value_numeral {base : Nat} (lower : 2 ≤ base) (upper : base ≤ 16) (n : Nat) :
    value base (numeral base n) = n := by
  induction n using Nat.strongRecOn with
  | ind n ih =>
    rw [numeral]
    split
    · have : n < 16 := by omega
      simp [value, digitValue_digitChar this]
    · have small : n % base < 16 := Nat.lt_of_lt_of_le (Nat.mod_lt n (by omega)) upper
      rw [value_append, ih (n / base) (Nat.div_lt_self (by omega) (by omega)),
        digitValue_digitChar small, Nat.div_add_mod]

def decimal (n : Nat) : List Char := numeral 10 n

def natural? (cs : List Char) : Option Nat :=
  if decimal (value 10 cs) = cs then some (value 10 cs) else none

theorem natural?_eq_some_iff {cs : List Char} {n : Nat} :
    natural? cs = some n ↔ cs = decimal n := by
  have back : value 10 (decimal n) = n := value_numeral (by omega) (by omega) n
  constructor
  · intro h
    simp only [natural?, Option.ite_none_right_eq_some, Option.some.injEq] at h
    rw [← h.2, h.1]
  · rintro rfl
    simp [natural?, back]

def signed : Int → List Char
  | .ofNat n => decimal n
  | .negSucc n => '-' :: decimal (n + 1)

/-- The integer that `signed` writes this way: a minus sign never stands before zero. -/
def integer? : List Char → Option Int
  | '-' :: cs => (natural? cs).bind fun n => if n = 0 then none else some (-(n : Int))
  | cs => (natural? cs).map Int.ofNat

def naturalText (n : Nat) : String := String.ofList (decimal n)

def integerText (n : Int) : String := String.ofList (signed n)

end ShiftReduce.Text
