import Mathlib.Data.List.Basic
import ShiftReduce.Text.Inspect
/-!
What is printed can be read. Decimal numerals are made of digits, with a minus sign before those of
negative numbers, and determine the number. An output that is written line by line determines its
lines, as long as no line contains a newline.
-/
namespace ShiftReduce

namespace Text

theorem isDigit_digitChar : ∀ d < 10, (digitChar d).isDigit = true := by decide

theorem isDigit_of_mem_decimal {n : Nat} {c : Char} (member : c ∈ decimal n) :
    c.isDigit = true := by
  induction n using Nat.strongRecOn with
  | ind n ih =>
    unfold decimal numeral at member
    split at member
    next small =>
      rw [List.mem_singleton.1 member]
      exact isDigit_digitChar n (by omega)
    next large =>
      rcases List.mem_append.1 member with before | last
      · exact ih (n / 10) (by omega) before
      · rw [List.mem_singleton.1 last]
        exact isDigit_digitChar (n % 10) (by omega)

theorem decimal_injective {m n : Nat} (same : decimal m = decimal n) : m = n := by
  have back (k : Nat) : value 10 (decimal k) = k := value_numeral (by omega) (by omega) k
  rw [← back m, ← back n, same]

theorem sign_or_digit_of_mem_signed {n : Int} {c : Char} (member : c ∈ signed n) :
    c = '-' ∨ c.isDigit = true := by
  cases n with
  | ofNat n => exact .inr (isDigit_of_mem_decimal member)
  | negSucc n =>
    rcases List.mem_cons.1 member with sign | digit
    · exact .inl sign
    · exact .inr (isDigit_of_mem_decimal digit)

theorem decimal_eq_cons (n : Nat) :
    ∃ c cs, decimal n = c :: cs ∧ c.isDigit = true ∧ (c = '0' → n = 0) := by
  induction n using Nat.strongRecOn with
  | ind n ih =>
    have zero : ∀ d < 10, digitChar d = '0' → d = 0 := by decide
    unfold decimal numeral
    split
    next small => exact ⟨_, [], rfl, isDigit_digitChar n (by omega), zero n (by omega)⟩
    next large =>
      obtain ⟨c, cs, first, digit, nonzero⟩ := ih (n / 10) (by omega)
      unfold decimal at first
      refine ⟨c, cs ++ [digitChar (n % 10)], by simp [first], digit, ?_⟩
      intro same
      have less := nonzero same
      omega

theorem decimal_append_ne_cons {c : Char} (other : c.isDigit = false) (n : Nat)
    (s rest : List Char) : decimal n ++ s ≠ c :: rest := by
  obtain ⟨d, ds, first, digit, _⟩ := decimal_eq_cons n
  rw [first]
  intro same
  rw [(List.cons.inj same).1, other] at digit
  cases digit

theorem decimal_ne_sign (m : Nat) (rest : List Char) : decimal m ≠ '-' :: rest := by
  have apart := decimal_append_ne_cons (c := '-') (by decide) m [] rest
  rwa [List.append_nil] at apart

theorem signed_append_ne_cons {c : Char} (other : c.isDigit = false) (minus : c ≠ '-') (n : Int)
    (s rest : List Char) : signed n ++ s ≠ c :: rest := by
  cases n with
  | ofNat n => exact decimal_append_ne_cons other n s rest
  | negSucc n =>
    intro same
    exact minus (List.cons.inj same).1.symm

theorem signed_injective {m n : Int} (same : signed m = signed n) : m = n := by
  cases m with
  | ofNat m =>
    cases n with
    | ofNat n => rw [decimal_injective same]
    | negSucc n => exact absurd same (decimal_ne_sign m _)
  | negSucc m =>
    cases n with
    | ofNat n => exact absurd same.symm (decimal_ne_sign n _)
    | negSucc n =>
      have next := decimal_injective (List.cons.inj same).2
      rw [Nat.succ.inj next]

theorem toList_integerText (n : Int) : (integerText n).toList = signed n := String.toList_ofList

theorem integerText_injective {m n : Int} (same : integerText m = integerText n) : m = n :=
  signed_injective (String.ofList_injective same)

theorem newline_not_mem_integerText (n : Int) : '\n' ∉ (integerText n).toList := by
  rw [toList_integerText]
  intro member
  rcases sign_or_digit_of_mem_signed member with sign | digit
  · exact absurd sign (by decide)
  · exact absurd digit (by decide)

end Text

/-- The output consists of these lines, each with a newline after it. -/
structure Prints (output : String) (lines : List String) : Prop where
  text : output.toList = lines.flatMap fun line => line.toList ++ ['\n']
  whole : ∀ line ∈ lines, '\n' ∉ line.toList

namespace Prints

variable {first second line : String} {xs ys : List String}

theorem none : Prints "" [] := ⟨rfl, List.forall_mem_nil _⟩

theorem single (whole : '\n' ∉ line.toList) : Prints (line ++ "\n") [line] := by
  refine ⟨?_, List.forall_mem_singleton.2 whole⟩
  rw [String.toList_append, List.flatMap_singleton]
  rfl

theorem append (before : Prints first xs) (after : Prints second ys) :
    Prints (first ++ second) (xs ++ ys) := by
  refine ⟨?_, List.forall_mem_append.2 ⟨before.whole, after.whole⟩⟩
  rw [String.toList_append, List.flatMap_append, before.text, after.text]

end Prints

theorem append_cons_inj_of_not_mem {α : Type} {x : α} {a b c d : List α} (left : x ∉ a)
    (right : x ∉ c) (same : a ++ x :: b = c ++ x :: d) : a = c ∧ b = d := by
  induction a generalizing c with
  | nil =>
    cases c with
    | nil => exact ⟨rfl, (List.cons.inj same).2⟩
    | cons y c =>
      obtain ⟨rfl, _⟩ := List.cons.inj same
      exact absurd List.mem_cons_self right
  | cons y a ih =>
    cases c with
    | nil =>
      obtain ⟨rfl, _⟩ := List.cons.inj same
      exact absurd List.mem_cons_self left
    | cons z c =>
      obtain ⟨rfl, rest⟩ := List.cons.inj same
      obtain ⟨rfl, tail⟩ := ih (List.not_mem_of_not_mem_cons left)
        (List.not_mem_of_not_mem_cons right) rest
      exact ⟨rfl, tail⟩

theorem Prints.unique {output : String} {xs ys : List String} (first : Prints output xs)
    (second : Prints output ys) : xs = ys := by
  have same := first.text.symm.trans second.text
  have whole := first.whole
  have whole' := second.whole
  clear first second
  induction xs generalizing ys with
  | nil =>
    cases ys with
    | nil => rfl
    | cons y ys => simp at same
  | cons x xs ih =>
    cases ys with
    | nil => simp at same
    | cons y ys =>
      simp only [List.flatMap_cons, List.append_assoc, List.singleton_append] at same
      obtain ⟨here, later⟩ := append_cons_inj_of_not_mem (List.forall_mem_cons.1 whole).1
        (List.forall_mem_cons.1 whole').1 same
      rw [String.toList_inj.1 here, ih later (List.forall_mem_cons.1 whole).2
        (List.forall_mem_cons.1 whole').2]

end ShiftReduce
