import Mathlib.Data.List.Basic
import ShiftReduce.Proofs.Printing
/-!
Texts that can be taken apart again. A text that is put together from parts determines them if each
part shows where it ends: by itself, as a quoted string does, or by what may follow it, as a numeral
does that no digit follows.
-/
namespace ShiftReduce.Text

section Unique

variable {α : Type} {write : α → List Char}

/-- With something of this kind after it, a text determines what is written and what follows. -/
structure UniqueBefore (next : List Char → Prop) (write : α → List Char) : Prop where
  parts : ∀ {a b s t}, next s → next t → write a ++ s = write b ++ t → a = b ∧ s = t

/-- A text determines what is written and what follows, whatever that is. -/
structure PrefixFree (write : α → List Char) : Prop where
  parts : ∀ {a b s t}, write a ++ s = write b ++ t → a = b ∧ s = t

theorem PrefixFree.before (free : PrefixFree write) (next : List Char → Prop) :
    UniqueBefore next write :=
  ⟨fun _ _ same => free.parts same⟩

theorem PrefixFree.of_reader (read : List Char → Option (α × List Char))
    (reads : ∀ a s, read (write a ++ s) = some (a, s)) : PrefixFree write := by
  constructor
  intro a b s t same
  have both := (reads a s).symm.trans (same ▸ reads b t)
  exact Prod.mk.inj (Option.some.inj both)

theorem UniqueBefore.injective {next : List Char → Prop} (unique : UniqueBefore next write)
    (nothing : next []) : Function.Injective write := by
  intro a b same
  exact (unique.parts nothing nothing (congrArg (· ++ []) same)).1

theorem UniqueBefore.closed {next : List Char → Prop} (inner : UniqueBefore next write)
    (opening closing : List Char) (ends : ∀ s, next (closing ++ s)) :
    PrefixFree fun a => opening ++ (write a ++ closing) := by
  constructor
  intro a b s t same
  simp only [List.append_assoc] at same
  obtain ⟨value, rest⟩ := inner.parts (ends s) (ends t) (List.append_cancel_left same)
  exact ⟨value, List.append_cancel_left rest⟩

theorem UniqueBefore.flatMap {next within : List Char → Prop} (item : UniqueBefore within write)
    (last : ∀ s, next s → within s) (more : ∀ a s, within (write a ++ s))
    (apart : ∀ a s, ¬ next (write a ++ s)) :
    UniqueBefore next fun xs : List α => xs.flatMap write := by
  constructor
  intro xs ys s t after after' same
  have follows {u : List Char} (ends : next u) (zs : List α) : within (zs.flatMap write ++ u) := by
    cases zs with
    | nil => exact last u ends
    | cons z zs =>
      rw [List.flatMap_cons, List.append_assoc]
      exact more z _
  induction xs generalizing ys with
  | nil =>
    cases ys with
    | nil => exact ⟨rfl, same⟩
    | cons y ys =>
      simp only [List.flatMap_nil, List.nil_append, List.flatMap_cons, List.append_assoc] at same
      rw [same] at after
      exact absurd after (apart y _)
  | cons x xs ih =>
    cases ys with
    | nil =>
      simp only [List.flatMap_nil, List.nil_append, List.flatMap_cons, List.append_assoc] at same
      rw [← same] at after'
      exact absurd after' (apart x _)
    | cons y ys =>
      simp only [List.flatMap_cons, List.append_assoc] at same
      obtain ⟨rfl, later⟩ := item.parts (follows after xs) (follows after' ys) same
      obtain ⟨rfl, rest⟩ := ih later
      exact ⟨rfl, rest⟩

end Unique

section Numerals

def NoDigitNext (s : List Char) : Prop := ∀ c ∈ s.head?, c.isDigit = false

theorem takeWhile_isDigit_decimal {n : Nat} {s : List Char} (next : NoDigitNext s) :
    (decimal n ++ s).takeWhile Char.isDigit = decimal n := by
  have ended : s.takeWhile Char.isDigit = [] := by
    cases s with
    | nil => rfl
    | cons c s => simp [next c rfl]
  rw [List.takeWhile_append_of_pos fun _ member => isDigit_of_mem_decimal member, ended,
    List.append_nil]

theorem decimal_unique : UniqueBefore NoDigitNext decimal := by
  constructor
  intro m n s t after after' same
  have digits := takeWhile_isDigit_decimal (n := m) after
  rw [same, takeWhile_isDigit_decimal after'] at digits
  obtain rfl := decimal_injective digits
  exact ⟨rfl, List.append_cancel_left same⟩

theorem signed_unique : UniqueBefore NoDigitNext signed := by
  have unsigned := decimal_append_ne_cons (c := '-') (by decide)
  constructor
  intro m n s t after after' same
  cases m with
  | ofNat m =>
    cases n with
    | ofNat n =>
      obtain ⟨rfl, rest⟩ := decimal_unique.parts after after' same
      exact ⟨rfl, rest⟩
    | negSucc n => exact absurd same (unsigned m s _)
  | negSucc m =>
    cases n with
    | ofNat n => exact absurd same.symm (unsigned n t _)
    | negSucc n =>
      obtain ⟨next, rest⟩ := decimal_unique.parts after after' (List.cons.inj same).2
      exact ⟨congrArg Int.negSucc (Nat.succ.inj next), rest⟩

theorem numeral_prefixFree (opening closing : List Char)
    (ends : ∀ s, NoDigitNext (closing ++ s)) :
    PrefixFree fun n : Nat => opening ++ (decimal n ++ closing) :=
  decimal_unique.closed opening closing ends

end Numerals

section Quoted

def escapedBy : Char → Char
  | 'n' => '\n'
  | 'r' => '\r'
  | 't' => '\t'
  | '0' => '\x00'
  | c => c

theorem escape_cases (c : Char) :
    (∃ letter, escape c = ['\\', letter] ∧ letter ≠ 'u' ∧ escapedBy letter = c) ∨
      escape c = codePoint c ∨ escape c = [c] ∧ c ≠ '"' ∧ c ≠ '\\' := by
  unfold escape
  split
  · exact .inl ⟨'"', rfl, by decide, rfl⟩
  · exact .inl ⟨'\\', rfl, by decide, rfl⟩
  · exact .inl ⟨'n', rfl, by decide, rfl⟩
  · exact .inl ⟨'r', rfl, by decide, rfl⟩
  · exact .inl ⟨'t', rfl, by decide, rfl⟩
  · exact .inl ⟨'0', rfl, by decide, rfl⟩
  next quote slash _ _ _ _ =>
    split
    · exact .inr (.inl rfl)
    · exact .inr (.inr ⟨rfl, quote, slash⟩)

def readEscape? : List Char → Option (Char × List Char)
  | '\\' :: 'u' :: '\x7b' :: rest =>
    let digits := rest.takeWhile (· ≠ '\x7d')
    some (Char.ofNat (value 16 digits), rest.drop (digits.length + 1))
  | '\\' :: letter :: rest => some (escapedBy letter, rest)
  | c :: rest => some (c, rest)
  | [] => none

theorem ne_brace_digitChar : ∀ d < 16, digitChar d ≠ '\x7d' := by decide

theorem ne_brace_of_mem_numeral {n : Nat} {c : Char} (member : c ∈ numeral 16 n) : c ≠ '\x7d' := by
  induction n using Nat.strongRecOn with
  | ind n ih =>
    unfold numeral at member
    split at member
    next small =>
      rw [List.mem_singleton.1 member]
      exact ne_brace_digitChar n (by omega)
    next large =>
      rcases List.mem_append.1 member with before | last
      · exact ih (n / 16) (by omega) before
      · rw [List.mem_singleton.1 last]
        exact ne_brace_digitChar (n % 16) (by omega)

theorem readEscape?_codePoint (c : Char) (s : List Char) :
    readEscape? (codePoint c ++ s) = some (c, s) := by
  have digits : (numeral 16 c.toNat ++ '\x7d' :: s).takeWhile (· ≠ '\x7d') =
      numeral 16 c.toNat := by
    rw [List.takeWhile_append_of_pos]
    · simp
    · intro d member
      exact decide_eq_true (ne_brace_of_mem_numeral member)
  have rest : (numeral 16 c.toNat ++ '\x7d' :: s).drop ((numeral 16 c.toNat).length + 1) = s := by
    simp
  have code : Char.ofNat (value 16 (numeral 16 c.toNat)) = c := by
    rw [value_numeral (by omega) (by omega), Char.ofNat_toNat]
  simp only [codePoint, List.cons_append, List.append_assoc, List.nil_append, readEscape?, digits,
    rest, code]

theorem readEscape?_escape (c : Char) (s : List Char) :
    readEscape? (escape c ++ s) = some (c, s) := by
  rcases escape_cases c with ⟨letter, escaped, other, meaning⟩ | escaped | ⟨escaped, _, slash⟩
  · rw [escaped, List.cons_append, List.singleton_append, readEscape?, meaning]
    exact fun _ same _ => other same
  · rw [escaped, readEscape?_codePoint]
  · rw [escaped, List.singleton_append, readEscape?]
    · exact fun _ same _ => slash same
    · exact fun _ _ same _ => slash same

theorem escape_prefixFree : PrefixFree escape := .of_reader readEscape? readEscape?_escape

theorem head?_escape_append (c : Char) (s : List Char) : (escape c ++ s).head? ≠ some '"' := by
  rcases escape_cases c with ⟨letter, escaped, _, _⟩ | escaped | ⟨escaped, quote, _⟩
  · simp [escaped]
  · simp [escaped, codePoint]
  · simp [escaped, quote]

theorem toList_quoted (x : String) :
    (quoted x).toList = '"' :: (x.toList.flatMap escape ++ ['"']) := String.toList_ofList

theorem quoted_prefixFree : PrefixFree fun x : String => (quoted x).toList := by
  have body : UniqueBefore (fun s => s.head? = some '"')
      fun cs : List Char => cs.flatMap escape :=
    (escape_prefixFree.before fun _ => True).flatMap (fun _ _ => trivial) (fun _ _ => trivial)
      head?_escape_append
  constructor
  intro x y s t same
  rw [toList_quoted, toList_quoted] at same
  obtain ⟨chars, rest⟩ := (body.closed ['"'] ['"'] fun _ => rfl).parts same
  exact ⟨String.toList_inj.1 chars, rest⟩

end Quoted

end ShiftReduce.Text
