import ShiftReduce.Proofs.LongestMatch
import ShiftReduce.Proofs.Printing
/-!
Lexing undoes printing. A text lays out tokens when it writes one after the other, each as it is
spelled, with any blanks before, between and after them, and a blank at least between two that
would run into each other. From such a text exactly these tokens are read.
-/
namespace ShiftReduce

variable {K S V E T : Type}

/-- How tokens are spelled, and which of them run into each other. -/
structure Script (T : Type) where
  Spells : T → List Char → Prop
  Clash : T → T → Prop

structure Placed (script : Script T) where
  token : T
  word : List Char
  gap : List Char
  spelled : script.Spells token word
  blank : ∀ c ∈ gap, isBlank c = true

/-- Tokens with blanks before the first and after each, and some where two would clash. -/
structure Layout (script : Script T) where
  lead : List Char
  placed : List (Placed script)
  blank : ∀ c ∈ lead, isBlank c = true
  spaced : placed.IsChain fun x y => script.Clash x.token y.token → x.gap ≠ []

inductive Script.Bounds (script : Script T) (token : T) : List Char → Prop
  | nothing : script.Bounds token []
  | blank {c : Char} {rest : List Char} (blank : isBlank c = true) :
    script.Bounds token (c :: rest)
  | word {next : T} {word rest : List Char} (spelled : script.Spells next word)
    (clear : ¬ script.Clash token next) : script.Bounds token (word ++ rest)

/-- What is spelled is read, whatever stands after it without running into it. -/
structure Script.Legible (script : Script T) (read : List Char → List (Reading T)) : Prop where
  empty : read [] = []
  blank : ∀ c after, isBlank c = true → read (c :: after) = read after
  word : ∀ token word after, script.Spells token word → script.Bounds token after →
    read (word ++ after) = ⟨some token, word⟩ :: read after

namespace Layout

variable {script : Script T} {read : List Char → List (Reading T)}

def written (xs : List (Placed script)) : List Char := xs.flatMap fun x => x.word ++ x.gap

def text (x : Layout script) : String := String.ofList (x.lead ++ written x.placed)

def tokens (x : Layout script) : List T := x.placed.map Placed.token

theorem bounds_written {x : Placed script} {xs : List (Placed script)}
    (spaced : (x :: xs).IsChain fun x y => script.Clash x.token y.token → x.gap ≠ []) :
    script.Bounds x.token (x.gap ++ written xs) := by
  cases gap : x.gap with
  | cons c rest => exact .blank (x.blank c (by simp [gap]))
  | nil =>
    -- Without a gap the next word follows at once, so the two must not clash.
    cases xs with
    | nil => exact .nothing
    | cons y ys =>
      have clear : ¬ script.Clash x.token y.token := by
        intro clash
        exact (List.isChain_cons_cons.1 spaced).1 clash gap
      have first : [] ++ written (y :: ys) = y.word ++ (y.gap ++ written ys) := by
        simp [written]
      rw [first]
      exact .word y.spelled clear

theorem read_blanks (legible : script.Legible read) {gap : List Char}
    (blank : ∀ c ∈ gap, isBlank c = true) (after : List Char) :
    read (gap ++ after) = read after := by
  induction gap with
  | nil => rfl
  | cons c rest ih =>
    obtain ⟨here, later⟩ := List.forall_mem_cons.1 blank
    rw [List.cons_append, legible.blank c _ here, ih later]

theorem read_written (legible : script.Legible read) {xs : List (Placed script)}
    (spaced : xs.IsChain fun x y => script.Clash x.token y.token → x.gap ≠ []) :
    read (written xs) = xs.map fun x => ⟨some x.token, x.word⟩ := by
  induction xs with
  | nil => exact legible.empty
  | cons x xs ih =>
    have first : written (x :: xs) = x.word ++ (x.gap ++ written xs) := by
      simp [written]
    rw [first, legible.word x.token x.word _ x.spelled (bounds_written spaced),
      read_blanks legible x.blank, ih spaced.of_cons]
    rfl

theorem map_found_read (legible : script.Legible read) (x : Layout script) :
    (read x.text.toList).map Reading.found = x.tokens.map .ok := by
  rw [text, String.toList_ofList, read_blanks legible x.blank, read_written legible x.spaced,
    tokens, List.map_map, List.map_map]
  rfl

end Layout

namespace Text

def padded (zeros n : Nat) : List Char := List.replicate zeros '0' ++ decimal n

theorem isDigit_of_mem_padded {zeros n : Nat} {c : Char} (member : c ∈ padded zeros n) :
    c.isDigit = true := by
  rcases List.mem_append.1 member with zero | digit
  · rw [List.eq_of_mem_replicate zero]
    rfl
  · exact isDigit_of_mem_decimal digit

theorem value_padded (zeros n : Nat) : value 10 (padded zeros n) = n := by
  induction zeros with
  | zero => exact value_numeral (by omega) (by omega) n
  | succ zeros ih => exact ih

theorem padded_ne_nil (zeros n : Nat) : padded zeros n ≠ [] := by
  intro empty
  have none : decimal n = [] := (List.append_eq_nil_iff.1 empty).2
  unfold decimal numeral at none
  split at none
  · cases none
  · exact absurd none (by simp)

end Text

namespace Vocabulary

/-- Integers are written with any number of zeros before them. -/
inductive Spells (v : Vocabulary T) : T → List Char → Prop
  | integer (n zeros : Nat) (small : n ≤ 0x7FFFFFFFFFFFFFFF) :
    v.Spells (v.integer n) (Text.padded zeros n)
  | times : v.Spells v.times ['*']
  | power : v.Spells v.power ['*', '*']
  | sign (c : Char) (token : T) (known : v.sign? c = some token) : v.Spells token [c]

/-- Two integers run into each other, and a star runs into what starts with one. -/
def Clash (v : Vocabulary T) (x y : T) : Prop :=
  (∃ m n, x = v.integer m ∧ y = v.integer n) ∨ x = v.times ∧ (y = v.times ∨ y = v.power)

def script (v : Vocabulary T) : Script T := ⟨v.Spells, v.Clash⟩

section Legible

variable {kinds : Vocabulary K} {lexicon : Lexicon K} {f : K → T} {after : List Char} {c : Char}

theorem Governs.sign_of_map (governs : kinds.Governs lexicon) {token : T}
    (known : (kinds.map f).sign? c = some token) :
    (∃ kind, kinds.sign? c = some kind ∧ f kind = token) ∧
      isBlank c = false ∧ c.isDigit = false ∧ c ≠ '*' := by
  obtain ⟨kind, found, same⟩ := Option.map_eq_some_iff.1 known
  exact ⟨⟨kind, found, same⟩, governs.sign c (by rw [found]; rfl)⟩

theorem Governs.not_digit_of_bounds (governs : kinds.Governs lexicon) {n : Int}
    (bounds : (kinds.map f).script.Bounds ((kinds.map f).integer n) after)
    (head : c ∈ after.head?) : c.isDigit = false := by
  cases bounds with
  | nothing => cases head
  | blank blank =>
    obtain rfl := Option.some.inj head
    exact not_isDigit_of_blank blank
  | word spelled clear =>
    cases spelled with
    | integer m zeros small => exact absurd (.inl ⟨n, m, rfl, rfl⟩) clear
    | times =>
      obtain rfl := Option.some.inj head
      rfl
    | power =>
      obtain rfl := Option.some.inj head
      rfl
    | sign d token known =>
      obtain rfl := Option.some.inj head
      exact (governs.sign_of_map known).2.2.1

theorem Governs.not_star_of_bounds (governs : kinds.Governs lexicon)
    (bounds : (kinds.map f).script.Bounds (kinds.map f).times after) :
    after.head? ≠ some '*' := by
  intro head
  cases bounds with
  | nothing => cases head
  | blank blank =>
    obtain rfl := Option.some.inj head
    cases blank
  | word spelled clear =>
    cases spelled with
    | integer m zeros small =>
      have member : '*' ∈ Text.padded zeros m := by
        apply List.mem_of_mem_head?
        rwa [List.head?_append_of_ne_nil _ (Text.padded_ne_nil zeros m)] at head
      exact absurd (Text.isDigit_of_mem_padded member) (by decide)
    | times => exact absurd (.inr ⟨rfl, .inl rfl⟩) clear
    | power => exact absurd (.inr ⟨rfl, .inr rfl⟩) clear
    | sign d token known =>
      obtain rfl := Option.some.inj head
      exact (governs.sign_of_map known).2.2.2 rfl

end Legible

theorem Governs.legible {kinds : Vocabulary K} {l : Lexer K S V E} {f : K → S × V}
    (governs : kinds.Governs l.lexicon) (carries : ∀ kind text, l.carried kind text = f kind) :
    (kinds.map f).script.Legible l.readings where
  empty := Lexer.readings_nil
  blank c after blank := by rw [Lexer.readings, cuts_blank blank, Lexer.readings]
  word token word after spelled bounds := by
    cases spelled with
    | integer n zeros small =>
      have inside : ∀ d ∈ Text.padded zeros n, d.isDigit = true := fun d member =>
        Text.isDigit_of_mem_padded member
      have value := Text.value_padded zeros n
      obtain ⟨c, rest, written⟩ := List.exists_cons_of_ne_nil (Text.padded_ne_nil zeros n)
      rw [written] at inside value ⊢
      have apart : Apart Joins (c :: rest) after := by
        intro a last b head joined
        have digit := inside a (List.mem_of_mem_getLast? last)
        rw [isDigit_eq_of_joins joined, governs.not_digit_of_bounds bounds head] at digit
        cases digit
      rw [Lexer.readings, governs.cuts_integer inside apart, value, inRange?_natCast,
        if_pos small, List.map_cons]
      simp [carries, Vocabulary.map, Lexer.readings]
    | times =>
      have single := governs.not_star_of_bounds bounds
      rw [List.singleton_append, Lexer.readings, governs.cuts_times single, List.map_cons]
      simp [carries, Vocabulary.map, Lexer.readings]
    | power =>
      rw [List.cons_append, List.singleton_append, Lexer.readings, governs.cuts_power,
        List.map_cons]
      simp [carries, Vocabulary.map, Lexer.readings]
    | sign c token known =>
      obtain ⟨⟨kind, found, same⟩, visible, digit, star⟩ := governs.sign_of_map known
      rw [List.singleton_append, Lexer.readings, governs.cuts_other visible digit star,
        List.map_cons, found]
      simp [carries, same, Lexer.readings]

end Vocabulary

namespace SExpression

inductive Spells : String × String → List Char → Prop
  | leftParen : Spells ("(", "(") ['(']
  | rightParen : Spells (")", ")") [')']
  | atom (c : Char) (rest : List Char) (starts : startsAtom c = true)
    (inside : ∀ d ∈ rest, continuesAtom d = true) :
    Spells ("ATOM", String.ofList (c :: rest)) (c :: rest)

def Clash (x y : String × String) : Prop := x.1 = "ATOM" ∧ y.1 = "ATOM"

def script : Script (String × String) := ⟨Spells, Clash⟩

theorem not_continuesAtom_of_bounds {text : String} {after : List Char} {c : Char}
    (bounds : script.Bounds ("ATOM", text) after) (head : c ∈ after.head?) :
    continuesAtom c = false := by
  cases bounds with
  | nothing => cases head
  | blank blank =>
    obtain rfl := Option.some.inj head
    exact not_continuesAtom_of_blank blank
  | word spelled clear =>
    cases spelled with
    | leftParen =>
      obtain rfl := Option.some.inj head
      decide
    | rightParen =>
      obtain rfl := Option.some.inj head
      decide
    | atom d rest starts inside => exact absurd ⟨rfl, rfl⟩ clear

theorem legible : script.Legible lexer.readings where
  empty := Lexer.readings_nil
  blank c after blank := by rw [Lexer.readings, cuts_blank blank, Lexer.readings]
  word token word after spelled bounds := by
    cases spelled with
    | leftParen =>
      have alone := cuts_other (c := '(') (by decide) (by decide) after
      exact congrArg (List.map _) alone
    | rightParen =>
      have alone := cuts_other (c := ')') (by decide) (by decide) after
      exact congrArg (List.map _) alone
    | atom c rest starts inside =>
      have apart : Apart Joins (c :: rest) after := by
        rintro a _ b head ⟨_, continues⟩
        rw [not_continuesAtom_of_bounds bounds head] at continues
        cases continues
      have first := lexicon_local.cuts_append apart
      rw [cuts_atom starts inside] at first
      exact congrArg (List.map _) first

end SExpression

/-- Exactly the tokens that a text lays out are read from it, whatever the blanks. -/
theorem lexing_undoes_printing :
    (∀ x : Layout Arithmetic.vocabulary.script,
      (Arithmetic.tokens x.text).map (bare LexError.text) = x.tokens.map .ok) ∧
    (∀ x : Layout Calculator.vocabulary.script,
      (Calculator.tokens x.text).map (bare Calculator.LexError.text) = x.tokens.map .ok) ∧
    ∀ x : Layout SExpression.script,
      (SExpression.slices x.text).map (bare LexError.text) =
        x.tokens.map .ok ++ [.ok (SExpression.endSymbol, "")] := by
  refine ⟨fun x => ?_, fun x => ?_, fun x => ?_⟩
  · have legible := Arithmetic.kinds_govern.legible (l := Arithmetic.lexer) fun _ _ => rfl
    rw [Arithmetic.map_kinds] at legible
    rw [Arithmetic.tokens_eq_items, ← Layout.map_found_read legible]
    exact Arithmetic.lexer.map_bare_items x.text
  · have legible := Calculator.vocabulary_governs.legible (l := Calculator.lexer) (f := id)
      fun _ _ => rfl
    rw [Calculator.vocabulary.map_id] at legible
    rw [Calculator.tokens_eq_items, ← Layout.map_found_read legible]
    exact Calculator.lexer.map_bare_items x.text
  · rw [SExpression.slices_eq_items, List.map_append,
      ← Layout.map_found_read SExpression.legible]
    exact congrArg (· ++ _) (SExpression.lexer.map_bare_items x.text)

def starred : Layout Calculator.vocabulary.script where
  lead := ['\n', ' ']
  placed := [
    ⟨(.int, .num 7), Text.padded 2 7, [], .integer 7 2 (by decide), by simp⟩,
    ⟨(.starStar, .punct), ['*', '*'], [], .power, by simp⟩,
    ⟨(.star, .punct), ['*'], ['\t'], .times, List.forall_mem_singleton.2 rfl⟩,
    ⟨(.starStar, .punct), ['*', '*'], [], .power, by simp⟩,
    ⟨(.leftParen, .punct), ['('], [], .sign '(' _ rfl, by simp⟩]
  blank := List.forall_mem_cons.2 ⟨rfl, List.forall_mem_singleton.2 rfl⟩
  spaced := by simp [Vocabulary.script, Vocabulary.Clash, Calculator.vocabulary]

theorem starred_read :
    starred.text = "\n 007***\t**(" ∧
    (Calculator.tokens "\n 007***\t**(").map (bare Calculator.LexError.text) =
      [.ok (.int, .num 7), .ok (.starStar, .punct), .ok (.star, .punct), .ok (.starStar, .punct),
        .ok (.leftParen, .punct)] := by
  have zeros : Text.padded 2 7 = ['0', '0', '7'] := by
    simp [Text.padded, Text.decimal, Text.numeral, Text.digitChar]
  have written : starred.text = "\n 007***\t**(" := by
    rw [Layout.text, starred, Layout.written]
    simp [zeros]
  have read := lexing_undoes_printing.2.1 starred
  rw [written] at read
  exact ⟨written, read⟩

end ShiftReduce
