import Mathlib.Data.List.TakeWhile
import ShiftReduce.Arithmetic.Lexer
import ShiftReduce.Calculator.Lexer
import ShiftReduce.SExpression.Lexer
import ShiftReduce.Proofs.Cuts
/-!
The vocabularies of the lexicons. Those of arithmetic have integers, one star and two, and signs of
a single character; that of symbolic expressions has parentheses and atoms. A boundary between two
characters separates them unless both are digits or both are stars, or both belong to an atom. So
a run of such characters is cut on its own: digits into one slice, stars by twos, and characters of
an atom into the digits that come first and the atom itself.
-/
namespace ShiftReduce

section Runs

variable {joins : Char → Char → Prop} {p : Char → Bool} {c : Char} {rest more : List Char}

theorem takeWhile_append_of_apart (joined : ∀ a b, p a = true → p b = true → joins a b)
    (first : p c = true) (apart : Apart joins (c :: rest) more) :
    (rest ++ more).takeWhile p = rest.takeWhile p := by
  rw [List.takeWhile_append]
  split
  next whole =>
    -- The run reaches the boundary, so what comes after must not extend it.
    have prefixed : rest.takeWhile p = rest :=
      (List.takeWhile_prefix p).eq_of_length whole
    have inside : ∀ d ∈ c :: rest, p d = true := by
      intro d member
      rcases List.mem_cons.1 member with rfl | later
      · exact first
      · rw [← prefixed] at later
        exact List.mem_takeWhile_imp later
    cases more with
    | nil => simp [prefixed]
    | cons d more =>
      have last := List.getLast?_eq_some_getLast (List.cons_ne_nil c rest)
      have other : ¬ p d = true := by
        intro holds
        exact apart _ last d rfl (joined _ _ (inside _ (List.getLast_mem _)) holds)
      rw [List.takeWhile_cons_of_neg other, List.append_nil, prefixed]
  · rfl

theorem blank_cases (blank : isBlank c = true) : c = ' ' ∨ c = '\t' ∨ c = '\n' ∨ c = '\x0c' := by
  simpa [isBlank, or_assoc] using blank

theorem not_isDigit_of_blank (blank : isBlank c = true) : c.isDigit = false := by
  rcases blank_cases blank with rfl | rfl | rfl | rfl <;> rfl

theorem not_blank_of_isDigit (digit : c.isDigit = true) : isBlank c = false := by
  cases blank : isBlank c with
  | false => rfl
  | true => simp [not_isDigit_of_blank blank] at digit

end Runs

structure Vocabulary (T : Type) where
  integer : Int → T
  times : T
  power : T
  sign? : Char → Option T

namespace Vocabulary

variable {K : Type} {v : Vocabulary K} {lexicon : Lexicon K}

def map {T : Type} (f : K → T) (v : Vocabulary K) : Vocabulary T :=
  ⟨fun n => f (v.integer n), f v.times, f v.power, fun c => (v.sign? c).map f⟩

theorem map_id (v : Vocabulary K) : v.map id = v := by
  unfold map
  congr 1
  funext c
  exact Option.map_id_apply

structure Governs (v : Vocabulary K) (lexicon : Lexicon K) : Prop where
  integer : ∀ c rest, c.isDigit = true → lexicon c rest = integerRun v.integer c rest
  power : ∀ rest, lexicon '*' ('*' :: rest) = (some v.power, 1)
  times : ∀ rest, rest.head? ≠ some '*' → lexicon '*' rest = (some v.times, 0)
  other : ∀ c rest, c.isDigit = false → c ≠ '*' → lexicon c rest = (v.sign? c, 0)
  sign : ∀ c, (v.sign? c).isSome → isBlank c = false ∧ c.isDigit = false ∧ c ≠ '*'

/-- Tries stars first and signs last. -/
def finds (v : Vocabulary K) : Lexicon K
  | '*', '*' :: _ => (some v.power, 1)
  | '*', _ => (some v.times, 0)
  | c, rest => if c.isDigit then integerRun v.integer c rest else (v.sign? c, 0)

theorem governs_finds (signs : ∀ c, (v.sign? c).isSome → c ∈ ['(', ')', '+', '-', '/']) :
    v.Governs v.finds where
  integer c rest digit := by
    unfold finds
    split
    · exact absurd digit (by decide)
    · exact absurd digit (by decide)
    · exact if_pos digit
  power rest := rfl
  times rest single := by
    unfold finds
    split <;> simp_all
  other c rest digit star := by
    unfold finds
    split <;> simp_all
  sign c known := by
    have plain := signs c known
    simp only [List.mem_cons, List.not_mem_nil, or_false] at plain
    rcases plain with rfl | rfl | rfl | rfl | rfl <;> decide

def Joins (a b : Char) : Prop := a.isDigit = true ∧ b.isDigit = true ∨ a = '*' ∧ b = '*'

theorem Governs.cases (governs : v.Governs lexicon) (c : Char) (rest : List Char) :
    (c.isDigit = true ∧ lexicon c rest = integerRun v.integer c rest) ∨
    (c = '*' ∧ (∃ later, rest = '*' :: later) ∧ lexicon c rest = (some v.power, 1)) ∨
    (c = '*' ∧ rest.head? ≠ some '*' ∧ lexicon c rest = (some v.times, 0)) ∨
    (c.isDigit = false ∧ c ≠ '*' ∧ lexicon c rest = (v.sign? c, 0)) := by
  by_cases digit : c.isDigit = true
  · exact .inl ⟨digit, governs.integer c rest digit⟩
  · have noDigit : c.isDigit = false := by simpa using digit
    by_cases star : c = '*'
    · subst star
      by_cases second : rest.head? = some '*'
      · obtain ⟨later, rfl⟩ := List.head?_eq_some_iff.1 second
        exact .inr (.inl ⟨rfl, ⟨later, rfl⟩, governs.power later⟩)
      · exact .inr (.inr (.inl ⟨rfl, second, governs.times rest second⟩))
    · exact .inr (.inr (.inr ⟨noDigit, star, governs.other c rest noDigit star⟩))

theorem Governs.solid (governs : v.Governs lexicon) : lexicon.Solid := by
  intro c rest visible d member
  rcases governs.cases c rest with ⟨_, found⟩ | ⟨_, ⟨later, rfl⟩, found⟩ | ⟨_, _, found⟩ |
    ⟨_, _, found⟩
  · rw [found, integerRun, ← List.prefix_iff_eq_take.1 (List.takeWhile_prefix _)] at member
    exact not_blank_of_isDigit (List.mem_takeWhile_imp member)
  · rw [found] at member
    obtain rfl := List.mem_singleton.1 member
    rfl
  · rw [found] at member
    cases member
  · rw [found] at member
    cases member

theorem Governs.local (governs : v.Governs lexicon) : lexicon.Local Joins where
  bounded c rest := by
    rcases governs.cases c rest with ⟨_, found⟩ | ⟨_, ⟨later, rfl⟩, found⟩ | ⟨_, _, found⟩ |
      ⟨_, _, found⟩
    · rw [found]
      exact (List.takeWhile_prefix _).length_le
    · rw [found]
      simp
    · rw [found]
      exact Nat.zero_le _
    · rw [found]
      exact Nat.zero_le _
  undisturbed c rest more apart := by
    rcases governs.cases c rest with ⟨digit, found⟩ | ⟨rfl, ⟨later, rfl⟩, found⟩ |
      ⟨rfl, single, found⟩ | ⟨digit, star, found⟩
    · have same := takeWhile_append_of_apart (fun a b first second => .inl ⟨first, second⟩)
        digit apart
      rw [found, governs.integer c _ digit, integerRun, integerRun, same]
    · rw [found]
      exact governs.power (later ++ more)
    · rw [found]
      apply governs.times
      cases rest with
      | cons d rest => exact single
      | nil =>
        intro head
        exact apart '*' rfl '*' head (.inr ⟨rfl, rfl⟩)
    · rw [found, governs.other c _ digit star]

section Cuts

variable (governs : v.Governs lexicon)
include governs

theorem Governs.cuts_integer {c : Char} {rest after : List Char}
    (inside : ∀ d ∈ c :: rest, d.isDigit = true) (apart : Apart Joins (c :: rest) after) :
    cuts lexicon (c :: rest ++ after) =
      ((Signed64.inRange? (Text.value 10 (c :: rest))).map v.integer, c :: rest) ::
        cuts lexicon after := by
  obtain ⟨digit, later⟩ := List.forall_mem_cons.1 inside
  have alone : lexicon c rest =
      ((Signed64.inRange? (Text.value 10 (c :: rest))).map v.integer, rest.length) := by
    rw [governs.integer c rest digit, integerRun, List.takeWhile_eq_self_iff.2 later]
  rw [governs.local.cuts_append apart, cuts_visible (not_blank_of_isDigit digit), alone]
  simp

theorem Governs.cuts_power (after : List Char) :
    cuts lexicon ('*' :: '*' :: after) = (some v.power, ['*', '*']) :: cuts lexicon after := by
  rw [cuts_visible rfl, governs.power]
  rfl

theorem Governs.cuts_times {after : List Char} (single : after.head? ≠ some '*') :
    cuts lexicon ('*' :: after) = (some v.times, ['*']) :: cuts lexicon after := by
  rw [cuts_visible rfl, governs.times after single]
  rfl

theorem Governs.cuts_other {c : Char} (visible : isBlank c = false) (digit : c.isDigit = false)
    (star : c ≠ '*') (after : List Char) :
    cuts lexicon (c :: after) = (v.sign? c, [c]) :: cuts lexicon after := by
  rw [cuts_visible visible, governs.other c after digit star]
  rfl

theorem Governs.cuts_stars : (count : Nat) →
    cuts lexicon (List.replicate count '*') =
      List.replicate (count / 2) (some v.power, ['*', '*']) ++
        List.replicate (count % 2) (some v.times, ['*'])
  | 0 => cuts_nil
  | 1 => by
    change cuts lexicon ['*'] = [(some v.times, ['*'])]
    rw [governs.cuts_times (by simp), cuts_nil]
  | count + 2 => by
    have pairs : (count + 2) / 2 = count / 2 + 1 := by omega
    have odd : (count + 2) % 2 = count % 2 := by omega
    rw [List.replicate_succ, List.replicate_succ, governs.cuts_power, cuts_stars count, pairs, odd,
      List.replicate_succ]
    rfl

end Cuts

end Vocabulary

namespace Arithmetic

def sign? : Char → Option Kind
  | '(' => some .leftParen
  | ')' => some .rightParen
  | '+' => some .plus
  | _ => none

def kinds : Vocabulary Kind := ⟨.integer, .times, .power, sign?⟩

theorem lexicon_eq : lexicon = kinds.finds := by
  funext c rest
  unfold lexicon
  split <;> simp_all [Vocabulary.finds, kinds, sign?]

theorem kinds_govern : kinds.Governs lexicon := by
  rw [lexicon_eq]
  apply Vocabulary.governs_finds
  intro c known
  simp only [kinds, sign?] at known
  split at known <;> simp_all

def vocabulary : Vocabulary (String × Int) where
  integer n := ("INT", n)
  times := ("*", 0)
  power := ("**", 0)
  sign?
    | '(' => some ("(", 0)
    | ')' => some (")", 0)
    | '+' => some ("+", 0)
    | _ => none

def lexer : Lexer Kind String Int LexError where
  lexicon := lexicon
  carried kind _ := (kind.symbol, kind.value)
  error := .mk
  text := LexError.text
  text_error _ _ := rfl

theorem tokens_eq_items (text : String) : tokens text = lexer.items text := rfl

theorem map_kinds : kinds.map (fun kind => (kind.symbol, kind.value)) = vocabulary := by
  unfold Vocabulary.map vocabulary
  congr 1
  funext c
  simp only [kinds, sign?]
  split <;> rfl

end Arithmetic

namespace Calculator

def sign? : Char → Option (Symbol × Expr)
  | '(' => some (.leftParen, .punct)
  | ')' => some (.rightParen, .punct)
  | '+' => some (.plus, .punct)
  | '-' => some (.minus, .punct)
  | '/' => some (.slash, .punct)
  | _ => none

def vocabulary : Vocabulary (Symbol × Expr) :=
  ⟨fun n => (.int, .num n), (.star, .punct), (.starStar, .punct), sign?⟩

theorem lexicon_eq : lexicon = vocabulary.finds := by
  funext c rest
  unfold lexicon
  split <;> simp_all [Vocabulary.finds, vocabulary, sign?]

theorem vocabulary_governs : vocabulary.Governs lexicon := by
  rw [lexicon_eq]
  apply Vocabulary.governs_finds
  intro c known
  simp only [vocabulary, sign?] at known
  split at known <;> simp_all

def lexer : Lexer (Symbol × Expr) Symbol Expr LexError where
  lexicon := lexicon
  carried kind _ := kind
  error := .mk
  text := LexError.text
  text_error _ _ := rfl

theorem tokens_eq_items (text : String) : tokens text = lexer.items text := rfl

end Calculator

namespace SExpression

def Joins (a b : Char) : Prop := continuesAtom a = true ∧ continuesAtom b = true

def sign? : Char → Option Kind
  | '(' => some .leftParen
  | ')' => some .rightParen
  | _ => none

theorem continuesAtom_of_startsAtom {c : Char} (starts : startsAtom c = true) :
    continuesAtom c = true := by
  simp [continuesAtom, starts]

theorem not_continuesAtom_of_blank {c : Char} (blank : isBlank c = true) :
    continuesAtom c = false := by
  rcases blank_cases blank with rfl | rfl | rfl | rfl <;> rfl

theorem not_blank_of_continuesAtom {c : Char} (continues : continuesAtom c = true) :
    isBlank c = false := by
  cases blank : isBlank c with
  | false => rfl
  | true => simp [not_continuesAtom_of_blank blank] at continues

theorem startsAtom_ofNat : ∀ n < 58, 48 ≤ n → startsAtom (Char.ofNat n) = false := by decide

theorem not_startsAtom_of_isDigit {c : Char} (digit : c.isDigit = true) :
    startsAtom c = false := by
  have bounds : 48 ≤ c.toNat ∧ c.toNat ≤ 57 := by
    simpa [Char.isDigit, UInt32.le_iff_toNat_le] using digit
  rw [← Char.ofNat_toNat c]
  exact startsAtom_ofNat c.toNat (by omega) bounds.1

theorem sign?_eq_none_of_continuesAtom {c : Char} (continues : continuesAtom c = true) :
    sign? c = none := by
  unfold sign?
  split
  · exact absurd continues (by decide)
  · exact absurd continues (by decide)
  · rfl

theorem lexicon_of_startsAtom {c : Char} (starts : startsAtom c = true) (rest : List Char) :
    lexicon c rest = (some .atom, (rest.takeWhile continuesAtom).length) := by
  unfold lexicon
  split
  · exact absurd starts (by decide)
  · exact absurd starts (by decide)
  · exact if_pos starts

theorem lexicon_of_not_startsAtom {c : Char} (other : startsAtom c = false) (rest : List Char) :
    lexicon c rest = (sign? c, 0) := by
  unfold lexicon
  split
  · rfl
  · rfl
  next left right =>
    rw [if_neg (by simp [other])]
    unfold sign?
    split
    · exact absurd rfl left
    · exact absurd rfl right
    · rfl

theorem lexicon_solid : lexicon.Solid := by
  intro c rest visible d member
  by_cases starts : startsAtom c = true
  · rw [lexicon_of_startsAtom starts,
      ← List.prefix_iff_eq_take.1 (List.takeWhile_prefix _)] at member
    exact not_blank_of_continuesAtom (List.mem_takeWhile_imp member)
  · rw [lexicon_of_not_startsAtom (by simpa using starts)] at member
    cases member

theorem lexicon_local : lexicon.Local Joins where
  bounded c rest := by
    by_cases starts : startsAtom c = true
    · rw [lexicon_of_startsAtom starts]
      exact (List.takeWhile_prefix _).length_le
    · rw [lexicon_of_not_startsAtom (by simpa using starts)]
      exact Nat.zero_le _
  undisturbed c rest more apart := by
    by_cases starts : startsAtom c = true
    · have same := takeWhile_append_of_apart (fun a b first second => ⟨first, second⟩)
        (continuesAtom_of_startsAtom starts) apart
      rw [lexicon_of_startsAtom starts, lexicon_of_startsAtom starts, same]
    · have other : startsAtom c = false := by simpa using starts
      rw [lexicon_of_not_startsAtom other, lexicon_of_not_startsAtom other]

theorem cuts_atom {c : Char} {rest : List Char} (starts : startsAtom c = true)
    (inside : ∀ d ∈ rest, continuesAtom d = true) :
    cuts lexicon (c :: rest) = [(some .atom, c :: rest)] := by
  have visible := not_blank_of_continuesAtom (continuesAtom_of_startsAtom starts)
  rw [cuts_visible visible, lexicon_of_startsAtom starts, List.takeWhile_eq_self_iff.2 inside]
  simp

theorem cuts_other {c : Char} (visible : isBlank c = false) (other : startsAtom c = false)
    (after : List Char) :
    cuts lexicon (c :: after) = (sign? c, [c]) :: cuts lexicon after := by
  rw [cuts_visible visible, lexicon_of_not_startsAtom other]
  rfl

theorem cuts_digits {digits : List Char} (numeric : ∀ c ∈ digits, c.isDigit = true)
    (after : List Char) :
    cuts lexicon (digits ++ after) =
      digits.map (fun c => (none, [c])) ++ cuts lexicon after := by
  induction digits with
  | nil => rfl
  | cons c rest ih =>
    obtain ⟨digit, later⟩ := List.forall_mem_cons.1 numeric
    have continues : continuesAtom c = true := by simp [continuesAtom, digit]
    rw [List.cons_append, cuts_other (not_blank_of_isDigit digit) (not_startsAtom_of_isDigit digit),
      sign?_eq_none_of_continuesAtom continues, ih later]
    rfl

def lexer : Lexer Kind String String LexError where
  lexicon := lexicon
  carried kind text := (kind.symbol, String.ofList text)
  error := .mk
  text := LexError.text
  text_error _ _ := rfl

theorem slices_eq_items (text : String) :
    slices text = lexer.items text ++ [.ok ⟨endSymbol, "", none⟩] := rfl

end SExpression

end ShiftReduce
