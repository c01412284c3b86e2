import ShiftReduce.Proofs.Vocabulary
/-!
Lexing loses nothing and takes the longest match. What is read from a text is what is read before a
maximal run, what the run stands for, and what is read after it: one integer or one error for
digits, pairs of stars and what is left for stars, and an atom after the digits that come first for
the characters of an atom. Any other character that is no blank is read on its own.
-/
namespace ShiftReduce

variable {K S V E T : Type}

/-- A stretch of a text that cannot be extended, all of whose characters pass a test. -/
structure MaximalRun (p : Char → Bool) (before run after : List Char) : Prop where
  some : run ≠ []
  inside : ∀ c ∈ run, p c = true
  left : ∀ c ∈ before.getLast?, p c = false
  right : ∀ c ∈ after.head?, p c = false

namespace MaximalRun

variable {p : Char → Bool} {before run after : List Char} {joins : Char → Char → Prop}

theorem apart_left (maximal : MaximalRun p before run after)
    (alike : ∀ a b, joins a b → p a = p b) : Apart joins before run := by
  intro a last b head joined
  have outside := maximal.left a last
  rw [alike a b joined, maximal.inside b (List.mem_of_mem_head? head)] at outside
  cases outside

theorem apart_right (maximal : MaximalRun p before run after)
    (alike : ∀ a b, joins a b → p a = p b) : Apart joins run after := by
  intro a last b head joined
  have inside := maximal.inside a (List.mem_of_mem_getLast? last)
  rw [alike a b joined, maximal.right b head] at inside
  cases inside

end MaximalRun

/-- The slices are the text without its blanks, and blanks keep apart what stands around them. -/
structure Lossless (read : List Char → List (Reading T)) : Prop where
  empty : read [] = []
  slices : ∀ text, (read text).flatMap Reading.slice = text.filter fun c => !isBlank c
  blank : ∀ before c after, isBlank c = true →
    read (before ++ c :: after) = read before ++ read after

def Vocabulary.numeral? (v : Vocabulary T) (digits : List Char) : Option T :=
  if Text.value 10 digits ≤ 0x7FFFFFFFFFFFFFFF then some (v.integer (Text.value 10 digits)) else none

structure ReadsNumerals (read : List Char → List (Reading T)) (v : Vocabulary T) : Prop
    extends Lossless read where
  digits : ∀ before run after, MaximalRun Char.isDigit before run after →
    read (before ++ run ++ after) = read before ++ [⟨v.numeral? run, run⟩] ++ read after
  stars : ∀ before count after,
    MaximalRun (fun c => c = '*') before (List.replicate count '*') after →
    read (before ++ List.replicate count '*' ++ after) =
      read before ++
        (List.replicate (count / 2) ⟨some v.power, ['*', '*']⟩ ++
          List.replicate (count % 2) ⟨some v.times, ['*']⟩) ++
        read after
  other : ∀ before c after, isBlank c = false → c.isDigit = false → c ≠ '*' →
    read (before ++ c :: after) = read before ++ [⟨v.sign? c, [c]⟩] ++ read after

structure ReadsAtoms (read : List Char → List (Reading (String × String))) : Prop
    extends Lossless read where
  atoms : ∀ before digits atom after,
    MaximalRun SExpression.continuesAtom before (digits ++ atom) after →
    (∀ c ∈ digits, c.isDigit = true) → (∀ c ∈ atom.head?, c.isDigit = false) →
    read (before ++ (digits ++ atom) ++ after) =
      read before ++
        (digits.map (fun c => ⟨none, [c]⟩) ++
          if atom = [] then [] else [⟨some ("ATOM", String.ofList atom), atom⟩]) ++
        read after
  other : ∀ before c after, isBlank c = false → SExpression.continuesAtom c = false →
    read (before ++ c :: after) =
      read before ++
        [⟨if c = '(' ∨ c = ')' then some (c.toString, c.toString) else none, [c]⟩] ++
        read after

namespace Lexer

variable {l : Lexer K S V E} {joins : Char → Char → Prop}

theorem readings_between (separate : l.lexicon.Local joins) {before run after : List Char}
    (some : run ≠ []) (left : Apart joins before run) (right : Apart joins run after) :
    l.readings (before ++ run ++ after) =
      l.readings before ++ l.readings run ++ l.readings after := by
  unfold readings
  rw [separate.cuts_between some left right, List.map_append, List.map_append]

theorem flatMap_slice_readings (solid : l.lexicon.Solid) (text : List Char) :
    (l.readings text).flatMap Reading.slice = text.filter fun c => !isBlank c := by
  rw [← solid.flatMap_cuts text, readings, List.flatMap_map]

theorem readings_single (separate : l.lexicon.Local joins) {c : Char}
    (unjoined : ∀ a, ¬ joins a c ∧ ¬ joins c a) (before after : List Char) :
    l.readings (before ++ c :: after) =
      l.readings before ++ l.readings [c] ++ l.readings after := by
  have left : Apart joins before [c] := by
    intro a _ b head
    obtain rfl := Option.some.inj head
    exact (unjoined a).1
  have right : Apart joins [c] after := by
    intro a last b _
    obtain rfl := Option.some.inj last
    exact (unjoined b).2
  have parts := readings_between separate (List.cons_ne_nil c []) left right
  rw [List.append_assoc] at parts
  exact parts

theorem readings_nil : l.readings [] = [] := by
  rw [readings, cuts_nil]
  rfl

theorem readings_blank {c : Char} (blank : isBlank c = true) : l.readings [c] = [] := by
  rw [readings, cuts_blank blank, cuts_nil]
  rfl

end Lexer

theorem inRange?_natCast (n : Nat) :
    Signed64.inRange? n = if n ≤ 0x7FFFFFFFFFFFFFFF then some (n : Int) else none := by
  have same : Signed64.InRange n ↔ n ≤ 0x7FFFFFFFFFFFFFFF := by
    unfold Signed64.InRange Signed64.least Signed64.greatest
    omega
  rw [Signed64.inRange?]
  exact if_congr same rfl rfl

namespace Vocabulary

theorem isDigit_eq_of_joins {a b : Char} (joined : Joins a b) : a.isDigit = b.isDigit := by
  rcases joined with ⟨first, second⟩ | ⟨rfl, rfl⟩
  · rw [first, second]
  · rfl

theorem star_eq_of_joins {a b : Char} (joined : Joins a b) :
    decide (a = '*') = decide (b = '*') := by
  rcases joined with ⟨first, second⟩ | ⟨rfl, rfl⟩
  · have noStar (c : Char) (digit : c.isDigit = true) : c ≠ '*' := by
      rintro rfl
      exact absurd digit (by decide)
    simp [noStar a first, noStar b second]
  · rfl

theorem not_joins {c : Char} (digit : c.isDigit = false) (star : c ≠ '*') (a : Char) :
    ¬ Joins a c ∧ ¬ Joins c a := by
  constructor
  · rintro (⟨_, second⟩ | ⟨_, second⟩)
    · simp [digit] at second
    · exact star second
  · rintro (⟨first, _⟩ | ⟨first, _⟩)
    · simp [digit] at first
    · exact star first

variable {kinds : Vocabulary K} {l : Lexer K S V E} {f : K → S × V}

theorem map_inRange? (digits : List Char) :
    (Signed64.inRange? (Text.value 10 digits)).map kinds.integer = kinds.numeral? digits := by
  rw [inRange?_natCast, numeral?]
  split <;> rfl

theorem numeral?_map (digits : List Char) :
    (kinds.map f).numeral? digits = (kinds.numeral? digits).map f := by
  unfold numeral?
  split <;> rfl

theorem Governs.readsNumerals (governs : kinds.Governs l.lexicon)
    (carries : ∀ kind text, l.carried kind text = f kind) :
    ReadsNumerals l.readings (kinds.map f) where
  empty := Lexer.readings_nil
  slices := Lexer.flatMap_slice_readings governs.solid
  blank before c after blank := by
    have star : c ≠ '*' := by
      rintro rfl
      cases blank
    rw [Lexer.readings_single governs.local (not_joins (not_isDigit_of_blank blank) star),
      Lexer.readings_blank blank, List.append_nil]
  digits before run after maximal := by
    rw [Lexer.readings_between governs.local maximal.some
      (maximal.apart_left fun a b => isDigit_eq_of_joins)
      (maximal.apart_right fun a b => isDigit_eq_of_joins)]
    congr 2
    obtain ⟨c, rest, rfl⟩ := List.exists_cons_of_ne_nil maximal.some
    have boundary : Apart Joins (c :: rest) [] := by simp [Apart]
    have alone := governs.cuts_integer maximal.inside boundary
    rw [List.append_nil, cuts_nil, map_inRange?] at alone
    rw [Lexer.readings, alone, numeral?_map]
    simp only [List.map_cons, List.map_nil, carries]
  stars before count after maximal := by
    rw [Lexer.readings_between governs.local maximal.some
      (maximal.apart_left fun a b => star_eq_of_joins)
      (maximal.apart_right fun a b => star_eq_of_joins)]
    congr 2
    rw [Lexer.readings, governs.cuts_stars]
    simp [carries, Vocabulary.map]
  other before c after visible digit star := by
    rw [Lexer.readings_single governs.local (not_joins digit star)]
    congr 2
    rw [Lexer.readings, governs.cuts_other visible digit star, cuts_nil]
    simp [carries, Vocabulary.map]

end Vocabulary

namespace SExpression

theorem continuesAtom_eq_of_joins {a b : Char} (joined : Joins a b) :
    continuesAtom a = continuesAtom b := by
  rw [joined.1, joined.2]

theorem not_joins {c : Char} (other : continuesAtom c = false) (a : Char) :
    ¬ Joins a c ∧ ¬ Joins c a := by
  constructor
  · rintro ⟨_, second⟩
    simp [other] at second
  · rintro ⟨first, _⟩
    simp [other] at first

theorem readings_sign (c : Char) (visible : isBlank c = false)
    (other : continuesAtom c = false) :
    lexer.readings [c] =
      [⟨if c = '(' ∨ c = ')' then some (c.toString, c.toString) else none, [c]⟩] := by
  have noStart : startsAtom c = false := by
    simp only [continuesAtom, Bool.or_eq_false_iff] at other
    exact other.1
  have alone : cuts lexicon [c] = [(sign? c, [c])] := by
    rw [cuts_other visible noStart, cuts_nil]
  rw [Lexer.readings, show lexer.lexicon = lexicon from rfl, alone]
  unfold sign?
  split
  · rfl
  · rfl
  next left right =>
    have neither : ¬ (c = '(' ∨ c = ')') := by
      rintro (rfl | rfl)
      · exact left rfl
      · exact right rfl
    rw [if_neg neither]
    rfl

theorem readings_run {digits atom : List Char} (numeric : ∀ c ∈ digits, c.isDigit = true)
    (first : ∀ c ∈ atom.head?, c.isDigit = false) (inside : ∀ c ∈ atom, continuesAtom c = true) :
    lexer.readings (digits ++ atom) =
      digits.map (fun c => ⟨none, [c]⟩) ++
        if atom = [] then [] else [⟨some ("ATOM", String.ofList atom), atom⟩] := by
  rw [Lexer.readings, show lexer.lexicon = lexicon from rfl, cuts_digits numeric,
    List.map_append, List.map_map]
  apply congrArg (_ ++ ·)
  cases atom with
  | nil =>
    rw [cuts_nil]
    rfl
  | cons c rest =>
    obtain ⟨continues, later⟩ := List.forall_mem_cons.1 inside
    have starts : startsAtom c = true := by
      simpa [continuesAtom, first c rfl] using continues
    rw [cuts_atom starts later, if_neg (List.cons_ne_nil c rest)]
    rfl

theorem readsAtoms : ReadsAtoms lexer.readings where
  empty := Lexer.readings_nil
  slices := Lexer.flatMap_slice_readings lexicon_solid
  blank before c after blank := by
    have other := not_continuesAtom_of_blank blank
    rw [Lexer.readings_single lexicon_local (not_joins other),
      Lexer.readings_blank blank, List.append_nil]
  atoms before digits atom after maximal numeric first := by
    rw [Lexer.readings_between lexicon_local maximal.some
      (maximal.apart_left fun a b => continuesAtom_eq_of_joins)
      (maximal.apart_right fun a b => continuesAtom_eq_of_joins)]
    have inside := (List.forall_mem_append.1 maximal.inside).2
    rw [readings_run numeric first inside]
  other before c after visible other := by
    rw [Lexer.readings_single lexicon_local (not_joins other), readings_sign c visible other]

end SExpression

/-- No lexer loses anything, and each takes the longest match. -/
theorem longest_match :
    (∀ text, (Arithmetic.tokens text).map (bare LexError.text) =
      (Arithmetic.lexer.readings text.toList).map Reading.found) ∧
    ReadsNumerals Arithmetic.lexer.readings Arithmetic.vocabulary ∧
    (∀ text, (Calculator.tokens text).map (bare Calculator.LexError.text) =
      (Calculator.lexer.readings text.toList).map Reading.found) ∧
    ReadsNumerals Calculator.lexer.readings Calculator.vocabulary ∧
    (∀ text, (SExpression.slices text).map (bare LexError.text) =
      (SExpression.lexer.readings text.toList).map Reading.found ++
        [.ok (SExpression.endSymbol, "")]) ∧
    ReadsAtoms SExpression.lexer.readings := by
  have arithmetic : ReadsNumerals Arithmetic.lexer.readings Arithmetic.vocabulary := by
    rw [← Arithmetic.map_kinds]
    exact Arithmetic.kinds_govern.readsNumerals fun _ _ => rfl
  have calculator : ReadsNumerals Calculator.lexer.readings Calculator.vocabulary := by
    rw [← Calculator.vocabulary.map_id]
    exact Calculator.vocabulary_governs.readsNumerals fun _ _ => rfl
  refine ⟨Arithmetic.lexer.map_bare_items, arithmetic, Calculator.lexer.map_bare_items,
    calculator, fun text => ?_, SExpression.readsAtoms⟩
  rw [SExpression.slices_eq_items, List.map_append]
  exact congrArg (· ++ _) (SExpression.lexer.map_bare_items text)

theorem runs_matched :
    Calculator.lexer.readings "x007***".toList =
      [⟨none, ['x']⟩, ⟨some (.int, .num 7), ['0', '0', '7']⟩,
        ⟨some (.starStar, .punct), ['*', '*']⟩, ⟨some (.star, .punct), ['*']⟩] ∧
    SExpression.lexer.readings "12ab(".toList =
      [⟨none, ['1']⟩, ⟨none, ['2']⟩, ⟨some ("ATOM", "ab"), ['a', 'b']⟩,
        ⟨some ("(", "("), ['(']⟩] := by
  obtain ⟨-, -, -, numerals, -, atoms⟩ := longest_match
  constructor
  · have letter := numerals.other [] 'x' [] (by decide) (by decide) (by decide)
    have digits := numerals.digits ['x'] ['0', '0', '7'] ['*', '*', '*']
      ⟨by simp, by simp, by simp, by simp⟩
    have stars := numerals.stars [] 3 [] ⟨by simp, by simp, by simp, by simp⟩
    rw [numerals.empty] at letter stars
    calc
      _ = Calculator.lexer.readings ['x'] ++ [⟨some (.int, .num 7), ['0', '0', '7']⟩] ++
          Calculator.lexer.readings ['*', '*', '*'] := digits
      _ = [⟨none, ['x']⟩] ++ [⟨some (.int, .num 7), ['0', '0', '7']⟩] ++
          [⟨some (.starStar, .punct), ['*', '*']⟩, ⟨some (.star, .punct), ['*']⟩] :=
        congrArg₂ (· ++ _ ++ ·) letter stars
  · have maximal : MaximalRun SExpression.continuesAtom [] (['1', '2'] ++ ['a', 'b']) ['('] := by
      constructor <;> simp [SExpression.continuesAtom, SExpression.startsAtom]
    have word := atoms.atoms [] ['1', '2'] ['a', 'b'] ['('] maximal (by simp) (by simp)
    have sign := atoms.other [] '(' [] (by decide) (by decide)
    rw [atoms.empty] at word sign
    exact word.trans (congrArg (_ ++ ·) sign)

end ShiftReduce
