import ShiftReduce.Json.Reader
import ShiftReduce.Proofs.Printing
/-!
Reading undoes writing for JSON documents. Every string has a body that the reader delimits and
decodes, and every value made of such bodies and of integers is read back from its text, members in
order. The fuel of the reader is twice the length of the text.
-/
namespace ShiftReduce

namespace Json

section Strings

theorem escapeChar_cases (c : Char) :
    (∃ letter, escapeChar c = ['\\', letter] ∧ letterMeaning? letter = some c) ∨
    (∃ x y, escapeChar c = ['\\', 'u', '0', '0', x, y] ∧ codeUnit? '0' '0' x y = some c.toNat ∧
      c.toNat < 32) ∨
    (escapeChar c = [c] ∧ c ≠ '"' ∧ c ≠ '\\' ∧ 32 ≤ c.toNat) := by
  unfold escapeChar
  split
  next letter short =>
    left
    unfold escapeLetter? at short
    split at short
    all_goals cases short
    all_goals exact ⟨_, rfl, rfl⟩
  next long =>
    right
    split
    next control =>
      have codes : ∀ n < 32, codeUnit? '0' '0' (Text.digitChar (n / 16))
          (Text.digitChar (n % 16)) = some n := by decide
      exact .inl ⟨_, _, rfl, codes c.toNat control, control⟩
    next plain =>
      refine .inr ⟨rfl, ?_, ?_, by omega⟩
      · rintro rfl
        exact absurd long (by decide)
      · rintro rfl
        exact absurd long (by decide)

theorem ne_u_of_letterMeaning? {letter c : Char} (meaning : letterMeaning? letter = some c) :
    letter ≠ 'u' := by
  rintro rfl
  exact absurd meaning (by simp [letterMeaning?])

theorem unescape_escapeChar (c : Char) (rest : List Char) :
    unescape (escapeChar c ++ rest) = (unescape rest).map (c :: ·) := by
  rcases escapeChar_cases c with ⟨letter, escaped, meaning⟩ | ⟨x, y, escaped, code, control⟩ |
    ⟨escaped, _, slash, _⟩
  · have other := ne_u_of_letterMeaning? meaning
    rw [escaped, List.cons_append, List.singleton_append, unescape]
    · simp only [meaning]
    · exact fun _ _ _ _ _ same _ => other same
  · have high : isHighSurrogate c.toNat = false := by simp [isHighSurrogate]; omega
    have low : isLowSurrogate c.toNat = false := by simp [isLowSurrogate]; omega
    rw [escaped]
    simp [unescape, code, high, low]
  · rw [escaped, List.singleton_append, unescape]
    · exact fun _ _ _ _ _ same _ => slash same
    · exact fun _ _ same _ => slash same

theorem body?_escapeChar (c : Char) (rest : List Char) :
    body? (escapeChar c ++ rest) = (body? rest).map (consAll (escapeChar c)) := by
  rcases escapeChar_cases c with ⟨letter, escaped, meaning⟩ | ⟨x, y, escaped, code, control⟩ |
    ⟨escaped, quote, slash, plain⟩
  · have other := ne_u_of_letterMeaning? meaning
    rw [escaped, List.cons_append, List.singleton_append, body?]
    · simp [meaning]
    · exact fun _ _ _ _ _ same _ => other same
  · rw [escaped]
    simp [body?, code]
  · rw [escaped, List.singleton_append, body?]
    · simp [slash, show ¬ c.toNat < 32 by omega]
    · exact quote
    · exact fun _ _ _ _ _ same _ => slash same
    · exact fun _ _ same _ => slash same

theorem unescape_escape (cs : List Char) : unescape (escape cs) = some cs := by
  induction cs with
  | nil => rfl
  | cons c cs ih =>
    have parts : escape (c :: cs) = escapeChar c ++ escape cs := rfl
    simp [parts, unescape_escapeChar, ih]

/-- What the reader takes for the body of a string if a quote follows. -/
def IsBody (body : List Char) : Prop := ∀ rest, body? (body ++ '"' :: rest) = some (body, rest)

theorem isBody_escape (cs : List Char) : IsBody (escape cs) := by
  intro rest
  induction cs with
  | nil => rfl
  | cons c cs ih =>
    have parts : escape (c :: cs) = escapeChar c ++ escape cs := rfl
    rw [parts, List.append_assoc, body?_escapeChar, ih]
    rfl

theorem isBody_of_plain {cs : List Char} (plain : ∀ c ∈ cs, escapeChar c = [c]) : IsBody cs := by
  have same : escape cs = cs := by
    induction cs with
    | nil => rfl
    | cons c cs ih =>
      obtain ⟨here, later⟩ := List.forall_mem_cons.1 plain
      have parts : escape (c :: cs) = escapeChar c ++ escape cs := rfl
      rw [parts, here, ih later, List.singleton_append]
  exact same ▸ isBody_escape cs

theorem escapeChar_of_isDigit {c : Char} (digit : c.isDigit = true) : escapeChar c = [c] := by
  have long : escapeLetter? c = none := by
    unfold escapeLetter?
    split
    all_goals first | rfl | exact absurd digit (by decide)
  have above : 48 ≤ c.toNat := by
    simp only [Char.isDigit, Bool.and_eq_true, decide_eq_true_eq] at digit
    exact digit.1
  simp [escapeChar, long, show ¬ c.toNat < 32 by omega]

theorem isBody_decimal (n : Nat) : IsBody (Text.decimal n) :=
  isBody_of_plain fun _ member => escapeChar_of_isDigit (Text.isDigit_of_mem_decimal member)

theorem isBody_signed (n : Int) : IsBody (Text.signed n) := by
  apply isBody_of_plain
  intro c member
  rcases Text.sign_or_digit_of_mem_signed member with sign | digit
  · subst sign
    decide
  · exact escapeChar_of_isDigit digit

end Strings

section Numbers

def EndsNumber (rest : List Char) : Prop :=
  ∀ c ∈ rest.head?, c.isDigit = false ∧ c ≠ '.' ∧ c ≠ 'e' ∧ c ≠ 'E'

theorem endsNumber_cons {c : Char} (other : c.isDigit = false ∧ c ≠ '.' ∧ c ≠ 'e' ∧ c ≠ 'E')
    (rest : List Char) : EndsNumber (c :: rest) := by
  intro d head
  obtain rfl := Option.some.inj head
  exact other

theorem digitRun_decimal (n : Nat) {rest : List Char} (ends : EndsNumber rest) :
    digitRun (Text.decimal n ++ rest) = (Text.decimal n, rest) := by
  have digits : ∀ c ∈ Text.decimal n, c.isDigit = true := fun _ => Text.isDigit_of_mem_decimal
  unfold digitRun
  rw [List.takeWhile_append_of_pos digits, List.dropWhile_append_of_pos digits]
  cases rest with
  | nil => simp
  | cons c rest => simp [(ends c rfl).1]

theorem whole?_decimal (n : Nat) {rest : List Char} (ends : EndsNumber rest) :
    whole? (Text.decimal n ++ rest) = some (Text.decimal n, rest) := by
  rcases Nat.eq_zero_or_pos n with rfl | pos
  · have zero : Text.decimal 0 = ['0'] := by simp [Text.decimal, Text.numeral, Text.digitChar]
    rw [zero, List.singleton_append, whole?.eq_def]
    cases rest with
    | nil => rfl
    | cons c rest => simp [(ends c rfl).1]
  · obtain ⟨c, cs, first, _, nonzero⟩ := Text.decimal_eq_cons n
    have run := digitRun_decimal n ends
    rw [first] at run ⊢
    rw [List.cons_append] at run ⊢
    rw [whole?, nonemptyRun?, run]
    · rfl
    · intro _ same
      have zero := nonzero (List.cons.inj same).1
      omega

theorem unsigned?_decimal (n : Nat) {rest : List Char} (ends : EndsNumber rest) :
    unsigned? (Text.decimal n ++ rest) = some (Text.decimal n, rest) := by
  have fraction : fraction? rest = some ([], rest) := by
    cases rest with
    | nil => rfl
    | cons c rest =>
      rw [fraction?]
      exact fun _ same => (ends c rfl).2.1 (List.cons.inj same).1
  have exponent : exponent? rest = some ([], rest) := by
    cases rest with
    | nil => rfl
    | cons c rest =>
      obtain ⟨_, _, small, capital⟩ := ends c rfl
      simp [exponent?, small, capital]
  simp [unsigned?, whole?_decimal n ends, fraction, exponent]

theorem number?_signed (n : Int) {rest : List Char} (ends : EndsNumber rest) :
    number? (Text.signed n ++ rest) = some (Text.signed n, rest) := by
  cases n with
  | ofNat n =>
    obtain ⟨c, cs, first, digit, _⟩ := Text.decimal_eq_cons n
    have unsigned := unsigned?_decimal n ends
    rw [Text.signed, first] at *
    rw [List.cons_append] at unsigned ⊢
    rw [number?, unsigned]
    rintro _ same
    rw [(List.cons.inj same).1] at digit
    exact absurd digit (by decide)
  | negSucc n =>
    simp [Text.signed, number?, unsigned?_decimal (n + 1) ends, consAll]

end Numbers

section Values

theorem skipBlanks_cons {c : Char} (visible : isBlank c = false) (cs : List Char) :
    skipBlanks (c :: cs) = c :: cs := by
  simp [skipBlanks, visible]

/-- The value is read back from its text, whatever stands after it, with enough fuel. -/
structure Legible (j : Json) : Prop where
  opens : ∃ c cs, j.written = c :: cs ∧ isBlank c = false ∧ c ≠ ']'
  read : ∀ fuel rest, 2 * j.written.length ≤ fuel → EndsNumber rest →
    value? fuel (j.written ++ rest) = some (j, rest)

theorem Legible.of_read {j : Json} {c : Char} {cs : List Char} (opens : j.written = c :: cs)
    (visible : isBlank c = false) (other : c ≠ ']')
    (read : ∀ fuel rest, 2 * (c :: cs).length ≤ fuel + 1 → EndsNumber rest →
      value? (fuel + 1) (c :: cs ++ rest) = some (j, rest)) : j.Legible := by
  refine ⟨⟨c, cs, opens, visible, other⟩, ?_⟩
  intro fuel rest enough ends
  rw [opens] at enough ⊢
  cases fuel with
  | zero => simp at enough
  | succ fuel => exact read fuel rest enough ends

theorem legible_null : null.Legible := by
  refine .of_read rfl (by decide) (by decide) ?_
  intro fuel rest _ _
  simp [value?, skipBlanks, isBlank]

theorem legible_bool (value : Bool) : (bool value).Legible := by
  cases value with
  | true =>
    refine .of_read rfl (by decide) (by decide) ?_
    intro fuel rest _ _
    simp [value?, skipBlanks, isBlank]
  | false =>
    refine .of_read rfl (by decide) (by decide) ?_
    intro fuel rest _ _
    simp [value?, skipBlanks, isBlank]

theorem legible_number (n : Int) : (number (Text.signed n)).Legible := by
  have first : ∃ c cs, Text.signed n = c :: cs ∧ (c.isDigit = true ∨ c = '-') := by
    cases n with
    | ofNat n =>
      obtain ⟨c, cs, same, digit, _⟩ := Text.decimal_eq_cons n
      exact ⟨c, cs, same, .inl digit⟩
    | negSucc n => exact ⟨'-', _, rfl, .inr rfl⟩
  obtain ⟨c, cs, same, head⟩ := first
  have apart : ∀ d : Char, d.isDigit = false → d ≠ '-' → c ≠ d := by
    rintro d other plus rfl
    rcases head with digit | minus
    · simp [other] at digit
    · exact plus minus
  have visible : isBlank c = false := by
    simp [isBlank, apart ' ', apart '\n', apart '\r', apart '\t']
  refine .of_read same visible (apart ']' (by decide) (by decide)) ?_
  intro fuel rest _ ends
  have text := number?_signed n ends
  rw [same, List.cons_append] at text
  rw [List.cons_append, value?, skipBlanks_cons visible]
  -- No other value starts with this character.
  split
  all_goals first
    | next other => exact absurd (List.cons.inj other).1 (apart _ (by decide) (by decide))
    | simp [text, same]

theorem legible_string {body : List Char} (delimited : IsBody body) : (string body).Legible := by
  refine .of_read rfl (by decide) (by decide) ?_
  intro fuel rest _ _
  simp [value?, skipBlanks, isBlank, delimited rest]

theorem items?_written {items : List Json} (nonempty : items ≠ [])
    (legible : ∀ x ∈ items, x.Legible) {fuel : Nat} (rest : List Char)
    (enough : 2 * ([','].intercalate (writtenItems items)).length + 1 ≤ fuel) :
    items? fuel ([','].intercalate (writtenItems items) ++ ']' :: rest) = some (items, rest) := by
  induction items generalizing fuel with
  | nil => exact absurd rfl nonempty
  | cons x xs ih =>
    obtain ⟨here, later⟩ := List.forall_mem_cons.1 legible
    obtain ⟨fuel, rfl⟩ : ∃ m, fuel = m + 1 := ⟨fuel - 1, by omega⟩
    cases xs with
    | nil =>
      simp only [writtenItems, List.intercalate_singleton] at enough ⊢
      have bracket := endsNumber_cons (c := ']') (by decide) rest
      simp [items?, here.read fuel _ (by omega) bracket, skipBlanks, isBlank]
    | cons y ys =>
      have others (bound : 2 * _ + 1 ≤ fuel) := ih (List.cons_ne_nil y ys) later bound
      simp only [writtenItems, List.intercalate_cons_cons, List.length_append,
        List.length_singleton] at enough others ⊢
      have comma := endsNumber_cons (c := ',') (by decide)
      simp [items?, here.read fuel _ (by omega) (comma _), skipBlanks, isBlank,
        others (by omega)]

theorem members?_written {members : List (List Char × Json)} (nonempty : members ≠ [])
    (names : ∀ m ∈ members, IsBody m.1) (legible : ∀ m ∈ members, m.2.Legible) {fuel : Nat}
    (rest : List Char)
    (enough : 2 * ([','].intercalate (writtenMembers members)).length + 1 ≤ fuel) :
    members? fuel ([','].intercalate (writtenMembers members) ++ '\x7d' :: rest) =
      some (members, rest) := by
  induction members generalizing fuel with
  | nil => exact absurd rfl nonempty
  | cons x xs ih =>
    obtain ⟨body, bodies⟩ := List.forall_mem_cons.1 names
    obtain ⟨here, later⟩ := List.forall_mem_cons.1 legible
    obtain ⟨fuel, rfl⟩ : ∃ m, fuel = m + 1 := ⟨fuel - 1, by omega⟩
    cases xs with
    | nil =>
      simp only [writtenMembers, quotedBody, List.intercalate_singleton, List.length_append,
        List.length_cons] at enough ⊢
      have brace := endsNumber_cons (c := '\x7d') (by decide) rest
      simp [members?, body _, here.read fuel _ (by omega) brace, skipBlanks, isBlank]
    | cons y ys =>
      have others (bound : 2 * _ + 1 ≤ fuel) := ih (List.cons_ne_nil y ys) bodies later bound
      have text : [','].intercalate (writtenMembers (x :: y :: ys)) =
          quotedBody x.1 ++ ':' :: x.2.written ++ [','] ++
            [','].intercalate (writtenMembers (y :: ys)) := List.intercalate_cons_cons
      generalize [','].intercalate (writtenMembers (y :: ys)) = joined at others text
      rw [text] at enough ⊢
      simp only [quotedBody, List.length_append, List.length_cons] at enough
      have comma := endsNumber_cons (c := ',') (by decide)
      simp [quotedBody, members?, body _, here.read fuel _ (by omega) (comma _), skipBlanks,
        isBlank, others (by omega)]

theorem legible_array {items : List Json} (legible : ∀ x ∈ items, x.Legible) :
    (array items).Legible := by
  refine .of_read rfl (by decide) (by decide) ?_
  intro fuel rest enough _
  have bracket : isBlank '[' = false := by decide
  cases items with
  | nil => simp [writtenItems, value?, skipBlanks, isBlank]
  | cons x xs =>
    have read (bound : 2 * _ + 1 ≤ fuel) :=
      items?_written (List.cons_ne_nil x xs) legible rest bound
    obtain ⟨c, cs, first, visible, other⟩ := (legible x List.mem_cons_self).opens
    obtain ⟨more, joined⟩ : ∃ more, [','].intercalate (writtenItems (x :: xs)) = c :: more := by
      cases xs with
      | nil => exact ⟨cs, by simp [writtenItems, first]⟩
      | cons y ys => exact ⟨_, by simp [writtenItems, first]; rfl⟩
    simp only [joined, List.length_cons, List.length_append] at read enough
    simp only [joined, List.cons_append, List.append_assoc, List.nil_append] at read ⊢
    rw [value?, skipBlanks_cons bracket]
    simp only [skipBlanks_cons visible]
    split
    next same => exact absurd (List.cons.inj same).1 other
    next => simp [read (by omega)]

theorem legible_object {members : List (List Char × Json)} (names : ∀ m ∈ members, IsBody m.1)
    (legible : ∀ m ∈ members, m.2.Legible) : (object members).Legible := by
  refine .of_read rfl (by decide) (by decide) ?_
  intro fuel rest enough _
  cases members with
  | nil => simp [writtenMembers, value?, skipBlanks, isBlank]
  | cons x xs =>
    have read (bound : 2 * _ + 1 ≤ fuel) :=
      members?_written (List.cons_ne_nil x xs) names legible rest bound
    obtain ⟨more, joined⟩ : ∃ more, [','].intercalate (writtenMembers (x :: xs)) = '"' :: more := by
      cases xs with
      | nil => exact ⟨_, rfl⟩
      | cons y ys => exact ⟨_, rfl⟩
    simp only [joined, List.length_cons, List.length_append] at read enough
    simp only [joined, List.cons_append, List.append_assoc, List.nil_append] at read ⊢
    simp [value?, skipBlanks, isBlank, read (by omega)]

inductive Readable : Json → Prop
  | null : Readable .null
  | bool (value : Bool) : Readable (.bool value)
  | number (n : Int) : Readable (.number (Text.signed n))
  | string (body : List Char) (delimited : IsBody body) : Readable (.string body)
  | array (items : List Json) (readable : ∀ x ∈ items, Readable x) : Readable (.array items)
  | object (members : List (List Char × Json)) (names : ∀ m ∈ members, IsBody m.1)
    (readable : ∀ m ∈ members, Readable m.2) : Readable (.object members)

theorem Readable.legible {j : Json} (readable : j.Readable) : j.Legible := by
  induction readable with
  | null => exact legible_null
  | bool value => exact legible_bool value
  | number n => exact legible_number n
  | string body delimited => exact legible_string delimited
  | array items _ ih => exact legible_array ih
  | object members names _ ih => exact legible_object names ih

theorem document?_written {j : Json} (readable : j.Readable) : document? j.written = some j := by
  have enough : 2 * j.written.length ≤ 2 * j.written.length + 2 := Nat.le_add_right _ 2
  have ends : EndsNumber [] := by simp [EndsNumber]
  have read := readable.legible.read _ [] enough ends
  rw [List.append_nil] at read
  rw [document?, read]
  rfl

end Values

end Json

end ShiftReduce
