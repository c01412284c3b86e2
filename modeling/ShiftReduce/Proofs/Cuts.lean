import ShiftReduce.Proofs.Scanning
import ShiftReduce.Token
/-!
How a text is cut into slices. Nothing but blanks is left out, wherever the lexicon never goes over
a blank. Where it never looks past a boundary between two characters that do not join, the text
before the boundary and the text after it are cut independently of each other. What a lexer yields
for a text, lines apart, is determined by the cuts.
-/
namespace ShiftReduce

variable {K S V E T : Type} {lexicon : Lexicon K}

def cuts (lexicon : Lexicon K) (text : List Char) : List (Option K × List Char) :=
  (scan lexicon text).map fun x => (x.kind, x.text)

theorem map_scanFrom (start other : Nat) (text : List Char) :
    (scanFrom lexicon start text).map (fun x => (x.kind, x.text)) =
      (scanFrom lexicon other text).map fun x => (x.kind, x.text) := by
  fun_induction scanFrom lexicon start text generalizing other with
  | case1 start => rw [scanFrom]
  | case2 start c rest blank ih =>
    rw [scanFrom, if_pos blank]
    exact ih (other + 1)
  | case3 start c rest visible found text ih =>
    rw [scanFrom, if_neg visible]
    exact congrArg (_ :: ·) (ih _)

theorem map_snd_withLines (l : LineCounter) (xs : List (Lexeme K)) :
    (withLines l xs).map Prod.snd = xs := by
  induction xs generalizing l with
  | nil => rfl
  | cons x xs ih => exact congrArg (x :: ·) (ih _)

theorem cuts_eq_map_lexemes (text : String) :
    cuts lexicon text.toList = (lexemes lexicon text).map fun x => (x.2.kind, x.2.text) := by
  have same := map_snd_withLines (.start text.toList) (scan lexicon text.toList)
  rw [cuts, ← same, List.map_map]
  rfl

section Equations

variable {c : Char} {rest : List Char}

@[simp] theorem cuts_nil : cuts lexicon [] = [] := by
  rw [cuts, scan, scanFrom]
  rfl

theorem cuts_blank (blank : isBlank c = true) : cuts lexicon (c :: rest) = cuts lexicon rest := by
  rw [cuts, scan, scanFrom, if_pos blank]
  exact map_scanFrom _ _ rest

theorem cuts_visible (visible : isBlank c = false) :
    cuts lexicon (c :: rest) =
      ((lexicon c rest).1, c :: rest.take (lexicon c rest).2) ::
        cuts lexicon (rest.drop (lexicon c rest).2) := by
  rw [cuts, scan, scanFrom, if_neg (by simp [visible])]
  exact congrArg (_ :: ·) (map_scanFrom _ _ _)

@[elab_as_elim]
theorem cuts_induction (lexicon : Lexicon K) {motive : List Char → Prop} (nil : motive [])
    (blank : ∀ c rest, isBlank c = true → motive rest → motive (c :: rest))
    (visible : ∀ c rest, isBlank c = false → motive (rest.drop (lexicon c rest).2) →
      motive (c :: rest)) (text : List Char) : motive text := by
  induction length : text.length using Nat.strongRecOn generalizing text with
  | ind count ih =>
    cases text with
    | nil => exact nil
    | cons c rest =>
      rw [List.length_cons] at length
      by_cases here : isBlank c = true
      · exact blank c rest here (ih rest.length (by omega) rest rfl)
      · refine visible c rest (by simpa using here) (ih _ ?_ _ rfl)
        rw [List.length_drop]
        omega

end Equations

/-- What starts with a character that is no blank contains none. -/
def Lexicon.Solid (lexicon : Lexicon K) : Prop :=
  ∀ (c : Char) (rest : List Char), isBlank c = false →
    ∀ d ∈ rest.take (lexicon c rest).2, isBlank d = false

theorem Lexicon.Solid.flatMap_cuts (solid : lexicon.Solid) (text : List Char) :
    (cuts lexicon text).flatMap Prod.snd = text.filter fun c => !isBlank c := by
  induction text using cuts_induction lexicon with
  | nil => simp
  | blank c rest blank ih => simpa [cuts_blank blank, blank] using ih
  | visible c rest visible ih =>
    have whole : (rest.take (lexicon c rest).2).filter (fun d => !isBlank d) =
        rest.take (lexicon c rest).2 := by
      apply List.filter_eq_self.2
      intro d member
      simp [solid c rest visible d member]
    have split : rest.filter (fun d => !isBlank d) = rest.take (lexicon c rest).2 ++
        (rest.drop (lexicon c rest).2).filter fun d => !isBlank d := by
      rw [← whole, ← List.filter_append, List.take_append_drop]
    rw [cuts_visible visible, List.flatMap_cons, ih, List.filter_cons_of_pos (by simp [visible]),
      split]
    rfl

/-- No character that ends the first text joins with one that starts the second. -/
def Apart (joins : Char → Char → Prop) (first second : List Char) : Prop :=
  ∀ a ∈ first.getLast?, ∀ b ∈ second.head?, ¬ joins a b

/-- The lexicon does not look past characters that do not join. -/
structure Lexicon.Local (lexicon : Lexicon K) (joins : Char → Char → Prop) : Prop where
  bounded : ∀ c rest, (lexicon c rest).2 ≤ rest.length
  undisturbed : ∀ c rest more, Apart joins (c :: rest) more →
    lexicon c (rest ++ more) = lexicon c rest

section Boundary

variable {joins : Char → Char → Prop} {first second third : List Char}

theorem Apart.of_append (first : List Char) (apart : Apart joins (first ++ second) third) :
    Apart joins second third := by
  intro a last b head
  apply apart a _ b head
  rw [Option.mem_def] at last
  simp [List.getLast?_append, last]

theorem Lexicon.Local.cuts_append (separate : lexicon.Local joins)
    (apart : Apart joins first second) :
    cuts lexicon (first ++ second) = cuts lexicon first ++ cuts lexicon second := by
  induction first using cuts_induction lexicon with
  | nil => simp
  | blank c rest blank ih =>
    have later : Apart joins rest second := .of_append [c] apart
    rw [List.cons_append, cuts_blank blank, cuts_blank blank, ih later]
  | visible c rest visible ih =>
    -- The first cut is the same with the second text after it, and leaves the same boundary.
    have bound := separate.bounded c rest
    have same := separate.undisturbed c rest second apart
    have later : Apart joins (rest.drop (lexicon c rest).2) second := by
      apply Apart.of_append (c :: rest.take (lexicon c rest).2)
      rw [List.cons_append, List.take_append_drop]
      exact apart
    rw [List.cons_append, cuts_visible visible, cuts_visible visible, same,
      List.take_append_of_le_length bound, List.drop_append_of_le_length bound, ih later]
    rfl

theorem Lexicon.Local.cuts_between (separate : lexicon.Local joins) (some : second ≠ [])
    (left : Apart joins first second) (right : Apart joins second third) :
    cuts lexicon (first ++ second ++ third) =
      cuts lexicon first ++ cuts lexicon second ++ cuts lexicon third := by
  have rightmost : Apart joins (first ++ second) third := by
    intro a last
    rw [List.getLast?_append, List.getLast?_eq_some_getLast some] at last
    apply right a
    rw [List.getLast?_eq_some_getLast some]
    exact last
  rw [separate.cuts_append rightmost, separate.cuts_append left]

end Boundary

/-- An item without its line: what the token carries, or the text that is none. -/
def bare (text : E → String) : Except E (Token S V) → Except (List Char) (S × V)
  | .ok token => .ok (token.symbol, token.value)
  | .error error => .error (text error).toList

structure Reading (T : Type) where
  token? : Option T
  slice : List Char
  deriving DecidableEq

def Reading.found (x : Reading T) : Except (List Char) T :=
  match x.token? with
  | some token => .ok token
  | none => .error x.slice

structure Lexer (K S V E : Type) where
  lexicon : Lexicon K
  carried : K → List Char → S × V
  error : String → Nat → E
  text : E → String
  text_error : ∀ slice line, text (error slice line) = slice

namespace Lexer

def item (l : Lexer K S V E) (line : Nat) (x : Lexeme K) : Except E (Token S V) :=
  x.item l.carried l.error line

def items (l : Lexer K S V E) (text : String) : List (Except E (Token S V)) :=
  (lexemes l.lexicon text).map fun x => l.item x.1 x.2

def readings (l : Lexer K S V E) (text : List Char) : List (Reading (S × V)) :=
  (cuts l.lexicon text).map fun x => ⟨x.1.map fun kind => l.carried kind x.2, x.2⟩

theorem bare_item (l : Lexer K S V E) (line : Nat) (x : Lexeme K) :
    bare l.text (l.item line x) =
      Reading.found ⟨x.kind.map fun kind => l.carried kind x.text, x.text⟩ := by
  unfold item Lexeme.item
  cases x.kind with
  | some kind => rfl
  | none => simp only [bare, l.text_error, Option.map_none, Reading.found, String.toList_ofList]

theorem map_bare_items (l : Lexer K S V E) (text : String) :
    (l.items text).map (bare l.text) = (l.readings text.toList).map Reading.found := by
  rw [items, readings, cuts_eq_map_lexemes, List.map_map, List.map_map, List.map_map]
  apply List.map_congr_left
  intro x _
  exact l.bare_item x.1 x.2

end Lexer

end ShiftReduce
