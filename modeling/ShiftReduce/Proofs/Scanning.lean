import ShiftReduce.Lexer.Line
/-!
The lexemes of a text. A lexeme is what the lexicon finds at some place of the text, and two
lexicons that find corresponding things at every place yield corresponding lexemes, in the same
places and on the same lines. For a given text they can be computed, as no more lexemes are found
than there are characters.
-/
namespace ShiftReduce

variable {K L : Type} {lexicon : Lexicon K}

theorem found_of_mem_scanFrom {start : Nat} {text : List Char} {x : Lexeme K}
    (member : x ∈ scanFrom lexicon start text) : ∃ c rest, x.kind = (lexicon c rest).1 := by
  fun_induction scanFrom lexicon start text with
  | case1 start => cases member
  | case2 start c rest blank ih => exact ih member
  | case3 start c rest visible found text ih =>
    rcases List.mem_cons.1 member with rfl | later
    · exact ⟨c, rest, rfl⟩
    · exact ih later

theorem mem_of_mem_withLines {l : LineCounter} {xs : List (Lexeme K)} {x : Nat × Lexeme K}
    (member : x ∈ withLines l xs) : x.2 ∈ xs := by
  induction xs generalizing l with
  | nil => cases member
  | cons y ys ih =>
    rcases List.mem_cons.1 member with rfl | later
    · exact List.mem_cons_self
    · exact List.mem_cons_of_mem y (ih later)

theorem found_of_mem_lexemes {text : String} {x : Nat × Lexeme K}
    (member : x ∈ lexemes lexicon text) : ∃ c rest, x.2.kind = (lexicon c rest).1 :=
  found_of_mem_scanFrom (mem_of_mem_withLines member)

/-- Scanning that recurses on a limit to the number of characters. -/
def scanWithin (lexicon : Lexicon K) : Nat → Nat → List Char → List (Lexeme K)
  | _, _, [] => []
  | 0, _, _ :: _ => []
  | limit + 1, start, c :: rest =>
    if isBlank c then scanWithin lexicon limit (start + 1) rest
    else
      let found := lexicon c rest
      let text := c :: rest.take found.2
      ⟨found.1, start, text⟩ :: scanWithin lexicon limit (start + text.length) (rest.drop found.2)

theorem scanFrom_eq_scanWithin {limit start : Nat} {text : List Char}
    (room : text.length ≤ limit) :
    scanFrom lexicon start text = scanWithin lexicon limit start text := by
  induction limit generalizing start text with
  | zero =>
    rw [List.length_eq_zero_iff.1 (Nat.le_zero.1 room), scanFrom, scanWithin]
  | succ limit ih =>
    cases text with
    | nil => rw [scanFrom, scanWithin]
    | cons c rest =>
      rw [List.length_cons] at room
      have shorter (count : Nat) : (rest.drop count).length ≤ limit := by
        rw [List.length_drop]
        omega
      rw [scanFrom, scanWithin]
      by_cases blank : isBlank c = true
      · rw [if_pos blank, if_pos blank]
        exact ih (by omega)
      · rw [if_neg blank, if_neg blank]
        exact congrArg (_ :: ·) (ih (shorter _))

/-- The lexemes of a given text can be computed, by reduction alone. -/
theorem lexemes_eq (lexicon : Lexicon K) (text : String) :
    lexemes lexicon text =
      withLines (.start text.toList) (scanWithin lexicon text.toList.length 0 text.toList) := by
  unfold lexemes scan
  rw [scanFrom_eq_scanWithin (Nat.le_refl _)]

def Lexeme.map (f : K → L) (x : Lexeme K) : Lexeme L := ⟨x.kind.map f, x.start, x.text⟩

/-- Wherever one lexicon finds something, the other finds what corresponds to it. -/
def Lexicon.Follows (other : Lexicon L) (f : K → L) (lexicon : Lexicon K) (c : Char) : Prop :=
  ∀ rest, other c rest = ((lexicon c rest).1.map f, (lexicon c rest).2)

theorem scanFrom_map {other : Lexicon L} {f : K → L} {start : Nat} {text : List Char}
    (follows : ∀ c ∈ text, other.Follows f lexicon c) :
    scanFrom other start text = (scanFrom lexicon start text).map (Lexeme.map f) := by
  fun_induction scanFrom lexicon start text with
  | case1 start =>
    rw [scanFrom]
    rfl
  | case2 start c rest blank ih =>
    rw [scanFrom, if_pos blank]
    exact ih (List.forall_mem_cons.1 follows).2
  | case3 start c rest visible found text ih =>
    obtain ⟨here, later⟩ := List.forall_mem_cons.1 follows
    rw [scanFrom, if_neg visible, here rest]
    have rest_follows : ∀ d ∈ rest.drop found.2, other.Follows f lexicon d := by
      intro d member
      exact later d (List.mem_of_mem_drop member)
    exact congrArg (_ :: ·) (ih rest_follows)

theorem withLines_map (f : K → L) (l : LineCounter) (xs : List (Lexeme K)) :
    withLines l (xs.map (Lexeme.map f)) = (withLines l xs).map (Prod.map id (Lexeme.map f)) := by
  induction xs generalizing l with
  | nil => rfl
  | cons x xs ih =>
    simp only [List.map_cons, withLines, ih]
    rfl

theorem lexemes_map {other : Lexicon L} {f : K → L} {text : String}
    (follows : ∀ c ∈ text.toList, other.Follows f lexicon c) :
    lexemes other text = (lexemes lexicon text).map (Prod.map id (Lexeme.map f)) := by
  unfold lexemes scan
  rw [scanFrom_map follows, withLines_map]

end ShiftReduce
