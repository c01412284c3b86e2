import ShiftReduce.Arithmetic.Lexer
import ShiftReduce.Calculator.Lexer
import ShiftReduce.Proofs.Scanning
import ShiftReduce.SExpression.Lexer
/-!
Line numbers are true. Lexemes stand in the text at their offsets, one after the other, so a counter
that only moves forward passes every newline before a lexeme once, and none that stands after its
first character. The same lines come from a counter that slices the whole text between byte offsets:
they are in order, in range and between characters, so no slice fails.
-/
namespace ShiftReduce

variable {K S V E I : Type} {lexicon : Lexicon K} {text : List Char}

def lineAt (text : List Char) (offset : Nat) : Nat := 1 + (text.take offset).count '\n'

theorem lineAt_mono (text : List Char) {i j : Nat} (before : i ≤ j) :
    lineAt text i ≤ lineAt text j :=
  Nat.add_le_add_left (List.Sublist.count_le '\n' (List.take_sublist_take_left before)) 1

theorem lineAt_le (text : List Char) (offset : Nat) : lineAt text offset ≤ 1 + text.count '\n' :=
  Nat.add_le_add_left (List.Sublist.count_le '\n' (List.take_sublist offset text)) 1

theorem lineAt_add (text : List Char) (offset count : Nat) :
    lineAt text (offset + count) =
      lineAt text offset + ((text.drop offset).take count).count '\n' := by
  simp [lineAt, List.take_add, Nat.add_assoc]

section Places

structure Lexeme.StandsIn (x : Lexeme K) (text : List Char) : Prop where
  place : x.text <+: text.drop x.start
  visible : ∃ c ∈ x.text.head?, isBlank c = false

theorem start_le_of_mem_scanFrom {start : Nat} {rest : List Char} {x : Lexeme K}
    (member : x ∈ scanFrom lexicon start rest) : start ≤ x.start := by
  fun_induction scanFrom lexicon start rest with
  | case1 start => cases member
  | case2 start c rest blank ih =>
    have later := ih member
    omega
  | case3 start c rest visible found slice ih =>
    rcases List.mem_cons.1 member with rfl | among
    · exact Nat.le_refl _
    · have later := ih among
      omega

theorem scanFrom_apart (start : Nat) (rest : List Char) :
    (scanFrom lexicon start rest).Pairwise fun x y => x.start + x.text.length ≤ y.start := by
  fun_induction scanFrom lexicon start rest with
  | case1 start => exact .nil
  | case2 start c rest blank ih => exact ih
  | case3 start c rest visible found slice ih =>
    exact .cons (fun y member => start_le_of_mem_scanFrom member) ih

theorem standsIn_of_mem_scanFrom {start : Nat} {rest : List Char} {x : Lexeme K}
    (remaining : text.drop start = rest) (member : x ∈ scanFrom lexicon start rest) :
    x.StandsIn text := by
  fun_induction scanFrom lexicon start rest with
  | case1 start => cases member
  | case2 start c rest blank ih =>
    have next : text.drop (start + 1) = rest := by simp [← List.drop_drop, remaining]
    exact ih next member
  | case3 start c rest visible found slice ih =>
    rcases List.mem_cons.1 member with rfl | among
    · refine ⟨?_, c, rfl, by simpa using visible⟩
      simp only [remaining, slice]
      exact List.prefix_cons_inj c |>.2 (List.take_prefix _ _)
    · have next : text.drop (start + slice.length) = rest.drop found.2 := by
        rw [← List.drop_drop, remaining]
        simp [slice]
      exact ih next among

end Places

section Counters

def LineCounter.linesAt : LineCounter → List Nat → List Nat
  | _, [] => []
  | l, offset :: offsets => (l.moveTo offset).line :: (l.moveTo offset).linesAt offsets

theorem withLines_eq_zip (l : LineCounter) (xs : List (Lexeme K)) :
    withLines l xs = (l.linesAt (xs.map Lexeme.start)).zip xs := by
  induction xs generalizing l with
  | nil => rfl
  | cons x xs ih => simp [withLines, LineCounter.linesAt, ih]

def LineCounter.reached (text : List Char) (offset : Nat) : LineCounter :=
  ⟨text.drop offset, offset, lineAt text offset⟩

theorem LineCounter.moveTo_reached {i j : Nat} (before : i ≤ j) :
    (LineCounter.reached text i).moveTo j = .reached text j := by
  obtain ⟨count, rfl⟩ := Nat.exists_eq_add_of_le before
  simp [LineCounter.reached, moveTo, lineAt_add]

theorem LineCounter.linesAt_reached {offset : Nat} {offsets : List Nat}
    (forward : (offset :: offsets).Pairwise (· ≤ ·)) :
    (LineCounter.reached text offset).linesAt offsets = offsets.map (lineAt text) := by
  induction offsets generalizing offset with
  | nil => rfl
  | cons next offsets ih =>
    obtain ⟨first, later⟩ := List.pairwise_cons.1 forward
    simp only [linesAt, moveTo_reached (first next List.mem_cons_self), ih later]
    rfl

def byteSize (cs : List Char) : Nat := (String.ofList cs).utf8ByteSize

theorem byteSize_cons (c : Char) (cs : List Char) :
    byteSize (c :: cs) = c.utf8Size + byteSize cs := by
  simp [byteSize, String.ofList_cons]

theorem byteSize_append (cs ds : List Char) : byteSize (cs ++ ds) = byteSize cs + byteSize ds := by
  simp [byteSize, String.ofList_append]

/-- The characters of so many bytes and the rest; none if the bytes end inside a character or the
text has less. -/
def splitBytes? : Nat → List Char → Option (List Char × List Char)
  | 0, cs => some ([], cs)
  | _ + 1, [] => none
  | n + 1, c :: cs =>
    if c.utf8Size ≤ n + 1 then
      (splitBytes? (n + 1 - c.utf8Size) cs).map fun split => (c :: split.1, split.2)
    else none

theorem splitBytes?_append (front back : List Char) :
    splitBytes? (byteSize front) (front ++ back) = some (front, back) := by
  induction front with
  | nil => simp [byteSize, splitBytes?]
  | cons c front ih =>
    have size := byteSize_cons c front
    have pos := c.utf8Size_pos
    obtain ⟨n, next⟩ : ∃ n, byteSize (c :: front) = n + 1 := ⟨_, (Nat.succ_pred (by omega)).symm⟩
    have rest : n + 1 - c.utf8Size = byteSize front := by omega
    simp [next, splitBytes?, rest, ih, show c.utf8Size ≤ n + 1 by omega]

theorem splitBytes?_eq_some_iff {n : Nat} {cs front back : List Char} :
    splitBytes? n cs = some (front, back) ↔ cs = front ++ back ∧ n = byteSize front := by
  constructor
  · intro split
    fun_induction splitBytes? n cs generalizing front back with
    | case1 cs =>
      obtain ⟨rfl, rfl⟩ := Prod.mk.inj (Option.some.inj split)
      simp [byteSize]
    | case2 n => cases split
    | case3 n c cs fits ih =>
      obtain ⟨⟨later, back⟩, found, same⟩ := Option.map_eq_some_iff.1 split
      simp only [Prod.mk.injEq] at same
      obtain ⟨rfl, rfl⟩ := same
      obtain ⟨rfl, size⟩ := ih found
      refine ⟨rfl, ?_⟩
      rw [byteSize_cons]
      omega
    | case4 n c cs exceeds => cases split
  · rintro ⟨rfl, rfl⟩
    exact splitBytes?_append front back

/-- What stands between two byte offsets; none if they are not in order, if one of them is out of
range, or if one is inside a character. -/
def slice? (text : List Char) (first last : Nat) : Option (List Char) :=
  if first ≤ last then
    (splitBytes? first text).bind fun split => (splitBytes? (last - first) split.2).map Prod.fst
  else none

theorem slice?_eq_some_iff {part : List Char} {first last : Nat} :
    slice? text first last = some part ↔
      ∃ before after, text = before ++ part ++ after ∧ first = byteSize before ∧
        last = byteSize (before ++ part) := by
  simp only [slice?, byteSize_append]
  constructor
  · intro found
    split at found
    next ordered =>
      obtain ⟨⟨before, rest⟩, outer, inner⟩ := Option.bind_eq_some_iff.1 found
      obtain ⟨⟨middle, after⟩, split, same⟩ := Option.map_eq_some_iff.1 inner
      obtain rfl : middle = part := same
      obtain ⟨rfl, rfl⟩ := splitBytes?_eq_some_iff.1 outer
      obtain ⟨rfl, size⟩ := splitBytes?_eq_some_iff.1 split
      exact ⟨before, after, by simp, rfl, by omega⟩
    next => cases found
  · rintro ⟨before, after, rfl, rfl, rfl⟩
    have size : byteSize before + byteSize part - byteSize before = byteSize part := by omega
    rw [if_pos (by omega), List.append_assoc, splitBytes?_append]
    simp [size, splitBytes?_append]

/-- The second character takes two bytes. -/
example : slice? ['a', 'é', 'b'] 1 3 = some ['é'] ∧ slice? ['a', 'é', 'b'] 1 2 = none := by decide

/-- The lines of byte offsets by a counter that keeps an offset and a line, and counts the newlines
of the slice of the whole text up to the next offset; none if a slice fails. -/
def sliceLines? (text : List Char) (offset line : Nat) : List Nat → Option (List Nat)
  | [] => some []
  | next :: offsets => do
    let passed ← slice? text offset next
    let line := line + passed.count '\n'
    let lines ← sliceLines? text next line offsets
    some (line :: lines)

def byteOffset (text : List Char) (offset : Nat) : Nat := byteSize (text.take offset)

theorem slice?_byteOffset (text : List Char) (offset count : Nat) :
    slice? text (byteOffset text offset) (byteOffset text (offset + count)) =
      some ((text.drop offset).take count) := by
  have parts : text.take offset ++ (text.drop offset).take count = text.take (offset + count) :=
    List.take_add.symm
  refine slice?_eq_some_iff.2 ⟨text.take offset, text.drop (offset + count), ?_, rfl, ?_⟩
  · rw [parts, List.take_append_drop]
  · rw [parts, byteOffset]

theorem sliceLines?_byteOffset {offset : Nat} {offsets : List Nat}
    (forward : (offset :: offsets).Pairwise (· ≤ ·)) :
    sliceLines? text (byteOffset text offset) (lineAt text offset)
      (offsets.map (byteOffset text)) = some (offsets.map (lineAt text)) := by
  induction offsets generalizing offset with
  | nil => rfl
  | cons next offsets ih =>
    obtain ⟨first, later⟩ := List.pairwise_cons.1 forward
    obtain ⟨count, rfl⟩ := Nat.exists_eq_add_of_le (first next List.mem_cons_self)
    simp [sliceLines?, slice?_byteOffset, ← lineAt_add, ih later]

end Counters

section Items

def lineOf (line : E → Nat) : Except E (Token S V) → Option Nat
  | .ok token => token.line
  | .error error => some (line error)

/-- The items are made of the lexemes of the text, which stand in it one after the other, and each
carries the line on which its lexeme starts. The lines never decrease, and slicing the text between
the byte offsets of the lexemes yields them too. -/
structure Numbered (lexicon : Lexicon K) (make : Nat → Lexeme K → I) (line? : I → Option Nat)
    (text : List Char) (items : List I) : Prop where
  stands : ∀ x ∈ scan lexicon text, x.StandsIn text
  apart : (scan lexicon text).Pairwise fun x y => x.start + x.text.length ≤ y.start
  made : items = (scan lexicon text).map fun x => make (lineAt text x.start) x
  carried : items.map line? = (scan lexicon text).map fun x => some (lineAt text x.start)
  sorted : (items.filterMap line?).Pairwise (· ≤ ·)
  sliced : sliceLines? text 0 1 ((scan lexicon text).map fun x => byteOffset text x.start) =
    some ((scan lexicon text).map fun x => lineAt text x.start)

theorem LineCounter.start_eq (text : List Char) : start text = .reached text 0 := rfl

theorem starts_forward (lexicon : Lexicon K) (text : List Char) :
    (0 :: (scan lexicon text).map Lexeme.start).Pairwise (· ≤ ·) := by
  refine .cons (fun _ _ => Nat.zero_le _) (List.pairwise_map.2 ?_)
  refine (scanFrom_apart 0 text).imp ?_
  intro x y apart
  omega

theorem lexemes_eq_map (lexicon : Lexicon K) (text : String) :
    lexemes lexicon text =
      (scan lexicon text.toList).map fun x => (lineAt text.toList x.start, x) := by
  have lines := @LineCounter.linesAt_reached text.toList _ _ (starts_forward lexicon text.toList)
  rw [lexemes, withLines_eq_zip, LineCounter.start_eq, lines, List.map_map,
    ← List.map_prod_right_eq_zip]
  rfl

theorem numbered {make : Nat → Lexeme K → I} {line? : I → Option Nat}
    (carries : ∀ line x, line? (make line x) = some line) (text : String) :
    Numbered lexicon make line? text.toList ((lexemes lexicon text).map fun x => make x.1 x.2) := by
  have made : ((lexemes lexicon text).map fun x => make x.1 x.2) =
      (scan lexicon text.toList).map fun x => make (lineAt text.toList x.start) x := by
    simp [lexemes_eq_map]
  have starts := starts_forward lexicon text.toList
  rw [made]
  refine ⟨fun x member => standsIn_of_mem_scanFrom rfl member, scanFrom_apart 0 text.toList, rfl,
    by simp [carries], ?_, ?_⟩
  · have forward := (List.pairwise_cons.1 starts).2
    simp only [List.filterMap_map, Function.comp_def, carries, List.filterMap_eq_map']
    rw [List.pairwise_map] at forward ⊢
    exact forward.imp fun before => lineAt_mono text.toList before
  · have sliced := @sliceLines?_byteOffset text.toList _ _ starts
    rw [List.map_map, List.map_map] at sliced
    exact sliced

theorem Numbered.le_last {make : Nat → Lexeme K → I} {line? : I → Option Nat} {items : List I}
    (numbered : Numbered lexicon make line? text items) :
    ∀ item ∈ items, ∀ line ∈ line? item, line ≤ 1 + text.count '\n' := by
  intro item member line carried
  have among : line? item ∈ items.map line? := List.mem_map_of_mem member
  rw [numbered.carried, Option.mem_def.1 carried] at among
  obtain ⟨x, _, same⟩ := List.mem_map.1 among
  obtain rfl := Option.some.inj same
  exact lineAt_le text x.start

theorem lineOf_item (line? : E → Nat) (error : String → Nat → E)
    (stored : ∀ slice line, line? (error slice line) = line) (carried : K → List Char → S × V)
    (line : Nat) (x : Lexeme K) : lineOf line? (x.item carried error line) = some line := by
  unfold Lexeme.item
  cases x.kind with
  | some kind => rfl
  | none => exact congrArg some (stored _ line)

theorem SExpression.lineOf_ofSlice (line : Nat) (x : Lexeme SExpression.Kind) :
    lineOf LexError.line ((SExpression.slice line x).map SExpression.ofSlice) = some line := by
  have carries : lineOf LexError.line (SExpression.slice line x) = some line :=
    lineOf_item LexError.line .mk (fun _ _ => rfl) _ line x
  cases made : SExpression.slice line x with
  | ok token => simpa [made, Except.map, lineOf, ofSlice] using carries
  | error error => simpa [made, Except.map, lineOf] using carries

/-- Every line number is the true one, for the three lexers and for counters that move to any
offsets in order. -/
theorem line_numbers_true (text : String) :
    Numbered Arithmetic.lexicon Arithmetic.token (lineOf LexError.line) text.toList
      (Arithmetic.tokens text) ∧
    (Arithmetic.tokensWithEnd text = Arithmetic.tokens text ++
        [.ok ⟨"$eof", 0, some (1 + text.toList.count '\n')⟩] ∧
      ∀ item ∈ Arithmetic.tokens text, ∀ line ∈ lineOf LexError.line item,
        line ≤ 1 + text.toList.count '\n') ∧
    (∃ items, SExpression.slices text = items ++ [.ok ⟨"$eof", "", none⟩] ∧
      Numbered SExpression.lexicon SExpression.slice (lineOf LexError.line) text.toList items) ∧
    (∃ items, SExpression.tokens text = items ++ [.ok ⟨"$eof", .punct, none⟩] ∧
      Numbered SExpression.lexicon
        (fun line x => (SExpression.slice line x).map SExpression.ofSlice)
        (lineOf LexError.line) text.toList items) ∧
    Numbered Calculator.lexicon Calculator.token (lineOf Calculator.LexError.line) text.toList
      (Calculator.tokens text) ∧
    ∀ offsets : List Nat, offsets.Pairwise (· ≤ ·) →
      (LineCounter.start text.toList).linesAt offsets = offsets.map (lineAt text.toList) ∧
      sliceLines? text.toList 0 1 (offsets.map (byteOffset text.toList)) =
        some ((LineCounter.start text.toList).linesAt offsets) := by
  have arithmetic := @numbered _ _ Arithmetic.lexicon Arithmetic.token _
    (lineOf_item LexError.line .mk (fun _ _ => rfl) _) text
  have symbolic := @numbered _ _ SExpression.lexicon _ _ SExpression.lineOf_ofSlice text
  refine ⟨arithmetic, ⟨?_, arithmetic.le_last⟩, ⟨_, rfl, ?_⟩, ⟨_, ?_, symbolic⟩, ?_, ?_⟩
  · simp [Arithmetic.tokensWithEnd, Arithmetic.endSymbol, lastLine, Nat.add_comm]
  · exact numbered (lineOf_item LexError.line .mk (fun _ _ => rfl) _) text
  · rw [SExpression.tokens, SExpression.slices, List.map_append, List.map_map]
    rfl
  · exact numbered (lineOf_item Calculator.LexError.line .mk (fun _ _ => rfl) _) text
  · intro offsets forward
    have fromStart : (0 :: offsets).Pairwise (· ≤ ·) := .cons (fun _ _ => Nat.zero_le _) forward
    have counted := @LineCounter.linesAt_reached text.toList _ _ fromStart
    have sliced := @sliceLines?_byteOffset text.toList _ _ fromStart
    rw [LineCounter.start_eq, counted]
    exact ⟨rfl, sliced⟩

end Items

end ShiftReduce
