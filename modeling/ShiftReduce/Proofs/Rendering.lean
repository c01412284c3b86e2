import Mathlib.Data.List.Chain
import ShiftReduce.Proofs.Layout
import ShiftReduce.Proofs.SExpression
/-!
Symbolic expressions as text. A text renders a sequence of expressions if it lays out their words:
each atom as its text, and each list as its items between parentheses, with any blanks before,
between and after the words. A text is parsed to a value if and only if it renders a sequence of
plain expressions, and the value is their list.
-/
namespace ShiftReduce

variable {S V E : Type}

theorem exists_tokens_of_bare {text : E → String} {items : List (Except E (Token S V))}
    {carried : List (S × V)} (bares : items.map (bare text) = carried.map .ok) :
    ∃ ts : List (Token S V), items = ts.map .ok ∧
      ts.map (fun token => (token.symbol, token.value)) = carried := by
  induction items generalizing carried with
  | nil =>
    have none : carried = [] := by simpa using bares.symm
    exact ⟨[], rfl, none.symm⟩
  | cons item items ih =>
    cases carried with
    | nil => simp at bares
    | cons pair carried =>
      simp only [List.map_cons, List.cons.injEq] at bares
      obtain ⟨here, later⟩ := bares
      obtain ⟨ts, rfl, same⟩ := ih later
      cases item with
      | error e => cases here
      | ok token =>
        have first : (token.symbol, token.value) = pair := Except.ok.inj here
        exact ⟨token :: ts, rfl, by simp [first, same]⟩

theorem Layout.exists_of_spelled {T : Type} {script : Script T} {ts : List T}
    (spelled : ∀ token ∈ ts, ∃ word, script.Spells token word) :
    ∃ x : Layout script, x.tokens = ts := by
  suffices spread : ∃ placed : List (Placed script), placed.map Placed.token = ts ∧
      placed.IsChain fun x y => script.Clash x.token y.token → x.gap ≠ [] by
    obtain ⟨placed, same, spaced⟩ := spread
    exact ⟨⟨[], placed, by simp, spaced⟩, same⟩
  induction ts with
  | nil => exact ⟨[], rfl, by simp⟩
  | cons token ts ih =>
    obtain ⟨here, later⟩ := List.forall_mem_cons.1 spelled
    obtain ⟨word, spells⟩ := here
    obtain ⟨placed, rfl, spaced⟩ := ih later
    let first : Placed script := ⟨token, word, [' '], spells, by simp [isBlank]⟩
    exact ⟨first :: placed, rfl, List.isChain_cons.2 ⟨by simp [first], spaced⟩⟩

namespace SExpression

/-- Atoms that start with a letter or an underscore and go on with letters, underscores and digits,
and lists of such expressions. -/
inductive Plain : SExpression → Prop
  | atom (c : Char) (rest : List Char) (starts : startsAtom c = true)
    (inside : ∀ d ∈ rest, continuesAtom d = true) : Plain (.atom (String.ofList (c :: rest)))
  | list (items : List SExpression) (plain : ∀ x ∈ items, Plain x) : Plain (.list items)

mutual

def words : SExpression → List (String × String)
  | .atom text => [("ATOM", text)]
  | .list items => ("(", "(") :: (wordsAll items ++ [(")", ")")])
  | .punct => []

def wordsAll : List SExpression → List (String × String)
  | [] => []
  | x :: xs => words x ++ wordsAll xs

end

def Renders (xs : List SExpression) (text : String) : Prop :=
  ∃ x : Layout script, x.tokens = wordsAll xs ∧ x.text = text

section Words

def wordPiece? (word : String × String) : Option Piece := piece? (ofSlice ⟨word.1, word.2, none⟩)

theorem spelled_cases {word : String × String} {cs : List Char} (spelled : Spells word cs) :
    (word = ("(", "(") ∧ wordPiece? word = some .opening) ∨
    (word = (")", ")") ∧ wordPiece? word = some .closing) ∨
    ∃ text, word = ("ATOM", text) ∧ wordPiece? word = some (.atom (.atom text)) ∧
      Plain (.atom text) := by
  cases spelled with
  | leftParen => exact .inl ⟨rfl, rfl⟩
  | rightParen => exact .inr (.inl ⟨rfl, rfl⟩)
  | atom c rest starts inside => exact .inr (.inr ⟨_, rfl, rfl, .atom c rest starts inside⟩)

theorem eq_of_opening {word : String × String} {cs : List Char} (spelled : Spells word cs)
    (piece : wordPiece? word = some .opening) : word = ("(", "(") := by
  rcases spelled_cases spelled with ⟨same, _⟩ | ⟨_, other⟩ | ⟨text, _, other, _⟩
  · exact same
  · simp [piece] at other
  · simp [piece] at other

theorem eq_of_closing {word : String × String} {cs : List Char} (spelled : Spells word cs)
    (piece : wordPiece? word = some .closing) : word = (")", ")") := by
  rcases spelled_cases spelled with ⟨_, other⟩ | ⟨same, _⟩ | ⟨text, _, other, _⟩
  · simp [piece] at other
  · exact same
  · simp [piece] at other

theorem eq_of_atom {word : String × String} {cs : List Char} {value : SExpression}
    (spelled : Spells word cs) (piece : wordPiece? word = some (.atom value)) :
    ∃ text, word = ("ATOM", text) ∧ value = .atom text ∧ Plain (.atom text) := by
  rcases spelled_cases spelled with ⟨_, other⟩ | ⟨_, other⟩ | ⟨text, same, found, plain⟩
  · simp [piece] at other
  · simp [piece] at other
  · rw [piece] at found
    exact ⟨text, same, Piece.atom.inj (Option.some.inj found), plain⟩

mutual

theorem words_of_item : (i : Item) → {ws : List (String × String)} →
    (∀ w ∈ ws, ∃ cs, Spells w cs) → ws.map wordPiece? = i.flatten.map some →
    ws = words i.value ∧ Plain i.value
  | .atom value, ws, spelled, flattens => by
    obtain ⟨w, rfl, piece⟩ := List.map_eq_singleton_iff.1 flattens
    obtain ⟨cs, spells⟩ := spelled w (by simp)
    obtain ⟨text, rfl, rfl, plain⟩ := eq_of_atom spells piece
    exact ⟨rfl, plain⟩
  | .group is, ws, spelled, flattens => by
    have split : ws.map wordPiece? = [some .opening] ++
        ((Item.flattenAll is).map some ++ [some .closing]) := by
      simpa [Item.flatten] using flattens
    obtain ⟨_, _, rfl, first, later⟩ := List.map_eq_append_iff.1 split
    obtain ⟨inside, _, rfl, middle, last⟩ := List.map_eq_append_iff.1 later
    obtain ⟨left, rfl, opening⟩ := List.map_eq_singleton_iff.1 first
    obtain ⟨right, rfl, closing⟩ := List.map_eq_singleton_iff.1 last
    obtain ⟨_, spellsLeft⟩ := spelled left (by simp)
    obtain ⟨_, spellsRight⟩ := spelled right (by simp)
    obtain rfl := eq_of_opening spellsLeft opening
    obtain rfl := eq_of_closing spellsRight closing
    obtain ⟨same, plain⟩ := words_of_items is (fun w member => spelled w (by simp [member])) middle
    exact ⟨by simp [same, Item.value, words], .list _ plain⟩

theorem words_of_items : (is : List Item) → {ws : List (String × String)} →
    (∀ w ∈ ws, ∃ cs, Spells w cs) → ws.map wordPiece? = (Item.flattenAll is).map some →
    ws = wordsAll (Item.values is) ∧ ∀ x ∈ Item.values is, Plain x
  | [], ws, _, flattens => by
    have none : ws = [] := by simpa [Item.flattenAll] using flattens
    simp [none, Item.values, wordsAll]
  | i :: is, ws, spelled, flattens => by
    rw [Item.flattenAll, List.map_append] at flattens
    obtain ⟨front, back, rfl, first, later⟩ := List.map_eq_append_iff.1 flattens
    obtain ⟨rfl, plain⟩ := words_of_item i (fun w member => spelled w (by simp [member])) first
    obtain ⟨rfl, plains⟩ := words_of_items is (fun w member => spelled w (by simp [member])) later
    exact ⟨rfl, List.forall_mem_cons.2 ⟨plain, plains⟩⟩

end

mutual

theorem exists_item : (x : SExpression) → Plain x →
    ∃ i : Item, i.value = x ∧ (words x).map wordPiece? = i.flatten.map some
  | .atom text, _ => ⟨.atom (.atom text), rfl, rfl⟩
  | .list items, plain => by
    cases plain with
    | list _ inside =>
      obtain ⟨is, rfl, flattens⟩ := exists_items items inside
      refine ⟨.group is, rfl, ?_⟩
      have left : wordPiece? ("(", "(") = some .opening := rfl
      have right : wordPiece? (")", ")") = some .closing := rfl
      simp [words, Item.flatten, flattens, left, right]
  | .punct, plain => nomatch plain

theorem exists_items : (xs : List SExpression) → (∀ x ∈ xs, Plain x) →
    ∃ is : List Item, Item.values is = xs ∧
      (wordsAll xs).map wordPiece? = (Item.flattenAll is).map some
  | [], _ => ⟨[], rfl, rfl⟩
  | x :: xs, plain => by
    obtain ⟨here, later⟩ := List.forall_mem_cons.1 plain
    obtain ⟨i, rfl, first⟩ := exists_item x here
    obtain ⟨is, rfl, others⟩ := exists_items xs later
    exact ⟨i :: is, rfl, by simp [wordsAll, Item.flattenAll, first, others]⟩

end

mutual

theorem spells_of_plain : (x : SExpression) → Plain x → ∀ w ∈ words x, ∃ cs, Spells w cs
  | .atom text, plain => by
    cases plain with
    | atom c rest starts inside =>
      intro w member
      obtain rfl := List.mem_singleton.1 member
      exact ⟨_, .atom c rest starts inside⟩
  | .list items, plain => by
    cases plain with
    | list _ inside =>
      intro w member
      simp only [words, List.mem_cons, List.mem_append, List.not_mem_nil, or_false] at member
      rcases member with rfl | among | rfl
      · exact ⟨_, .leftParen⟩
      · exact spells_of_plains items inside w among
      · exact ⟨_, .rightParen⟩
  | .punct, plain => nomatch plain

theorem spells_of_plains : (xs : List SExpression) → (∀ x ∈ xs, Plain x) →
    ∀ w ∈ wordsAll xs, ∃ cs, Spells w cs
  | [], _ => by simp [wordsAll]
  | x :: xs, plain => by
    obtain ⟨here, later⟩ := List.forall_mem_cons.1 plain
    intro w member
    rcases List.mem_append.1 member with first | others
    · exact spells_of_plain x here w first
    · exact spells_of_plains xs later w others

end

end Words

section Layouts

theorem spells_of_found {c : Char} {rest : List Char} (found : (lexicon c rest).1.isSome) :
    ∃ token, Spells token (c :: rest.take (lexicon c rest).2) ∧
      (token.1 = "ATOM" → ∀ d ∈ (rest.drop (lexicon c rest).2).head?, continuesAtom d = false) := by
  by_cases starts : startsAtom c = true
  · have run : rest.takeWhile continuesAtom ++ rest.dropWhile continuesAtom = rest :=
      List.takeWhile_append_dropWhile
    have taken : rest.take (rest.takeWhile continuesAtom).length = rest.takeWhile continuesAtom :=
      (List.prefix_iff_eq_take.1 (List.takeWhile_prefix _)).symm
    have left := @List.drop_left _ (rest.takeWhile continuesAtom) (rest.dropWhile continuesAtom)
    rw [run] at left
    rw [lexicon_of_startsAtom starts, taken, left]
    refine ⟨_, .atom c _ starts fun d member => List.mem_takeWhile_imp member, ?_⟩
    intro _ d head
    have stopped := List.head?_dropWhile_not continuesAtom rest
    rw [Option.mem_def.1 head] at stopped
    exact stopped
  · rw [lexicon_of_not_startsAtom (by simpa using starts)] at found ⊢
    unfold sign? at found
    split at found
    · exact ⟨_, .leftParen, fun atom => absurd atom (by decide)⟩
    · exact ⟨_, .rightParen, fun atom => absurd atom (by decide)⟩
    · cases found

theorem continues_of_spelled {token : String × String} {word : List Char}
    (spelled : Spells token word) (atom : token.1 = "ATOM") :
    ∃ d ∈ word.head?, continuesAtom d = true := by
  cases spelled with
  | leftParen => exact absurd atom (by decide)
  | rightParen => exact absurd atom (by decide)
  | atom d rest starts inside => exact ⟨d, rfl, continuesAtom_of_startsAtom starts⟩

theorem exists_layout (text : List Char) (known : ∀ x ∈ cuts lexicon text, x.1.isSome) :
    ∃ x : Layout script, x.lead ++ Layout.written x.placed = text := by
  induction text using cuts_induction lexicon with
  | nil => exact ⟨⟨[], [], by simp, by simp⟩, rfl⟩
  | blank c rest blank ih =>
    rw [cuts_blank blank] at known
    obtain ⟨x, rfl⟩ := ih known
    exact ⟨⟨c :: x.lead, x.placed, List.forall_mem_cons.2 ⟨blank, x.blank⟩, x.spaced⟩, rfl⟩
  | visible c rest visible ih =>
    rw [cuts_visible visible] at known
    obtain ⟨here, later⟩ := List.forall_mem_cons.1 known
    obtain ⟨x, after⟩ := ih later
    obtain ⟨token, spelled, stopped⟩ := spells_of_found here
    -- The blanks that lead what follows become the gap after this token.
    let first : Placed script := ⟨token, _, x.lead, spelled, x.blank⟩
    have spaced : (first :: x.placed).IsChain fun x y => Clash x.token y.token → x.gap ≠ [] := by
      cases placed : x.placed with
      | nil => simp
      | cons y ys =>
        refine List.isChain_cons_cons.2 ⟨?_, placed ▸ x.spaced⟩
        rintro ⟨atom, another⟩ none
        have noLead : x.lead = [] := none
        obtain ⟨d, head, continues⟩ := continues_of_spelled y.spelled another
        have next : d ∈ (rest.drop (lexicon c rest).2).head? := by
          rw [← after, noLead, placed]
          simp [Layout.written, Option.mem_def.1 head]
        rw [stopped atom d next] at continues
        cases continues
    refine ⟨⟨[], first :: x.placed, by simp, spaced⟩, ?_⟩
    calc
      [] ++ Layout.written (first :: x.placed)
          = c :: rest.take (lexicon c rest).2 ++ (x.lead ++ Layout.written x.placed) := by
        simp [Layout.written, first]
      _ = c :: rest := by simp [after]

end Layouts

section Parse

def endToken : Token String SExpression := ⟨endSymbol, .punct, none⟩

theorem tokens_eq_items (text : String) :
    tokens text = (lexer.items text).map (Except.map ofSlice) ++ [.ok endToken] := by
  rw [tokens, slices_eq_items, List.map_append]
  rfl

theorem symbol_ne_end {text : String} {token : Token String SExpression}
    (member : .ok token ∈ (lexer.items text).map (Except.map ofSlice)) :
    token.symbol ≠ endSymbol := by
  obtain ⟨item, inside, made⟩ := List.mem_map.1 member
  obtain ⟨x, _, rfl⟩ := List.mem_map.1 inside
  cases known : x.2.kind with
  | none => simp [Lexer.item, Lexeme.item, known, Except.map] at made
  | some kind =>
    simp only [Lexer.item, Lexeme.item, lexer, known, Except.map, Except.ok.injEq] at made
    subst made
    cases kind with
    | leftParen => simp [ofSlice, Kind.symbol, endSymbol]
    | rightParen => simp [ofSlice, Kind.symbol, endSymbol]
    | atom => simp [ofSlice, Kind.symbol, endSymbol]

theorem parse_layout_iff (x : Layout script) (v : SExpression) :
    (parse parser (tokens x.text)).outcome = .value v ↔
      ∃ is, x.tokens.map wordPiece? = (Item.flattenAll is).map some ∧
        v = .list (Item.values is) := by
  have bares := lexer.map_bare_items x.text
  rw [Layout.map_found_read legible] at bares
  obtain ⟨ts, items, carried⟩ := exists_tokens_of_bare bares
  have before : tokensBefore endSymbol (ts.map ofSlice ++ [endToken]) = ts.map ofSlice := by
    have proper : ∀ token ∈ ts.map ofSlice, decide (token.symbol ≠ endSymbol) = true := by
      intro token member
      have inside : .ok token ∈ (lexer.items x.text).map (Except.map ofSlice) := by
        rw [items, List.map_map]
        obtain ⟨t, among, rfl⟩ := List.mem_map.1 member
        exact List.mem_map.2 ⟨t, among, rfl⟩
      exact decide_eq_true (symbol_ne_end inside)
    rw [tokensBefore, List.takeWhile_append_of_pos proper]
    simp [endToken]
  have all : tokens x.text = (ts.map ofSlice ++ [endToken]).map .ok := by
    rw [tokens_eq_items, items]
    simp [Except.map]
  have pieces : (ts.map ofSlice).map piece? = x.tokens.map wordPiece? := by
    rw [← carried, List.map_map, List.map_map]
    rfl
  rw [all, parse_value_iff, before]
  unfold Flattens
  rw [pieces]
  simp [endToken]

theorem known_of_value {text : String} {v : SExpression}
    (accepted : (parse parser (tokens text)).outcome = .value v) :
    ∀ x ∈ cuts lexicon text.toList, x.1.isSome := by
  obtain ⟨t, rest, split, _, _, _, _, look⟩ := certified.derivation_of_run accepted
  rw [tokens_eq_items] at split
  -- The end token is the last item, so the leaves of the derivation are all items before it.
  have leaves : ∀ item ∈ (lexer.items text).map (Except.map ofSlice), item ∈ t.leaves.map .ok := by
    rcases List.append_eq_append_iff.1 split with ⟨more, longer, _⟩ | ⟨more, shorter, tail⟩
    · intro item member
      rw [longer]
      exact List.mem_append_left more member
    · cases more with
      | nil =>
        rw [List.append_nil] at shorter
        simp [shorter]
      | cons item more =>
        subst tail
        cases item with
        | error e => cases look
        | ok token =>
          have inside : .ok token ∈ (lexer.items text).map (Except.map ofSlice) := by
            simp [shorter]
          exact absurd (Option.some.inj look) (symbol_ne_end inside)
  intro x member
  rw [cuts_eq_map_lexemes] at member
  obtain ⟨y, inside, rfl⟩ := List.mem_map.1 member
  cases known : y.2.kind with
  | some kind => rfl
  | none =>
    have item : lexer.item y.1 y.2 = .error ⟨String.ofList y.2.text, y.1⟩ := by
      simp [Lexer.item, Lexeme.item, lexer, known]
    have among := leaves _ (List.mem_map_of_mem (List.mem_map_of_mem inside))
    simp [item, Except.map] at among

/-- A text is parsed to a value if and only if it renders a sequence of plain expressions, and the
value is their list. Every such sequence can be rendered. -/
theorem text_round_trip :
    (∀ text v, (parse parser (tokens text)).outcome = .value v ↔
      ∃ xs, v = .list xs ∧ (∀ x ∈ xs, Plain x) ∧ Renders xs text) ∧
    ∀ xs, (∀ x ∈ xs, Plain x) → ∃ text, Renders xs text := by
  refine ⟨fun text v => ⟨fun accepted => ?_, ?_⟩, fun xs plain => ?_⟩
  · obtain ⟨x, layout⟩ := exists_layout text.toList (known_of_value accepted)
    have same : x.text = text := by rw [Layout.text, layout, String.ofList_toList]
    rw [← same, parse_layout_iff] at accepted
    obtain ⟨is, flattens, rfl⟩ := accepted
    have spelled : ∀ w ∈ x.tokens, ∃ cs, Spells w cs := by
      intro w member
      obtain ⟨y, _, rfl⟩ := List.mem_map.1 member
      exact ⟨y.word, y.spelled⟩
    obtain ⟨written, plain⟩ := words_of_items is spelled flattens
    exact ⟨Item.values is, rfl, plain, x, written, same⟩
  · rintro ⟨xs, rfl, plain, x, written, rfl⟩
    obtain ⟨is, rfl, flattens⟩ := exists_items xs plain
    exact (parse_layout_iff x _).2 ⟨is, by rw [written, flattens], rfl⟩
  · obtain ⟨x, tokens⟩ := @Layout.exists_of_spelled _ script _ (spells_of_plains xs plain)
    exact ⟨x.text, x, tokens, rfl⟩

end Parse

end SExpression

end ShiftReduce
