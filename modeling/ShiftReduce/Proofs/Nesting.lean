import ShiftReduce.SExpression.Grammar
import ShiftReduce.Proofs.Recognition
/-!
Nested lists and their flattenings. A sequence of atoms and parentheses flattens a forest if and
only if it is balanced, and then only one: a reader that keeps a stack of the lists that are open
finds it.
-/
namespace ShiftReduce.SExpression

/-- A token as it counts for nesting: a parenthesis has no value. -/
inductive Piece where
  | atom (value : SExpression)
  | opening
  | closing

def Piece.symbol : Piece → String
  | .atom _ => "ATOM"
  | .opening => "("
  | .closing => ")"

def piece? (token : Token String SExpression) : Option Piece :=
  if token.symbol = "ATOM" then some (.atom token.value)
  else if token.symbol = "(" then some .opening
  else if token.symbol = ")" then some .closing
  else none

inductive Item where
  | atom (value : SExpression)
  | group (items : List Item)

namespace Item

mutual

def flatten : Item → List Piece
  | .atom value => [.atom value]
  | .group items => .opening :: flattenAll items ++ [.closing]

def flattenAll : List Item → List Piece
  | [] => []
  | x :: xs => flatten x ++ flattenAll xs

end

mutual

def value : Item → SExpression
  | .atom value => value
  | .group items => .list (values items)

def values : List Item → List SExpression
  | [] => []
  | x :: xs => value x :: values xs

end

theorem flattenAll_append (xs ys : List Item) :
    flattenAll (xs ++ ys) = flattenAll xs ++ flattenAll ys := by
  induction xs with
  | nil => rfl
  | cons x xs ih => rw [List.cons_append, flattenAll, flattenAll, ih, List.append_assoc]

theorem flattenAll_singleton (x : Item) : flattenAll [x] = x.flatten := List.append_nil _

theorem values_append (xs ys : List Item) : values (xs ++ ys) = values xs ++ values ys := by
  induction xs with
  | nil => rfl
  | cons x xs ih => rw [List.cons_append, values, values, ih, List.cons_append]

end Item

/-- Reads pieces into the list at hand and the lists that are open around it, the items of each
with the last first. -/
def nest : List Piece → List Item → List (List Item) → Option (List Item)
  | [], items, [] => some items.reverse
  | [], _, _ :: _ => none
  | .atom value :: pieces, items, outer => nest pieces (.atom value :: items) outer
  | .opening :: pieces, items, outer => nest pieces [] (items :: outer)
  | .closing :: _, _, [] => none
  | .closing :: pieces, items, around :: outer =>
    nest pieces (.group items.reverse :: around) outer

mutual

theorem nest_flatten : (x : Item) → (pieces : List Piece) → (items : List Item) →
    (outer : List (List Item)) → nest (x.flatten ++ pieces) items outer =
      nest pieces (x :: items) outer
  | .atom _, _, _, _ => rfl
  | .group xs, pieces, items, outer => by
    calc nest ((Item.group xs).flatten ++ pieces) items outer
        = nest (Item.flattenAll xs ++ .closing :: pieces) [] (items :: outer) := by
          simp [Item.flatten, nest]
      _ = nest (.closing :: pieces) (xs.reverse ++ []) (items :: outer) :=
          nest_flattenAll xs (.closing :: pieces) [] (items :: outer)
      _ = nest pieces (.group xs :: items) outer := by
          rw [nest, List.append_nil, List.reverse_reverse]

theorem nest_flattenAll : (xs : List Item) → (pieces : List Piece) → (items : List Item) →
    (outer : List (List Item)) → nest (Item.flattenAll xs ++ pieces) items outer =
      nest pieces (xs.reverse ++ items) outer
  | [], _, _, _ => rfl
  | x :: xs, pieces, items, outer => by
    rw [Item.flattenAll, List.append_assoc, nest_flatten x, nest_flattenAll xs, List.reverse_cons,
      List.append_assoc, List.singleton_append]

end

def written : List Item → List (List Item) → List Piece
  | items, [] => Item.flattenAll items.reverse
  | items, around :: outer => written around outer ++ .opening :: Item.flattenAll items.reverse

theorem written_cons (x : Item) (items : List Item) (outer : List (List Item)) :
    written (x :: items) outer = written items outer ++ x.flatten := by
  cases outer with
  | nil => rw [written, written, List.reverse_cons, Item.flattenAll_append, Item.flattenAll_singleton]
  | cons around outer =>
    rw [written, written, List.reverse_cons, Item.flattenAll_append, Item.flattenAll_singleton,
      List.append_assoc, List.cons_append]

theorem flatten_of_nest {pieces : List Piece} {items xs : List Item} {outer : List (List Item)}
    (read : nest pieces items outer = some xs) :
    Item.flattenAll xs = written items outer ++ pieces := by
  induction pieces generalizing items outer with
  | nil =>
    cases outer with
    | nil =>
      cases read
      exact (List.append_nil _).symm
    | cons around outer => cases read
  | cons piece pieces ih =>
    cases piece with
    | atom value =>
      rw [ih read, written_cons, List.append_assoc]
      rfl
    | opening =>
      rw [ih read, written, List.append_assoc]
      rfl
    | closing =>
      cases outer with
      | nil => cases read
      | cons around outer =>
        rw [ih read, written_cons, written, List.append_assoc, List.append_assoc, Item.flatten]
        simp

theorem flattenAll_injective {xs ys : List Item}
    (same : Item.flattenAll xs = Item.flattenAll ys) : xs = ys := by
  have first := nest_flattenAll xs [] [] []
  have second := nest_flattenAll ys [] [] []
  rw [same, second] at first
  simpa [nest] using first.symm

/-- Inside `depth` open lists: no parenthesis closes more than is open, and all are closed. -/
structure Closes (depth : Nat) (symbols : List String) : Prop where
  prefixes : ∀ u, u <+: symbols → u.count ")" ≤ depth + u.count "("
  whole : symbols.count ")" = depth + symbols.count "("

/-- Only atoms and parentheses, no prefix with more closing than opening parentheses, and as many
of both. -/
structure Balanced (symbols : List String) : Prop where
  known : ∀ symbol ∈ symbols, symbol = "ATOM" ∨ symbol = "(" ∨ symbol = ")"
  prefixes : ∀ u, u <+: symbols → u.count ")" ≤ u.count "("
  whole : symbols.count "(" = symbols.count ")"

theorem closes_nil {depth : Nat} : Closes depth [] ↔ depth = 0 := by
  constructor
  · intro h
    exact h.whole.symm
  · rintro rfl
    refine ⟨fun u before => ?_, rfl⟩
    rw [List.prefix_nil.1 before]
    exact Nat.le_refl 0

theorem closes_cons {depth : Nat} {symbol : String} {symbols : List String} :
    Closes depth (symbol :: symbols) ↔
      (∀ u, u <+: symbols →
        (symbol :: u).count ")" ≤ depth + (symbol :: u).count "(") ∧
      (symbol :: symbols).count ")" = depth + (symbol :: symbols).count "(" := by
  constructor
  · intro h
    exact ⟨fun u before => h.prefixes _ (List.cons_prefix_cons.2 ⟨rfl, before⟩), h.whole⟩
  · rintro ⟨prefixes, whole⟩
    refine ⟨fun u before => ?_, whole⟩
    rcases List.prefix_cons_iff.1 before with rfl | ⟨t, rfl, inner⟩
    · exact Nat.zero_le _
    · exact prefixes t inner

theorem closes_atom {depth : Nat} {symbols : List String} :
    Closes depth ("ATOM" :: symbols) ↔ Closes depth symbols := by
  have skip : ∀ u : List String, ("ATOM" :: u).count ")" = u.count ")" ∧
      ("ATOM" :: u).count "(" = u.count "(" := fun u =>
    ⟨List.count_cons_of_ne (by decide), List.count_cons_of_ne (by decide)⟩
  rw [closes_cons]
  simp only [skip]
  exact ⟨fun h => ⟨h.1, h.2⟩, fun h => ⟨h.prefixes, h.whole⟩⟩

theorem closes_opening {depth : Nat} {symbols : List String} :
    Closes depth ("(" :: symbols) ↔ Closes (depth + 1) symbols := by
  have opens : ∀ u : List String, ("(" :: u).count ")" = u.count ")" ∧
      ("(" :: u).count "(" = u.count "(" + 1 := fun u =>
    ⟨List.count_cons_of_ne (by decide), List.count_cons_self⟩
  rw [closes_cons]
  simp only [opens]
  constructor
  · rintro ⟨prefixes, whole⟩
    refine ⟨fun u before => ?_, by omega⟩
    have bound := prefixes u before
    omega
  · intro h
    refine ⟨fun u before => ?_, ?_⟩
    · have bound := h.prefixes u before
      omega
    · have total := h.whole
      omega

theorem closes_closing {depth : Nat} {symbols : List String} :
    Closes (depth + 1) (")" :: symbols) ↔ Closes depth symbols := by
  have closes : ∀ u : List String, (")" :: u).count ")" = u.count ")" + 1 ∧
      (")" :: u).count "(" = u.count "(" := fun u =>
    ⟨List.count_cons_self, List.count_cons_of_ne (by decide)⟩
  rw [closes_cons]
  simp only [closes]
  constructor
  · rintro ⟨prefixes, whole⟩
    refine ⟨fun u before => ?_, by omega⟩
    have bound := prefixes u before
    omega
  · intro h
    refine ⟨fun u before => ?_, ?_⟩
    · have bound := h.prefixes u before
      omega
    · have total := h.whole
      omega

theorem not_closes_closing {symbols : List String} : ¬ Closes 0 (")" :: symbols) := by
  intro h
  have bound := h.prefixes [")"] (List.cons_prefix_cons.2 ⟨rfl, List.nil_prefix⟩)
  exact absurd bound (by decide)

theorem nest_isSome_iff {pieces : List Piece} {items : List Item} {outer : List (List Item)} :
    (nest pieces items outer).isSome ↔ Closes outer.length (pieces.map Piece.symbol) := by
  -- the lists that are open are as many as the parentheses that are
  induction pieces generalizing items outer with
  | nil =>
    rw [List.map_nil, closes_nil]
    cases outer with
    | nil => exact ⟨fun _ => rfl, fun _ => rfl⟩
    | cons around outer =>
      constructor
      · intro h
        cases h
      · intro h
        cases h
  | cons piece pieces ih =>
    rw [List.map_cons]
    cases piece with
    | atom value => exact ih.trans closes_atom.symm
    | opening => exact ih.trans closes_opening.symm
    | closing =>
      cases outer with
      | nil =>
        constructor
        · intro h
          cases h
        · intro h
          exact absurd h not_closes_closing
      | cons around outer => exact ih.trans closes_closing.symm

def Flattens (xs : List Item) (w : List (Token String SExpression)) : Prop :=
  w.map piece? = (Item.flattenAll xs).map some

theorem symbol_of_piece? {token : Token String SExpression} {piece : Piece}
    (h : piece? token = some piece) : token.symbol = piece.symbol := by
  unfold piece? at h
  split at h
  · next atom =>
    cases h
    exact atom
  · split at h
    · next opening =>
      cases h
      exact opening
    · split at h
      · next closing =>
        cases h
        exact closing
      · cases h

theorem symbols_of_pieces {w : List (Token String SExpression)} {pieces : List Piece}
    (h : w.map piece? = pieces.map some) : w.map Token.symbol = pieces.map Piece.symbol := by
  induction w generalizing pieces with
  | nil =>
    cases pieces with
    | nil => rfl
    | cons piece pieces => cases h
  | cons token w ih =>
    cases pieces with
    | nil => cases h
    | cons piece pieces =>
      obtain ⟨here, later⟩ := List.cons.inj h
      rw [List.map_cons, List.map_cons, symbol_of_piece? here, ih later]

theorem exists_piece {token : Token String SExpression}
    (known : token.symbol = "ATOM" ∨ token.symbol = "(" ∨ token.symbol = ")") :
    ∃ piece, piece? token = some piece := by
  unfold piece?
  rcases known with atom | opening | closing
  · exact ⟨_, if_pos atom⟩
  · rw [opening]
    exact ⟨.opening, rfl⟩
  · rw [closing]
    exact ⟨.closing, rfl⟩

theorem exists_pieces {w : List (Token String SExpression)}
    (known : ∀ token ∈ w, token.symbol = "ATOM" ∨ token.symbol = "(" ∨ token.symbol = ")") :
    ∃ pieces : List Piece, w.map piece? = pieces.map some := by
  induction w with
  | nil => exact ⟨[], rfl⟩
  | cons token w ih =>
    obtain ⟨here, others⟩ := List.forall_mem_cons.1 known
    obtain ⟨piece, first⟩ := exists_piece here
    obtain ⟨pieces, later⟩ := ih others
    refine ⟨piece :: pieces, ?_⟩
    rw [List.map_cons, List.map_cons, first, later]

theorem Piece.symbol_known (piece : Piece) :
    piece.symbol = "ATOM" ∨ piece.symbol = "(" ∨ piece.symbol = ")" := by
  cases piece with
  | atom value => exact .inl rfl
  | opening => exact .inr (.inl rfl)
  | closing => exact .inr (.inr rfl)

theorem balanced_iff_flattens {w : List (Token String SExpression)} :
    Balanced (w.map Token.symbol) ↔ ∃ xs, Flattens xs w := by
  constructor
  · intro h
    obtain ⟨pieces, split⟩ := exists_pieces fun token member =>
      h.known _ (List.mem_map_of_mem member)
    have closes : Closes 0 (pieces.map Piece.symbol) := by
      rw [← symbols_of_pieces split]
      exact ⟨fun u before => by rw [Nat.zero_add]; exact h.prefixes u before,
        by rw [Nat.zero_add]; exact h.whole.symm⟩
    obtain ⟨xs, read⟩ := Option.isSome_iff_exists.1
      ((@nest_isSome_iff pieces [] []).2 closes)
    refine ⟨xs, ?_⟩
    unfold Flattens
    rw [split, flatten_of_nest read]
    rfl
  · rintro ⟨xs, flattens⟩
    have read := nest_flattenAll xs [] [] []
    rw [List.append_nil] at read
    have closes := (@nest_isSome_iff (Item.flattenAll xs) [] []).1 (by rw [read]; rfl)
    rw [symbols_of_pieces flattens]
    refine ⟨?_, fun u before => ?_, ?_⟩
    · intro symbol member
      obtain ⟨piece, _, rfl⟩ := List.mem_map.1 member
      exact piece.symbol_known
    · have bound := closes.prefixes u before
      rwa [List.length_nil, Nat.zero_add] at bound
    · have total := closes.whole
      rw [List.length_nil, Nat.zero_add] at total
      exact total.symm

theorem flattens_unique {xs ys : List Item} {w : List (Token String SExpression)}
    (left : Flattens xs w) (right : Flattens ys w) : xs = ys := by
  unfold Flattens at left right
  rw [left] at right
  exact flattenAll_injective ((List.map_inj_right fun _ _ => Option.some.inj).1 right)

end ShiftReduce.SExpression
