import ShiftReduce.Proofs.Nesting
/-!
Symbolic expressions: the parser accepts exactly the balanced sequences and returns their nesting.
Each derivation tree of a list stands for the forest that its leaves flatten, and each forest has
such a tree.
-/
namespace ShiftReduce.SExpression

def certificate : Certificate String where
  kernel state :=
    [[], [(2, 1)], [(3, 1)], [(4, 1)], [(2, 2)], [(4, 2), (2, 1)], [(4, 3)]].getD state []
  first
    | "List" => [none, some "ATOM", some "("]
    | _ => [some "ATOM", some "("]
  follow state
    | "List" => if state = 0 then ["ATOM", "(", "$eof"] else ["ATOM", "(", ")"]
    | _ => if state = 1 then ["ATOM", "(", "$eof"] else ["ATOM", "(", ")"]
  weight
    | "ATOM" => 2
    | "(" => 2
    | ")" => 1
    | "Item" => 1
    | _ => -1
  bound := 2

theorem certified : parser.Certified certificate endSymbol where
  coherent := by decide +kernel
  complete := by decide +kernel
  weighs :=
    { light := by
        intro symbol
        dsimp only [certificate]
        split <;> decide
      rule := by decide }

def rule (index : Fin 4) : Rule String SExpression := grammar.rules.get index

theorem rule_mem (index : Fin 4) : rule index ∈ grammar.rules := List.get_mem grammar.rules index

structure Phrase (symbol : String) (t : Tree String SExpression) (pieces : List Piece)
    (value : SExpression) : Prop where
  derived : t.Derived grammar
  root : t.symbol = symbol
  leaves : t.leaves.map piece? = pieces.map some
  eval : t.eval = .ok value

namespace Phrase

variable {t u : Tree String SExpression} {pieces others : List Piece} {v : SExpression}
  {vs : List SExpression}

theorem empty : Phrase "List" (.node (rule 0) []) [] (.list []) where
  derived := .node (rule_mem 0) rfl (List.forall_mem_nil _)
  root := rfl
  leaves := rfl
  eval := rfl

theorem snoc (items : Phrase "List" t pieces (.list vs)) (item : Phrase "Item" u others v) :
    Phrase "List" (.node (rule 1) [t, u]) (pieces ++ others) (.list (vs ++ [v])) where
  derived := by
    refine .node (rule_mem 1) ?_
      (List.forall_mem_cons.2 ⟨items.derived, List.forall_mem_singleton.2 item.derived⟩)
    rw [List.map_cons, List.map_singleton, items.root, item.root]
    rfl
  root := rfl
  leaves := by
    rw [Tree.leaves, Tree.leavesAll, Tree.leavesAll_singleton, List.map_append, items.leaves,
      item.leaves, List.map_append]
  eval := by
    have children : Tree.evalAll [t, u] = .ok [.list vs, v] := by
      simp only [Tree.evalAll, items.eval, item.eval]
    exact Tree.eval_node children rfl

theorem atom {token : Token String SExpression} (symbol : token.symbol = "ATOM") :
    Phrase "Item" (.node (rule 2) [.leaf token]) [.atom token.value] token.value where
  derived := by
    refine .one (rule_mem 2) (congrArg (fun x => [x]) symbol) (.leaf ?_)
    rw [symbol]
    decide
  root := rfl
  leaves := congrArg (fun x => [x]) (if_pos symbol)
  eval := rfl

theorem group {opening closing : Token String SExpression} (left : opening.symbol = "(")
    (items : Phrase "List" t pieces v) (right : closing.symbol = ")") :
    Phrase "Item" (.node (rule 3) [.leaf opening, t, .leaf closing])
      (.opening :: pieces ++ [.closing]) v where
  derived := by
    refine .three (rule_mem 3) ?_ (.leaf ?_) items.derived (.leaf ?_)
    · rw [Tree.symbol, Tree.symbol, left, items.root, right]
      rfl
    · rw [left]
      decide
    · rw [right]
      decide
  root := rfl
  leaves := by
    have first : piece? opening = some .opening := by
      unfold piece?
      rw [left]
      rfl
    have last : piece? closing = some .closing := by
      unfold piece?
      rw [right]
      rfl
    simp [Tree.leaves, Tree.leavesAll, items.leaves, first, last]
  eval := by
    have children : Tree.evalAll [.leaf opening, t, .leaf closing] =
        .ok [opening.value, v, closing.value] := by
      simp only [Tree.evalAll, Tree.eval, items.eval]
    exact Tree.eval_node children rfl

end Phrase

def Stands (t : Tree String SExpression) : Prop :=
  (∃ xs, Phrase "List" t (Item.flattenAll xs) (.list (Item.values xs))) ∨
    ∃ x : Item, Phrase "Item" t x.flatten x.value

theorem Stands.items {t : Tree String SExpression} (h : Stands t) (root : t.symbol = "List") :
    ∃ xs, Phrase "List" t (Item.flattenAll xs) (.list (Item.values xs)) := by
  rcases h with items | ⟨x, item⟩
  · exact items
  · rw [item.root] at root
    exact absurd root (by decide)

theorem Stands.item {t : Tree String SExpression} (h : Stands t) (root : t.symbol = "Item") :
    ∃ x : Item, Phrase "Item" t x.flatten x.value := by
  rcases h with ⟨xs, items⟩ | item
  · rw [items.root] at root
    exact absurd root (by decide)
  · exact item

theorem Phrase.append {t u : Tree String SExpression} {xs : List Item} {x : Item}
    (items : Phrase "List" t (Item.flattenAll xs) (.list (Item.values xs)))
    (item : Phrase "Item" u x.flatten x.value) :
    Phrase "List" (.node (rule 1) [t, u]) (Item.flattenAll (xs ++ [x]))
      (.list (Item.values (xs ++ [x]))) := by
  rw [Item.flattenAll_append, Item.flattenAll_singleton, Item.values_append]
  exact items.snoc item

theorem stands_of_derived {t : Tree String SExpression} (derived : t.Derived grammar)
    (inner : ¬ grammar.Terminal t.symbol) : Stands t := by
  induction derived with
  | leaf terminal => exact absurd terminal inner
  | @node r children member spelled derived ih =>
    obtain ⟨index, rfl⟩ : ∃ index, rule index = r := List.mem_iff_get.1 member
    match index with
    | 0 =>
      obtain rfl := List.map_eq_nil_iff.1 spelled
      exact .inl ⟨[], .empty⟩
    | 1 =>
      obtain ⟨a, b, rfl, first, second⟩ := Tree.exists_two spelled
      obtain ⟨xs, items⟩ := (ih a (by simp) (by rw [first]; decide)).items first
      obtain ⟨x, item⟩ := (ih b (by simp) (by rw [second]; decide)).item second
      exact .inl ⟨xs ++ [x], items.append item⟩
    | 2 =>
      obtain ⟨a, rfl, symbol⟩ := List.map_eq_singleton_iff.1 spelled
      obtain ⟨token, rfl⟩ := (derived a (by simp)).leaf_of_terminal (by rw [symbol]; decide)
      exact .inr ⟨.atom token.value, .atom symbol⟩
    | 3 =>
      obtain ⟨a, b, c, rfl, left, middle, right⟩ := Tree.exists_three spelled
      obtain ⟨opening, rfl⟩ := (derived a (by simp)).leaf_of_terminal (by rw [left]; decide)
      obtain ⟨xs, items⟩ := (ih b (by simp) (by rw [middle]; decide)).items middle
      obtain ⟨closing, rfl⟩ := (derived c (by simp)).leaf_of_terminal (by rw [right]; decide)
      exact .inr ⟨.group xs, .group left items right⟩

theorem exists_split {w : List (Token String SExpression)} {ps qs : List Piece}
    (h : w.map piece? = (ps ++ qs).map some) :
    ∃ u v, w = u ++ v ∧ u.map piece? = ps.map some ∧ v.map piece? = qs.map some := by
  rw [List.map_append] at h
  exact List.map_eq_append_iff.1 h

mutual

theorem exists_item_tree : (x : Item) → {w : List (Token String SExpression)} →
    w.map piece? = x.flatten.map some →
    ∃ t, Phrase "Item" t x.flatten x.value ∧ t.leaves = w
  | .atom value, w, flattens => by
    obtain ⟨token, rfl, read⟩ := List.map_eq_singleton_iff.1 flattens
    have symbol := symbol_of_piece? read
    have same : some (Piece.atom token.value) = some (.atom value) := by
      rw [← read]
      exact (if_pos symbol).symm
    obtain rfl := Piece.atom.inj (Option.some.inj same)
    exact ⟨_, .atom symbol, rfl⟩
  | .group xs, w, flattens => by
    -- the list between the parentheses grows from an empty one, as the rules build it
    obtain ⟨_, _, rfl, first, later⟩ :=
      @exists_split w [.opening] (Item.flattenAll xs ++ [.closing]) flattens
    obtain ⟨inside, _, rfl, middle, last⟩ := exists_split later
    obtain ⟨opening, rfl, left⟩ := List.map_eq_singleton_iff.1 first
    obtain ⟨closing, rfl, right⟩ := List.map_eq_singleton_iff.1 last
    obtain ⟨t, items, reads⟩ := @exists_list_tree xs [] _ _ .empty middle
    refine ⟨_, .group (symbol_of_piece? left) items (symbol_of_piece? right), ?_⟩
    rw [Tree.leaves, Tree.leavesAll, Tree.leavesAll, Tree.leavesAll_singleton, reads]
    rfl

theorem exists_list_tree : (ys : List Item) → {xs : List Item} → {t : Tree String SExpression} →
    {w : List (Token String SExpression)} →
    Phrase "List" t (Item.flattenAll xs) (.list (Item.values xs)) →
    w.map piece? = (Item.flattenAll ys).map some →
    ∃ u, Phrase "List" u (Item.flattenAll (xs ++ ys)) (.list (Item.values (xs ++ ys))) ∧
      u.leaves = t.leaves ++ w
  | [], xs, t, w, items, flattens => by
    obtain rfl := List.map_eq_nil_iff.1 flattens
    rw [List.append_nil, List.append_nil]
    exact ⟨t, items, rfl⟩
  | y :: ys, xs, t, w, items, flattens => by
    obtain ⟨first, later, rfl, here, others⟩ := exists_split flattens
    obtain ⟨u, item, read⟩ := exists_item_tree y here
    obtain ⟨v, whole, reads⟩ := exists_list_tree ys (items.append item) others
    refine ⟨v, ?_, ?_⟩
    · rw [List.append_assoc] at whole
      exact whole
    · rw [reads, Tree.leaves, Tree.leavesAll, Tree.leavesAll_singleton, read, List.append_assoc]

end

section Parse

variable {E : Type} {ts : List (Token String SExpression)}

theorem room : (certificate.bound * ts.length : Int) <
    (2 * (ts.map .ok : List (Except E (Token String SExpression))).length + 2 : Nat) +
      certificate.weight grammar.start := by
  have light : certificate.weight grammar.start = -1 := rfl
  have two : certificate.bound = 2 := rfl
  rw [light, two, List.length_map]
  omega

theorem parse_value_iff {v : SExpression} :
    (parse (E := E) parser (ts.map .ok)).outcome = .value v ↔
      (∃ token ∈ ts, token.symbol = endSymbol) ∧
      ∃ xs, Flattens xs (tokensBefore endSymbol ts) ∧ v = .list (Item.values xs) := by
  unfold parse
  rw [certified.run_tokens_iff rfl ts room]
  refine and_congr_right fun _ => ?_
  constructor
  · rintro ⟨t, derived, root, leaves, evaluated⟩
    have start : t.symbol = "List" := root
    obtain ⟨xs, items⟩ := (stands_of_derived derived (by rw [start]; decide)).items start
    refine ⟨xs, ?_, ?_⟩
    · rw [← leaves]
      exact items.leaves
    · rw [items.eval] at evaluated
      exact (Except.ok.inj evaluated).symm
  · rintro ⟨xs, flattens, rfl⟩
    obtain ⟨t, items, leaves⟩ := @exists_list_tree xs [] _ _ .empty flattens
    exact ⟨t, items.derived, items.root, leaves, items.eval⟩

/-- The parser accepts exactly the balanced sequences before the end symbol and returns the list of
the only forest that they flatten. -/
theorem parse_returns_nesting (ts : List (Token String SExpression)) :
    (∀ v, (parse (E := E) parser (ts.map .ok)).outcome = .value v ↔
      (∃ token ∈ ts, token.symbol = endSymbol) ∧
      Balanced ((tokensBefore endSymbol ts).map Token.symbol) ∧
      ∃ xs, Flattens xs (tokensBefore endSymbol ts) ∧ v = .list (Item.values xs)) ∧
    (Balanced ((tokensBefore endSymbol ts).map Token.symbol) →
      ∃ xs, Flattens xs (tokensBefore endSymbol ts) ∧
        ∀ ys, Flattens ys (tokensBefore endSymbol ts) → ys = xs) := by
  refine ⟨fun v => ?_, fun balanced => ?_⟩
  · rw [parse_value_iff]
    refine and_congr_right fun _ => ⟨fun h => ?_, fun h => h.2⟩
    obtain ⟨xs, flattens, value⟩ := h
    exact ⟨balanced_iff_flattens.2 ⟨xs, flattens⟩, xs, flattens, value⟩
  · obtain ⟨xs, flattens⟩ := balanced_iff_flattens.1 balanced
    exact ⟨xs, flattens, fun ys other => flattens_unique other flattens⟩

end Parse

end ShiftReduce.SExpression
