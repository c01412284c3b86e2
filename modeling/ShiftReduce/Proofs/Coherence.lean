import ShiftReduce.Proofs.Forest
/-!
Tables that agree with their grammar. A table is coherent if every state can be given open items,
rules with a number of components that stand on top of the stack, such that each shift and each
goto advances them, a reduction finds its rule complete, and an acceptance finds the start symbol
alone. Coherence is a finite check. A coherent parser builds derivation trees only.
-/
namespace ShiftReduce

variable {S V E : Type}

namespace OrderedMap

theorem mem_of_get? [DecidableEq S] {m : OrderedMap S V} {k : S} {v : V} (h : m.get? k = some v) :
    (k, v) ∈ m.entries := by
  revert h
  unfold get?
  induction m.entries with
  | nil =>
    intro h
    cases h
  | cons e es ih =>
    intro h
    unfold find? at h
    split at h
    · next same =>
      cases h
      rw [← same]
      exact List.mem_cons_self
    · exact List.mem_cons_of_mem e (ih h)

end OrderedMap

namespace Table

/-- A shift or a goto leads from a state to another by a symbol. -/
structure Edge (S : Type) where
  source : Nat
  symbol : S
  target : Nat

def actionEntries (t : Table S) : List (Nat × S × Action) :=
  t.rows.entries.flatMap fun (state, row) =>
    row.actions.entries.map fun (symbol, action) => (state, symbol, action)

def gotoEdges (t : Table S) : List (Edge S) :=
  t.rows.entries.flatMap fun (state, row) =>
    row.gotos.entries.map fun (symbol, next) => ⟨state, symbol, next⟩

def shiftEdges (t : Table S) : List (Edge S) :=
  t.actionEntries.filterMap fun (state, symbol, action) =>
    match action with
    | .shift next => some ⟨state, symbol, next⟩
    | _ => none

def edges (t : Table S) : List (Edge S) := t.shiftEdges ++ t.gotoEdges

section Lookup

variable [DecidableEq S] {t : Table S} {state : Nat} {symbol : S}

theorem mem_actionEntries {action : Action} (h : t.action? state symbol = some action) :
    (state, symbol, action) ∈ t.actionEntries := by
  obtain ⟨row, found, entry⟩ := Option.bind_eq_some_iff.1 h
  refine List.mem_flatMap.2 ⟨_, OrderedMap.mem_of_get? found, ?_⟩
  exact List.mem_map.2 ⟨_, OrderedMap.mem_of_get? entry, rfl⟩

theorem mem_gotoEdges {next : Nat} (h : t.goto? state symbol = some next) :
    ⟨state, symbol, next⟩ ∈ t.gotoEdges := by
  obtain ⟨row, found, entry⟩ := Option.bind_eq_some_iff.1 h
  refine List.mem_flatMap.2 ⟨_, OrderedMap.mem_of_get? found, ?_⟩
  exact List.mem_map.2 ⟨_, OrderedMap.mem_of_get? entry, rfl⟩

theorem goto_mem_edges {next : Nat} (h : t.goto? state symbol = some next) :
    ⟨state, symbol, next⟩ ∈ t.edges := List.mem_append_right _ (mem_gotoEdges h)

theorem shift_mem_edges {next : Nat} (h : t.action? state symbol = some (.shift next)) :
    ⟨state, symbol, next⟩ ∈ t.edges :=
  List.mem_append_left _ (List.mem_filterMap.2 ⟨_, mem_actionEntries h, rfl⟩)

end Lookup

/-- The states on a stack, its top first, and the symbols between them. -/
inductive Path (t : Table S) : List Nat → List S → Prop where
  | root : Path t [0] []
  | edge {states : List Nat} {symbols : List S} {symbol : S} {next : Nat}
      (below : Path t states symbols) (member : ⟨states.headD 0, symbol, next⟩ ∈ t.edges) :
      Path t (next :: states) (symbol :: symbols)

theorem Path.drop {t : Table S} {states : List Nat} {symbols : List S} (h : t.Path states symbols)
    {count : Nat} (enough : count ≤ symbols.length) :
    t.Path (states.drop count) (symbols.drop count) := by
  induction h generalizing count with
  | root =>
    cases count with
    | zero => exact .root
    | succ count => cases enough
  | edge below member ih =>
    cases count with
    | zero => exact .edge below member
    | succ count => exact ih (Nat.le_of_succ_le_succ enough)

end Table

namespace Parser

variable [DecidableEq S]

/-- Below the first `dot` components of the rule on the stack, its left-hand side has a goto. -/
structure Item (p : Parser S V) (rule : Rule S V) (dot : Nat) (states : List Nat)
    (symbols : List S) : Prop where
  count : dot ≤ symbols.length
  spelled : (symbols.take dot).reverse = rule.components.take dot
  target : (p.table.goto? ((states.drop dot).headD 0) rule.name).isSome

/-- A state has an item open if it is in its kernel, or if no component stands before its dot and
the left-hand side has a goto. -/
def Opens (p : Parser S V) (kernel : Nat → List (Nat × Nat)) (state : Nat) (rule : Rule S V)
    (dot : Nat) : Prop :=
  (rule.id, dot) ∈ kernel state ∨ dot = 0 ∧ (p.table.goto? state rule.name).isSome

instance (p : Parser S V) (kernel : Nat → List (Nat × Nat)) (state : Nat) (rule : Rule S V)
    (dot : Nat) : Decidable (p.Opens kernel state rule dot) :=
  inferInstanceAs (Decidable (_ ∨ _))

def Advances (p : Parser S V) (kernel : Nat → List (Nat × Nat)) (e : Table.Edge S)
    (item : Nat × Nat) : Prop :=
  0 < item.2 ∧ ∃ rule ∈ p.grammar.rule? item.1,
    rule.components[item.2 - 1]? = some e.symbol ∧ p.Opens kernel e.source rule (item.2 - 1)

instance (p : Parser S V) (kernel : Nat → List (Nat × Nat)) (e : Table.Edge S)
    (item : Nat × Nat) : Decidable (p.Advances kernel e item) :=
  inferInstanceAs (Decidable (_ ∧ _))

/-- Only the symbol `ending` is accepted, on the start symbol alone, and it is never shifted. -/
def Allows (p : Parser S V) (kernel : Nat → List (Nat × Nat)) (ending : S) (state : Nat)
    (symbol : S) : Action → Prop
  | .shift _ => p.grammar.Terminal symbol ∧ symbol ≠ ending
  | .reduce id => ∃ rule ∈ p.grammar.rule? id, p.Opens kernel state rule rule.arity
  | .accept => symbol = ending ∧ state ≠ 0 ∧
    ∀ e ∈ p.table.edges, e.target = state → e.source = 0 ∧ e.symbol = p.grammar.start

instance (p : Parser S V) (kernel : Nat → List (Nat × Nat)) (ending : S) (state : Nat)
    (symbol : S) : (action : Action) → Decidable (p.Allows kernel ending state symbol action)
  | .shift _ => inferInstanceAs (Decidable (_ ∧ _))
  | .reduce id => inferInstanceAs (Decidable (∃ rule ∈ p.grammar.rule? id, _))
  | .accept => inferInstanceAs (Decidable (_ ∧ _ ∧ _))

structure Coherent (p : Parser S V) (kernel : Nat → List (Nat × Nat)) (ending : S) : Prop where
  root : kernel 0 = []
  edge : ∀ e ∈ p.table.edges, e.target ≠ 0 ∧ ∀ item ∈ kernel e.target, p.Advances kernel e item
  action : ∀ e ∈ p.table.actionEntries, p.Allows kernel ending e.1 e.2.1 e.2.2

instance (p : Parser S V) (kernel : Nat → List (Nat × Nat)) (ending : S) :
    Decidable (p.Coherent kernel ending) :=
  decidable_of_iff (kernel 0 = [] ∧
      (∀ e ∈ p.table.edges, e.target ≠ 0 ∧ ∀ item ∈ kernel e.target, p.Advances kernel e item) ∧
      ∀ e ∈ p.table.actionEntries, p.Allows kernel ending e.1 e.2.1 e.2.2)
    ⟨fun ⟨root, edge, action⟩ => ⟨root, edge, action⟩, fun h => ⟨h.root, h.edge, h.action⟩⟩

namespace Coherent

variable {p : Parser S V} {kernel : Nat → List (Nat × Nat)} {ending : S}
  {states : List Nat} {symbols : List S}

theorem item (coherent : p.Coherent kernel ending) {rule : Rule S V} {id dot : Nat}
    (found : p.grammar.rule? id = some rule) (path : p.table.Path states symbols)
    (opens : p.Opens kernel (states.headD 0) rule dot) : p.Item rule dot states symbols := by
  have named := Grammar.id_of_rule? found
  -- the edge on top of the path takes back the last component before the dot
  induction dot generalizing states symbols with
  | zero =>
    rcases opens with member | ⟨_, target⟩
    · cases path with
      | root =>
        rw [List.headD_cons, coherent.root] at member
        cases member
      | edge below edge =>
        have advances := (coherent.edge _ edge).2 _ member
        exact absurd advances.1 (Nat.lt_irrefl 0)
    · exact ⟨Nat.zero_le _, rfl, target⟩
  | succ dot ih =>
    rcases opens with member | ⟨none, _⟩
    · cases path with
      | root =>
        rw [List.headD_cons, coherent.root] at member
        cases member
      | @edge states symbols symbol next below edge =>
        obtain ⟨_, rule', found', component, opens⟩ := (coherent.edge _ edge).2 _ member
        rw [named] at found'
        obtain rfl := Option.some.inj (found.symm.trans found')
        have inner := ih below opens
        have next : rule.components[dot]? = some symbol := component
        refine ⟨Nat.succ_le_succ inner.count, ?_, inner.target⟩
        rw [List.take_succ_cons, List.reverse_cons, inner.spelled, List.take_add_one, next]
        rfl
    · cases none

theorem accepted (coherent : p.Coherent kernel ending) (path : p.table.Path states symbols)
    {symbol : S} (entry : p.table.action? (states.headD 0) symbol = some .accept) :
    symbol = ending ∧ symbols = [p.grammar.start] := by
  obtain ⟨last, other, alone⟩ := coherent.action _ (Table.mem_actionEntries entry)
  refine ⟨last, ?_⟩
  cases path with
  | root => exact absurd rfl other
  | edge below edge =>
    obtain ⟨source, rfl⟩ := alone _ edge rfl
    cases below with
    | root => rfl
    | edge _ inner => exact absurd source (coherent.edge _ inner).1

end Coherent

namespace Grown

variable {p : Parser S V} {kernel : Nat → List (Nat × Nat)} {ending : S}
  {items : List (Except E (Token S V))} {c : Config S V E} {ss : List Step}
  {forest : List (Tree S V)}

theorem path (h : p.Grown items c ss forest) :
    p.table.Path c.stack.states (forest.map Tree.symbol) := by
  induction h with
  | start => exact .root
  | shift before entry ih => exact .edge ih (Table.shift_mem_edges entry)
  | @reduce _ _ _ forest _ _ _ rule _ before _ _ _ enough _ target ih =>
    rw [List.map_cons, List.map_drop]
    refine .edge (ih.drop ?_) (Table.goto_mem_edges target)
    rw [List.length_map, before.length_eq]
    exact enough

theorem derived (h : p.Grown items c ss forest) (coherent : p.Coherent kernel ending) :
    ∀ t ∈ forest, t.Derived p.grammar := by
  induction h with
  | start => exact List.forall_mem_nil _
  | shift before entry ih =>
    have allowed := coherent.action _ (Table.mem_actionEntries entry)
    exact List.forall_mem_cons.2 ⟨.leaf allowed.1, ih⟩
  | @reduce _ _ _ forest _ _ _ rule _ before _ entry found enough _ _ ih =>
    obtain ⟨rule', found', opens⟩ := coherent.action _ (Table.mem_actionEntries entry)
    obtain rfl := Option.some.inj (found.symm.trans found')
    have item := coherent.item found before.path opens
    have spelled : ((forest.take rule.arity).reverse).map Tree.symbol = rule.components := by
      rw [List.map_reverse, List.map_take, item.spelled]
      exact List.take_length
    have children : ∀ t ∈ (forest.take rule.arity).reverse, t.Derived p.grammar :=
      fun t member => ih t (List.mem_of_mem_take (List.mem_reverse.1 member))
    refine List.forall_mem_cons.2
      ⟨.node (Grammar.mem_of_rule? found) spelled children, fun t member => ?_⟩
    exact ih t (List.mem_of_mem_drop member)

theorem leaves_ne_ending (h : p.Grown items c ss forest) (coherent : p.Coherent kernel ending) :
    ∀ token ∈ Tree.leavesAll forest.reverse, token.symbol ≠ ending := by
  induction h with
  | start => exact List.forall_mem_nil _
  | shift before entry ih =>
    have allowed := coherent.action _ (Table.mem_actionEntries entry)
    intro token member
    rw [List.reverse_cons, Tree.leavesAll_append, Tree.leavesAll_singleton] at member
    rcases List.mem_append.1 member with earlier | last
    · exact ih token earlier
    · rw [List.mem_singleton.1 last]
      exact allowed.2
  | reduce before _ _ _ _ _ _ ih =>
    rw [List.reverse_cons, Tree.leavesAll_append, Tree.leavesAll_singleton, Tree.leaves,
      ← Tree.leavesAll_append, ← List.reverse_append, List.take_append_drop]
    exact ih

end Grown

/-- A coherent parser that yields a value has read a derivation tree of the start symbol, up to the
end of the input. -/
theorem Coherent.derivation_of_halts {p : Parser S V} {kernel : Nat → List (Nat × Nat)}
    {ending : S} {items : List (Except E (Token S V))} {ss : List Step} {v : V}
    (coherent : p.Coherent kernel ending) (h : p.Halts (.initial items) ss (.value v)) :
    ∃ (tree : Tree S V) (rest : List (Except E (Token S V))),
      items = tree.leaves.map .ok ++ rest ∧ tree.Derived p.grammar ∧
      tree.symbol = p.grammar.start ∧ tree.eval = .ok v ∧
      (∀ token ∈ tree.leaves, token.symbol ≠ ending) ∧ p.lookahead? rest = some ending := by
  obtain ⟨stack, rest, symbol, _, tree, grown, evaluated, look, entry, _⟩ := value_of_halts h
  obtain ⟨rfl, root⟩ := coherent.accepted grown.path entry
  have consumed := grown.consumed
  have proper := grown.leaves_ne_ending coherent
  rw [List.reverse_singleton, Tree.leavesAll_singleton] at consumed proper
  exact ⟨tree, rest, consumed, grown.derived coherent tree List.mem_cons_self,
    (List.cons.inj root).1, evaluated, proper, look⟩

end Parser

end ShiftReduce
