import ShiftReduce.Proofs.Pulled
import ShiftReduce.Proofs.Totality
/-!
Errors at the earliest token. A list of symbols is viable if it begins some sentence followed by
the end symbol. What a coherent parser has shifted is viable as long as the trees on its stack can
be completed to a tree of the start symbol, and what a complete parser refuses is not, as it would
have been read otherwise: the machine depends on the symbols only, and on no token beyond the
lookahead.
-/
namespace ShiftReduce

variable {S V E : Type}

namespace Grammar

def Sentence (g : Grammar S V) (w : List S) : Prop :=
  ∃ t : Tree S V, t.Derived g ∧ t.symbol = g.start ∧ t.leaves.map Token.symbol = w

/-- Some sentence and the end symbol after it begin like this. -/
def Viable (g : Grammar S V) (ending : S) (u : List S) : Prop :=
  ∃ w, g.Sentence w ∧ u <+: w ++ [ending]

/-- The tokens before this place can be continued, up to the end symbol and not with the one at
this place. -/
structure Breaks (g : Grammar S V) (ending : S) (w : List S) (place : Nat) : Prop where
  inside : place < w.length
  viable : g.Viable ending (w.take place)
  proper : ending ∉ w.take place
  broken : ¬ g.Viable ending (w.take (place + 1))

variable {g : Grammar S V} {ending : S} {u v : List S}

theorem Viable.of_prefix (h : g.Viable ending v) (shorter : u <+: v) : g.Viable ending u := by
  obtain ⟨w, sentence, begins⟩ := h
  exact ⟨w, sentence, shorter.trans begins⟩

theorem Sentence.viable (h : g.Sentence u) : g.Viable ending (u ++ [ending]) :=
  ⟨u, h, List.prefix_rfl⟩

theorem Breaks.not_viable {w : List S} {place : Nat} (h : g.Breaks ending w place) :
    ¬ g.Viable ending w := by
  intro whole
  exact h.broken (whole.of_prefix (List.take_prefix _ _))

theorem Breaks.of_split {a : S} {rest : List S} (viable : g.Viable ending u) (proper : ending ∉ u)
    (broken : ¬ g.Viable ending (u ++ [a])) : g.Breaks ending (u ++ a :: rest) u.length where
  inside := by simp
  viable := by
    rw [List.take_left]
    exact viable
  proper := by
    rw [List.take_left]
    exact proper
  broken := by
    rw [List.take_length_add_append, List.take_succ_cons, List.take_zero]
    exact broken

theorem Sentence.not_breaks (h : g.Sentence u) {rest : List S}
    (after : ∀ symbol ∈ rest.head?, symbol = ending) {place : Nat} :
    ¬ g.Breaks ending (u ++ rest) place := by
  intro breaks
  have inside := breaks.inside
  rw [List.length_append] at inside
  have before : place ≤ u.length := by
    by_contra beyond
    cases rest with
    | nil =>
      rw [List.length_nil] at inside
      omega
    | cons symbol rest =>
      obtain rfl := after symbol rfl
      apply breaks.proper
      rw [List.take_append]
      apply List.mem_append_right
      obtain ⟨n, more⟩ : ∃ n, place - u.length = n + 1 := ⟨place - u.length - 1, by omega⟩
      rw [more, List.take_succ_cons]
      exact List.mem_cons_self
  have whole : g.Viable ending (u ++ [ending]) := h.viable
  apply breaks.broken
  apply whole.of_prefix
  cases rest with
  | nil =>
    rw [List.append_nil]
    exact (List.take_prefix _ _).trans (List.prefix_append _ _)
  | cons symbol rest =>
    obtain rfl := after symbol rfl
    have longer : place + 1 ≤ (u ++ [symbol]).length := by
      rw [List.length_append, List.length_singleton]
      omega
    rw [← List.singleton_append, ← List.append_assoc, List.take_append_of_le_length longer]
    exact List.take_prefix _ _

theorem Breaks.unique {w : List S} {a b : Nat} (first : g.Breaks ending w a)
    (second : g.Breaks ending w b) : a = b := by
  have ordered {a b : Nat} (first : g.Breaks ending w a) (second : g.Breaks ending w b) :
      ¬ a < b := by
    intro less
    apply first.broken
    exact second.viable.of_prefix (List.take_prefix_take_left (Nat.succ_le_of_lt less))
  have left := ordered first second
  have right := ordered second first
  omega

end Grammar

namespace Tree

variable {g : Grammar S V}

theorem split_leaves {ts : List (Tree S V)} {ws : List (Token S V)}
    (same : ws.map Token.symbol = (leavesAll ts).map Token.symbol)
    (each : ∀ t ∈ ts, ∀ ws : List (Token S V), ws.map Token.symbol = t.leaves.map Token.symbol →
      ∃ u : Tree S V, u.Derived g ∧ u.symbol = t.symbol ∧ u.leaves = ws) :
    ∃ us : List (Tree S V), (∀ u ∈ us, u.Derived g) ∧ us.map symbol = ts.map symbol ∧
      leavesAll us = ws := by
  induction ts generalizing ws with
  | nil =>
    obtain rfl := List.map_eq_nil_iff.1 same
    exact ⟨[], List.forall_mem_nil _, rfl, rfl⟩
  | cons t ts ih =>
    obtain ⟨here, later⟩ := List.forall_mem_cons.1 each
    rw [leavesAll, List.map_append] at same
    obtain ⟨first, second, rfl, left, right⟩ := List.map_eq_append_iff.1 same
    obtain ⟨u, derived, root, leaves⟩ := here first left
    obtain ⟨us, deriveds, roots, rest⟩ := ih right later
    refine ⟨u :: us, List.forall_mem_cons.2 ⟨derived, deriveds⟩, ?_, ?_⟩
    · rw [List.map_cons, List.map_cons, root, roots]
    · rw [leavesAll, leaves, rest]

theorem Derived.relabel {t : Tree S V} (derived : t.Derived g) {ws : List (Token S V)}
    (same : ws.map Token.symbol = t.leaves.map Token.symbol) :
    ∃ u : Tree S V, u.Derived g ∧ u.symbol = t.symbol ∧ u.leaves = ws := by
  induction derived generalizing ws with
  | @leaf token terminal =>
    obtain ⟨other, rfl, named⟩ := List.map_eq_singleton_iff.1 same
    refine ⟨.leaf other, .leaf ?_, named, rfl⟩
    rw [named]
    exact terminal
  | @node rule children member spelled _ ih =>
    have each := fun t inside ws same => @ih t inside ws same
    obtain ⟨us, derived, roots, leaves⟩ := split_leaves same each
    exact ⟨.node rule us, .node member (roots.trans spelled) derived, rfl, leaves⟩

end Tree

theorem Grammar.Viable.exists_tree {g : Grammar S V} {ending a : S} {u : List (Token S V)}
    (h : g.Viable ending (u.map Token.symbol ++ [a])) :
    ∃ (t : Tree S V) (more : List (Token S V)), t.Derived g ∧ t.symbol = g.start ∧
      t.leaves = u ++ more ∧ (more.map Token.symbol ++ [ending]).head? = some a := by
  obtain ⟨w, ⟨t, derived, root, rfl⟩, ends, begins⟩ := h
  have short : u.length ≤ t.leaves.length := by
    have lengths := congrArg List.length begins
    simp only [List.length_append, List.length_map, List.length_singleton] at lengths
    omega
  have split : u.map Token.symbol ++ ([a] ++ ends) =
      (t.leaves.take u.length).map Token.symbol ++
        ((t.leaves.drop u.length).map Token.symbol ++ [ending]) := by
    rw [← List.append_assoc, begins, ← List.append_assoc, ← List.map_append,
      List.take_append_drop]
  have even : (u.map Token.symbol).length = ((t.leaves.take u.length).map Token.symbol).length := by
    rw [List.length_map, List.length_map, List.length_take]
    omega
  obtain ⟨before, after⟩ := List.append_inj split even
  have same : (u ++ t.leaves.drop u.length).map Token.symbol = t.leaves.map Token.symbol := by
    rw [List.map_append, before, ← List.map_append, List.take_append_drop]
  obtain ⟨v, vDerived, vRoot, leaves⟩ := derived.relabel same
  refine ⟨v, _, vDerived, vRoot.trans root, leaves, ?_⟩
  rw [← after]
  rfl

namespace Parser

variable [DecidableEq S] {p : Parser S V} {kernel : Nat → List (Nat × Nat)} {ending : S}

/-- An open item of the state whose rule stands for less than its components before the dot. -/
def Exits (p : Parser S V) (kernel : Nat → List (Nat × Nat)) (rank : S → Nat) (state : Nat) :
    Prop :=
  ∃ item ∈ (kernel state).head?, ∃ rule ∈ p.grammar.rule? item.1,
    rank rule.name < ((rule.components.take item.2).map rank).sum

instance (p : Parser S V) (kernel : Nat → List (Nat × Nat)) (rank : S → Nat) (state : Nat) :
    Decidable (p.Exits kernel rank state) :=
  inferInstanceAs (Decidable (∃ item ∈ (kernel state).head?, ∃ rule ∈ p.grammar.rule? item.1, _))

/-- Every symbol has a derivation tree, and every state either accepts or has an exit. -/
structure Completable (p : Parser S V) (kernel : Nat → List (Nat × Nat)) (ending : S)
    (rank : S → Nat) : Prop where
  productive : ∀ symbol, ∃ t : Tree S V, t.Derived p.grammar ∧ t.symbol = symbol
  exit : ∀ e ∈ p.table.edges,
    p.table.action? e.target ending = some .accept ∨ p.Exits kernel rank e.target

omit [DecidableEq S] in
theorem productive_of_rules (value : V)
    (rules : ∀ rule ∈ p.grammar.rules, ∃ t : Tree S V, t.Derived p.grammar ∧ t.symbol = rule.name)
    (symbol : S) : ∃ t : Tree S V, t.Derived p.grammar ∧ t.symbol = symbol := by
  by_cases inner : symbol ∈ p.grammar.rules.map (·.name)
  · obtain ⟨rule, member, rfl⟩ := List.mem_map.1 inner
    exact rules rule member
  · exact ⟨.leaf ⟨symbol, value, none⟩, .leaf inner, rfl⟩

theorem Completable.of_mem_modes {rank : S → Nat} (h : p.Completable kernel ending rank)
    {q : Parser S V} (member : q ∈ p.modes ending) : q.Completable kernel ending rank := by
  obtain ⟨_, _, rfl⟩ := setEnd_of_mem_modes member
  exact ⟨h.productive, h.exit⟩

omit [DecidableEq S] in
theorem exists_trees
    (productive : ∀ symbol, ∃ t : Tree S V, t.Derived p.grammar ∧ t.symbol = symbol)
    (symbols : List S) :
    ∃ ts : List (Tree S V), (∀ t ∈ ts, t.Derived p.grammar) ∧ ts.map Tree.symbol = symbols := by
  induction symbols with
  | nil => exact ⟨[], List.forall_mem_nil _, rfl⟩
  | cons symbol symbols ih =>
    obtain ⟨t, derived, root⟩ := productive symbol
    obtain ⟨ts, deriveds, roots⟩ := ih
    refine ⟨t :: ts, List.forall_mem_cons.2 ⟨derived, deriveds⟩, ?_⟩
    rw [List.map_cons, root, roots]

theorem Item.complete {rule : Rule S V} {dot : Nat} {states : List Nat} {forest : List (Tree S V)}
    (item : p.Item rule dot states (forest.map Tree.symbol)) (member : rule ∈ p.grammar.rules)
    (path : p.table.Path states (forest.map Tree.symbol))
    (derived : ∀ t ∈ forest, t.Derived p.grammar)
    (productive : ∀ symbol, ∃ t : Tree S V, t.Derived p.grammar ∧ t.symbol = symbol) :
    ∃ (t : Tree S V) (next : Nat) (more : List (Token S V)), t.Derived p.grammar ∧
      t.symbol = rule.name ∧
      p.table.Path (next :: states.drop dot) ((t :: forest.drop dot).map Tree.symbol) ∧
      Tree.leavesAll (t :: forest.drop dot).reverse = Tree.leavesAll forest.reverse ++ more := by
  obtain ⟨extra, extras, roots⟩ := exists_trees productive (rule.components.drop dot)
  obtain ⟨next, target⟩ := Option.isSome_iff_exists.1 item.target
  have spelled : ((forest.take dot).reverse ++ extra).map Tree.symbol = rule.components := by
    rw [List.map_append, List.map_reverse, List.map_take, item.spelled, roots,
      List.take_append_drop]
  refine ⟨.node rule ((forest.take dot).reverse ++ extra), next, Tree.leavesAll extra, ?_, rfl, ?_,
    ?_⟩
  · refine .node member spelled ?_
    intro t inside
    rcases List.mem_append.1 inside with before | after
    · exact derived t (List.mem_of_mem_take (List.mem_reverse.1 before))
    · exact extras t after
  · rw [List.map_cons, List.map_drop]
    exact .edge (path.drop item.count) (Table.goto_mem_edges target)
  · rw [List.reverse_cons, Tree.leavesAll_append, Tree.leavesAll_singleton, Tree.leaves,
      Tree.leavesAll_append, ← List.append_assoc, ← Tree.leavesAll_append, ← List.reverse_append,
      List.take_append_drop]

theorem Item.rank_lt {rule : Rule S V} {dot : Nat} {states : List Nat} {symbols : List S}
    (item : p.Item rule dot states symbols) {rank : S → Nat}
    (lower : rank rule.name < ((rule.components.take dot).map rank).sum) :
    rank rule.name + ((symbols.drop dot).map rank).sum < (symbols.map rank).sum := by
  have taken : ((symbols.take dot).map rank).sum = ((rule.components.take dot).map rank).sum := by
    rw [← item.spelled, List.map_reverse, List.sum_reverse]
  have split := congrArg (fun symbols => (symbols.map rank).sum) (List.take_append_drop dot symbols)
  simp only [List.map_append, List.sum_append] at split
  omega

theorem Completable.exists_tree {rank : S → Nat} (complete : p.Completable kernel ending rank)
    (coherent : p.Coherent kernel ending) {states : List Nat} {forest : List (Tree S V)}
    (path : p.table.Path states (forest.map Tree.symbol))
    (derived : ∀ t ∈ forest, t.Derived p.grammar) :
    ∃ (t : Tree S V) (more : List (Token S V)), t.Derived p.grammar ∧
      t.symbol = p.grammar.start ∧ t.leaves = Tree.leavesAll forest.reverse ++ more := by
  -- induction on the rank of the stack
  induction size : ((forest.map Tree.symbol).map rank).sum using Nat.strongRecOn
    generalizing states forest with
  | ind total ih =>
    cases forest with
    | nil =>
      obtain ⟨t, whole, root⟩ := complete.productive p.grammar.start
      exact ⟨t, t.leaves, whole, root, rfl⟩
    | cons top below =>
      obtain ⟨state, others, rfl, edge⟩ : ∃ state others, states = state :: others ∧
          ⟨others.headD 0, top.symbol, state⟩ ∈ p.table.edges := by
        cases path with
        | edge _ member => exact ⟨_, _, rfl, member⟩
      rcases complete.exit _ edge with accepts | ⟨item, first, rule, found, lower⟩
      · have alone := (coherent.accepted path accepts).2
        obtain ⟨root, none⟩ := List.cons.inj alone
        obtain rfl := List.map_eq_nil_iff.1 none
        refine ⟨top, [], derived top List.mem_cons_self, root, ?_⟩
        rw [List.append_nil, List.reverse_singleton, Tree.leavesAll_singleton]
      · have opens : p.Opens kernel state rule item.2 := by
          refine .inl ?_
          rw [Grammar.id_of_rule? found]
          exact List.mem_of_mem_head? first
        have stands := coherent.item found path opens
        obtain ⟨t, next, more, whole, root, longer, leaves⟩ :=
          stands.complete (Grammar.mem_of_rule? found) path derived complete.productive
        have smaller : (((t :: (top :: below).drop item.2).map Tree.symbol).map rank).sum <
            total := by
          rw [List.map_cons, List.map_cons, List.sum_cons, root, List.map_drop, ← size]
          exact stands.rank_lt lower
        have deriveds : ∀ u ∈ t :: (top :: below).drop item.2, u.Derived p.grammar := by
          refine List.forall_mem_cons.2 ⟨whole, ?_⟩
          intro u inside
          exact derived u (List.mem_of_mem_drop inside)
        obtain ⟨tree, rest, treeDerived, start, reads⟩ := ih _ smaller longer deriveds rfl
        refine ⟨tree, more ++ rest, treeDerived, start, ?_⟩
        rw [reads, leaves, List.append_assoc]

section Refusal

omit [DecidableEq S] in
theorem rule?_reified (g : Grammar S V) (id : Nat) :
    g.reified.rule? id = (g.rule? id).map Rule.reified := by
  unfold Grammar.rule?
  by_cases zero : id = 0
  · rw [if_pos zero, if_pos zero]
    rfl
  · rw [if_neg zero, if_neg zero]
    exact List.getElem?_map

theorem reduction_reified {states : List Nat} {forest : List (Tree S V)} {id next : Nat}
    {rule : Rule S V} (found : p.grammar.rule? id = some rule)
    (enough : rule.arity ≤ forest.length)
    (target : p.table.goto? ((states.drop rule.arity).headD 0) rule.name = some next) :
    p.reified.reduction ⟨states, forest⟩ id = .ok ⟨next :: states.drop rule.arity,
      .node rule (forest.take rule.arity).reverse :: forest.drop rule.arity⟩ := by
  have named : p.reified.grammar.rule? id = some rule.reified := by
    rw [Parser.reified, rule?_reified, found]
    rfl
  have arity : rule.reified.arity = rule.arity := rfl
  have target' : p.reified.table.goto?
      ((⟨states, forest⟩ : Stack (Tree S V)).pop rule.arity).current rule.reified.name =
        some next := target
  simp only [reduction, named, arity, Nat.not_lt.2 enough, if_false, target']
  rfl

variable {items : List (Except E (Token S V))} {c : Config S V E} {ss : List Step}
  {forest : List (Tree S V)} {first : S → List (Option S)} {follow : Nat → S → List S}

/-- The parser that builds trees comes to the same states on the tokens that were shifted, whatever
follows them, as long as it begins with the lookahead. -/
theorem Grown.reified (h : p.Grown items c ss forest)
    {rest : List (Except E (Token S (Tree S V)))}
    (look : p.reified.lookahead? rest = p.lookahead? c.rest) :
    ∃ us, p.reified.Steps
      (.initial (((Tree.leavesAll forest.reverse).map Token.reified).map .ok ++ rest)) us
      ⟨⟨c.stack.states, forest⟩, rest⟩ := by
  induction h generalizing rest with
  | start => exact ⟨[], .refl _⟩
  | @shift stack token _ ss forest next before entry ih =>
    have ahead : p.reified.lookahead? (.ok token.reified :: rest) = some token.symbol := rfl
    obtain ⟨us, steps⟩ := ih ahead
    have last : p.reified.move ⟨⟨stack.states, forest⟩, .ok token.reified :: rest⟩ = _ :=
      move_of_shift ahead entry
    have longer := steps.trans (.single last)
    rw [List.reverse_cons, Tree.leavesAll_append, Tree.leavesAll_singleton, List.map_append,
      List.map_append, List.append_assoc]
    exact ⟨_, longer⟩
  | @reduce stack _ ss forest symbol id next rule value before ahead entry found enough combined
      target ih =>
    obtain ⟨us, steps⟩ := ih look
    rw [← before.length_eq] at enough
    have last : p.reified.move ⟨⟨stack.states, forest⟩, rest⟩ = _ :=
      move_of_reduce (look.trans ahead) entry (reduction_reified found enough target)
    have longer := steps.trans (.single last)
    rw [List.reverse_cons, Tree.leavesAll_append, Tree.leavesAll_singleton, Tree.leaves,
      ← Tree.leavesAll_append, ← List.reverse_append, List.take_append_drop]
    exact ⟨_, longer⟩

theorem Grown.viable {rank : S → Nat} (h : p.Grown items c ss forest)
    (coherent : p.Coherent kernel ending) (completable : p.Completable kernel ending rank) :
    p.grammar.Viable ending ((Tree.leavesAll forest.reverse).map Token.symbol) := by
  obtain ⟨t, more, derived, root, leaves⟩ :=
    completable.exists_tree coherent h.path (h.derived coherent)
  refine ⟨t.leaves.map Token.symbol, ⟨t, derived, root, rfl⟩, ?_⟩
  rw [leaves, List.map_append, List.append_assoc]
  exact List.prefix_append _ _

theorem Grown.not_viable (h : p.Grown items c ss forest) (complete : p.Complete first follow ending)
    {a : S} (look : p.lookahead? c.rest = some a) (free : p.table.action? c.state a = none) :
    ¬ p.grammar.Viable ending ((Tree.leavesAll forest.reverse).map Token.symbol ++ [a]) := by
  intro viable
  obtain ⟨t, more, derived, root, leaves, next⟩ := viable.exists_tree
  -- the end token needs some value, and a tree is at hand
  let last : List (Except E (Token S (Tree S V))) := [.ok ⟨ending, t, none⟩]
  have after : p.reified.lookahead? last = some ending := rfl
  have ahead : p.reified.lookahead? ((more.map Token.reified).map .ok ++ last) = some a := by
    cases more with
    | nil => exact next
    | cons token more => exact next
  obtain ⟨us, steps⟩ := h.reified (ahead.trans look.symm)
  have read := complete.reified.halts derived.reified (t.symbol_reified.trans root) after
  rw [Tree.eval_reified, Tree.leaves_reified, leaves, List.map_append, List.map_append,
    List.append_assoc] at read
  obtain ⟨ss, whole, _⟩ := read
  obtain ⟨_, _, halts⟩ := steps.prefix_of_halts whole
  have refused : p.reified.Halts ⟨⟨c.stack.states, forest⟩, _⟩ _ _ :=
    .stop (move_of_reject ahead free)
  have value := (refused.unique halts).2
  obtain ⟨_, error, _⟩ := refusal_cases p.reified ⟨⟨c.stack.states, forest⟩, _⟩
  rw [error] at value
  cases value

end Refusal

end Parser

def Run.RejectsAt (r : Run S V E) (ts : List (Token S V)) (place : Nat) : Prop :=
  ∃ token state expected, r.outcome = .error (.unexpectedToken token state expected) ∧
    ts[place]? = some token ∧ r.pulled = place + 1

def Run.RejectsEnd (r : Run S V E) : Prop :=
  ∃ state expected, r.outcome = .error (.unexpectedEnd state expected)

namespace Parser

/-- Of these tokens the run refuses the one where they break, and the end of the input if they do
not break but have to go on. -/
structure Earliest (p : Parser S V) (ending : S) (ts : List (Token S V)) (r : Run S V E) :
    Prop where
  token : ∀ place, r.RejectsAt ts place ↔
    p.grammar.Breaks ending (ts.map Token.symbol) place
  finished : r.RejectsEnd ↔
    p.grammar.Viable ending (ts.map Token.symbol) ∧ ending ∉ ts.map Token.symbol ∧
      (p.endOfInput = some ending → ¬ p.grammar.Sentence (ts.map Token.symbol))

section Outcome

variable {p : Parser S V} {ending : S} {u : List (Token S V)} {r : Run S V E}

theorem Earliest.of_token {token : Token S V} {later : List (Token S V)} {state : Nat}
    {expected : List S} (refused : r.outcome = .error (.unexpectedToken token state expected))
    (pulled : r.pulled = u.length + 1)
    (breaks : p.grammar.Breaks ending ((u ++ token :: later).map Token.symbol) u.length) :
    p.Earliest ending (u ++ token :: later) r where
  token place := by
    constructor
    · rintro ⟨_, _, _, _, _, taken⟩
      have same : place = u.length := by omega
      rw [same]
      exact breaks
    · intro other
      obtain rfl := other.unique breaks
      exact ⟨token, state, expected, refused, by simp, pulled⟩
  finished := by
    constructor
    · rintro ⟨_, _, ended⟩
      rw [refused] at ended
      cases ended
    · rintro ⟨viable, _⟩
      exact absurd viable breaks.not_viable

theorem Earliest.of_end {state : Nat} {expected : List S}
    (refused : r.outcome = .error (.unexpectedEnd state expected))
    (viable : p.grammar.Viable ending (u.map Token.symbol)) (proper : ending ∉ u.map Token.symbol)
    (unfinished : p.endOfInput = some ending → ¬ p.grammar.Sentence (u.map Token.symbol)) :
    p.Earliest ending u r where
  token place := by
    constructor
    · rintro ⟨_, _, _, ended, _⟩
      rw [refused] at ended
      cases ended
    · intro breaks
      exact absurd viable breaks.not_viable
  finished := by
    constructor
    · intro _
      exact ⟨viable, proper, unfinished⟩
    · intro _
      exact ⟨state, expected, refused⟩

theorem Earliest.of_value {rest : List (Token S V)} {v : V} (accepted : r.outcome = .value v)
    (sentence : p.grammar.Sentence (u.map Token.symbol))
    (look : p.lookahead? (rest.map (.ok (ε := E))) = some ending) :
    p.Earliest ending (u ++ rest) r where
  token place := by
    constructor
    · rintro ⟨_, _, _, ended, _⟩
      rw [accepted] at ended
      cases ended
    · intro breaks
      rw [List.map_append] at breaks
      refine absurd breaks (sentence.not_breaks ?_)
      cases rest with
      | nil =>
        intro symbol none
        cases none
      | cons token rest =>
        intro symbol first
        cases first
        exact Option.some.inj look
  finished := by
    constructor
    · rintro ⟨_, _, ended⟩
      rw [accepted] at ended
      cases ended
    · rintro ⟨_, proper, unfinished⟩
      cases rest with
      | nil =>
        rw [List.append_nil] at unfinished
        exact absurd sentence (unfinished look)
      | cons token rest =>
        have named : token.symbol = ending := Option.some.inj look
        refine absurd (List.mem_map.2 ⟨token, ?_, named⟩) proper
        exact List.mem_append_right _ List.mem_cons_self

end Outcome

theorem split_tokens {ts u : List (Token S V)} {rest : List (Except E (Token S V))}
    (split : ts.map .ok = u.map .ok ++ rest) : ∃ later, rest = later.map .ok ∧ ts = u ++ later := by
  obtain ⟨before, later, rfl, same, rfl⟩ := List.map_eq_append_iff.1 split
  have injective (a b : Token S V) (equal : (.ok a : Except E (Token S V)) = .ok b) : a = b :=
    Except.ok.inj equal
  obtain rfl := (List.map_inj_right injective).1 same
  exact ⟨later, rfl, rfl⟩

variable [DecidableEq S] {p : Parser S V} {c : Certificate S} {ending : S} {floor : Nat → Int}
  {slack : Nat}

theorem Grown.earliest {ts : List (Token S V)} {d : Config S V E} {ss : List Step}
    {forest : List (Tree S V)} (grown : p.Grown (ts.map .ok) d ss forest)
    (certified : p.Certified c ending) {rank : S → Nat}
    (completable : p.Completable c.kernel ending rank)
    (free : ∀ symbol, p.lookahead? d.rest = some symbol → p.table.action? d.state symbol = none)
    {r : Run S V E} (refused : r.outcome = p.refusal d)
    (pulled : r.pulled = min ts.length ((Tree.leavesAll forest.reverse).length + 1)) :
    p.Earliest ending ts r := by
  have viable := grown.viable certified.coherent completable
  have proper : ending ∉ (Tree.leavesAll forest.reverse).map Token.symbol := by
    intro inside
    obtain ⟨token, member, named⟩ := List.mem_map.1 inside
    exact grown.leaves_ne_ending certified.coherent token member named
  obtain ⟨later, rest, rfl⟩ := split_tokens grown.consumed
  unfold refusal at refused
  cases later with
  | nil =>
    rw [rest] at refused
    rw [List.append_nil]
    refine .of_end refused viable proper ?_
    intro synthesized sentence
    have look : p.lookahead? d.rest = some ending := by
      rw [rest]
      exact synthesized
    exact grown.not_viable certified.complete look (free ending look) sentence.viable
  | cons token later =>
    rw [rest] at refused
    have look : p.lookahead? d.rest = some token.symbol := by
      rw [rest]
      rfl
    refine .of_token refused ?_ ?_
    · rw [pulled, List.length_append, List.length_cons]
      omega
    · have broken := grown.not_viable certified.complete look (free token.symbol look)
      have breaks :=
        @Grammar.Breaks.of_split _ _ _ _ _ _ (later.map Token.symbol) viable proper broken
      rw [List.length_map] at breaks
      rw [List.map_append, List.map_cons]
      exact breaks

theorem Steady.earliest (steady : p.Steady c ending floor slack) {rank : S → Nat}
    (completable : p.Completable c.kernel ending rank) (ts : List (Token S V)) {limit : Nat}
    (room : c.bound * ts.length + slack < limit)
    (sound : ∀ f, (p.run limit (ts.map (.ok (ε := E)))).outcome ≠ .fault f) :
    p.Earliest ending ts (p.run limit (ts.map (.ok (ε := E)))) := by
  have certified := steady.certified
  have ended : (p.run limit (ts.map (.ok (ε := E)))).outcome ≠ .unfinished := by
    refine (steady.run_orderly _ ?_).ended
    rw [List.length_map]
    exact room
  obtain ⟨d, ss, us, split, steps, last⟩ := (halts_of_run ended).last_move
  obtain ⟨forest, grown⟩ := steps.grown
  rcases grown.halt_cases certified.coherent steady.evaluable steady.ends last with
    ⟨refused, free⟩ | ⟨v, accepted⟩ | ⟨_, _, _, f, fault, _⟩
  · apply grown.earliest certified completable free refused
    have shifts : (p.run limit (ts.map (.ok (ε := E)))).shiftCount =
        (Tree.leavesAll forest.reverse).length := by
      rw [Run.shiftCount, split, shiftCount_append, (reductions_of_halt last).2, grown.shifts]
      omega
    rw [run_pulled, shifts, List.length_map]
  · obtain ⟨t, rest, consumed, derived, root, _, _, look⟩ := certified.derivation_of_run accepted
    obtain ⟨later, rfl, rfl⟩ := split_tokens consumed
    exact .of_value accepted ⟨t, derived, root, rfl⟩ look
  · exact absurd fault (sound f)

end Parser

end ShiftReduce
