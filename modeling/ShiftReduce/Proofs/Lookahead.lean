import ShiftReduce.Proofs.Coherence
/-!
Tables that follow their grammar. A table is complete if, wherever a nonterminal has a goto, each
of its rules can be walked from there: every component has a shift or a goto, and at the end the
rule is reduced under every symbol that may follow. Completeness is a finite check. A complete
parser reads every derivation tree, evaluating its nodes in post-order, and stops where the
evaluation of the tree breaks down.
-/
namespace ShiftReduce

variable {S V E : Type}

namespace Grammar

variable [DecidableEq S] (g : Grammar S V) (first : S → List (Option S))

/-- The first tokens of what a symbol derives, or `none` if it may derive nothing. -/
def firsts (symbol : S) : List (Option S) :=
  if g.Terminal symbol then [some symbol] else first symbol

def heads : List S → List (Option S)
  | [] => [none]
  | symbol :: symbols =>
    if none ∈ g.firsts first symbol then
      (g.firsts first symbol).filter Option.isSome ++ heads symbols
    else g.firsts first symbol

def nexts (symbols : List S) (following : S) : List S :=
  (g.heads first symbols).map fun head => head.getD following

end Grammar

theorem Grammar.rule?_id {g : Grammar S V} {rule : Rule S V} (member : rule ∈ g.rules) :
    g.rule? rule.id = some rule := by
  obtain ⟨n, bound, rfl⟩ := List.getElem_of_mem member
  have named : (g.rules.map Rule.id)[n]? = some (g.rules[n]).id := by
    rw [List.getElem?_map, List.getElem?_eq_getElem bound]
    rfl
  rw [g.numbered, List.getElem?_range' bound] at named
  have number : (g.rules[n]).id = n + 1 := by
    have same := Option.some.inj named
    omega
  rw [number, rule?_succ, List.getElem?_eq_getElem bound]

theorem Stack.pop_pop (s : Stack V) (m n : Nat) : (s.pop m).pop n = s.pop (m + n) := by
  simp only [pop, List.drop_drop]

def Tree.head? (t : Tree S V) : Option S := t.leaves.head?.map Token.symbol

namespace Parser

variable [DecidableEq S] (p : Parser S V)

/-- The next state after a symbol: a shift by a terminal, a goto by a nonterminal. -/
def target? (state : Nat) (symbol : S) : Option Nat :=
  if p.grammar.Terminal symbol then
    match p.table.action? state symbol with
    | some (.shift next) => some next
    | _ => none
  else p.table.goto? state symbol

variable (first : S → List (Option S)) (follow : Nat → S → List S)

/-- The components can be read from a state, and the rule is then reduced under the lookahead. -/
def Walk (id : Nat) (lookahead : S) : Nat → List S → Prop
  | state, [] => p.table.action? state lookahead = some (.reduce id)
  | state, symbol :: symbols =>
    ∃ next ∈ p.target? state symbol,
      (p.grammar.Terminal symbol ∨
        ∀ a ∈ p.grammar.nexts first symbols lookahead, a ∈ follow state symbol) ∧
      Walk id lookahead next symbols

instance decidableWalk (id : Nat) (lookahead : S) : (state : Nat) → (symbols : List S) →
    Decidable (p.Walk first follow id lookahead state symbols)
  | _, [] => inferInstanceAs (Decidable (_ = _))
  | state, symbol :: symbols =>
    have (next : Nat) := decidableWalk id lookahead next symbols
    inferInstanceAs (Decidable (∃ next ∈ p.target? state symbol, _ ∧ _))

structure Complete (ending : S) : Prop where
  heads : ∀ rule ∈ p.grammar.rules,
    ∀ head ∈ p.grammar.heads first rule.components, head ∈ first rule.name
  walk : ∀ e ∈ p.table.gotoEdges, ∀ rule ∈ p.grammar.rules, rule.name = e.symbol →
    ∀ a ∈ follow e.source e.symbol, p.Walk first follow rule.id a e.source rule.components
  start : ending ∈ follow 0 p.grammar.start
  accept : ∃ next ∈ p.table.goto? 0 p.grammar.start, p.table.action? next ending = some .accept

instance (ending : S) : Decidable (p.Complete first follow ending) :=
  decidable_of_iff
    ((∀ rule ∈ p.grammar.rules,
        ∀ head ∈ p.grammar.heads first rule.components, head ∈ first rule.name) ∧
      (∀ e ∈ p.table.gotoEdges, ∀ rule ∈ p.grammar.rules, rule.name = e.symbol →
        ∀ a ∈ follow e.source e.symbol, p.Walk first follow rule.id a e.source rule.components) ∧
      ending ∈ follow 0 p.grammar.start ∧
      ∃ next ∈ p.table.goto? 0 p.grammar.start, p.table.action? next ending = some .accept)
    ⟨fun ⟨heads, walk, start, accept⟩ => ⟨heads, walk, start, accept⟩,
      fun h => ⟨h.heads, h.walk, h.start, h.accept⟩⟩

variable {p first follow} {ending : S}

namespace Complete

theorem head_mem_heads {ts : List (Tree S V)}
    (h : ∀ t ∈ ts, t.head? ∈ p.grammar.firsts first t.symbol) :
    (Tree.leavesAll ts).head?.map Token.symbol ∈ p.grammar.heads first (ts.map Tree.symbol) := by
  induction ts with
  | nil => exact List.mem_singleton_self none
  | cons t ts ih =>
    have here := h t List.mem_cons_self
    have later := ih fun u member => h u (List.mem_cons_of_mem t member)
    simp only [List.map_cons, Grammar.heads, Tree.leavesAll]
    unfold Tree.head? at here
    cases read : t.leaves with
    | nil =>
      rw [read, List.head?_nil, Option.map_none] at here
      rw [if_pos here, List.nil_append]
      exact List.mem_append_right _ later
    | cons token tokens =>
      rw [read, List.head?_cons, Option.map_some] at here
      rw [List.cons_append, List.head?_cons, Option.map_some]
      split
      · exact List.mem_append_left _ (List.mem_filter.2 ⟨here, rfl⟩)
      · exact here

theorem head_mem_firsts (complete : p.Complete first follow ending) {t : Tree S V}
    (derived : t.Derived p.grammar) : t.head? ∈ p.grammar.firsts first t.symbol := by
  induction derived with
  | leaf terminal =>
    simp only [Grammar.firsts, Tree.symbol, terminal, if_true]
    exact List.mem_singleton_self _
  | @node rule children member spelled _ ih =>
    have head := head_mem_heads ih
    rw [spelled] at head
    have nonterminal : ¬ p.grammar.Terminal rule.name := fun terminal =>
      terminal (List.mem_map_of_mem member)
    simp only [Grammar.firsts, Tree.symbol, nonterminal, if_false]
    exact complete.heads rule member _ head

theorem lookahead_mem_nexts (complete : p.Complete first follow ending) {ts : List (Tree S V)}
    (derived : ∀ t ∈ ts, t.Derived p.grammar) {rest : List (Except E (Token S V))} {a : S}
    (look : p.lookahead? rest = some a) :
    ∃ b ∈ p.grammar.nexts first (ts.map Tree.symbol) a,
      p.lookahead? ((Tree.leavesAll ts).map .ok ++ rest) = some b := by
  have head := head_mem_heads fun t member => complete.head_mem_firsts (derived t member)
  refine ⟨_, List.mem_map_of_mem head, ?_⟩
  cases Tree.leavesAll ts with
  | nil => exact look
  | cons token tokens => rfl

end Complete

/-- From a configuration the machine comes to a result: it makes the reductions `reduced` and goes
on as `after` says, or the evaluation breaks down and the machine halts there. -/
def Computes {α : Type} (p : Parser S V) (c : Config S V E) (reduced : List Nat)
    (after : α → Config S V E → Prop) : Except (Interruption S V) α → Prop
  | .ok result => ∃ ss d, p.Steps c ss d ∧ reductions ss = reduced ∧ after result d
  | .error i => ∃ ss, p.Halts c ss i.cause.outcome ∧ reductions ss = i.reduced

/-- Wherever the root can be put on the stack, the machine evaluates the tree and puts it there. -/
def Reads (p : Parser S V) (E : Type) (follow : Nat → S → List S) (t : Tree S V) : Prop :=
  ∀ (stack : Stack V) (rest : List (Except E (Token S V))) (next : Nat) (a : S),
    p.target? stack.current t.symbol = some next → p.lookahead? rest = some a →
    (p.grammar.Terminal t.symbol ∨ a ∈ follow stack.current t.symbol) →
    p.Computes ⟨stack, t.leaves.map .ok ++ rest⟩ t.postorder
      (fun v d => d = ⟨stack.push next v, rest⟩) t.eval

structure Ready (p : Parser S V) (id : Nat) (a : S) (stack : Stack V)
    (left : List (Except E (Token S V))) (read : List V) (d : Config S V E) : Prop where
  rest : d.rest = left
  values : d.stack.values = read.reverse ++ stack.values
  below : d.stack.pop read.length = stack
  entry : p.table.action? d.state a = some (.reduce id)

theorem Complete.children_computes (complete : p.Complete first follow ending) {ts : List (Tree S V)}
    (derived : ∀ t ∈ ts, t.Derived p.grammar) (reads : ∀ t ∈ ts, p.Reads E follow t)
    {stack : Stack V} {rest : List (Except E (Token S V))} {id : Nat} {a : S}
    (look : p.lookahead? rest = some a)
    (walk : p.Walk first follow id a stack.current (ts.map Tree.symbol)) :
    p.Computes ⟨stack, (Tree.leavesAll ts).map .ok ++ rest⟩ (Tree.postorderAll ts)
      (p.Ready id a stack rest) (Tree.evalAll ts) := by
  -- each child leaves the stack one higher for those after it, so the stack is arbitrary
  induction ts generalizing stack with
  | nil => exact ⟨[], _, .refl _, rfl, rfl, rfl, rfl, walk⟩
  | cons t ts ih =>
    obtain ⟨next, entry, follows, walk⟩ := walk
    obtain ⟨derived, later⟩ := List.forall_mem_cons.1 derived
    obtain ⟨reads, readsLater⟩ := List.forall_mem_cons.1 reads
    obtain ⟨b, possible, ahead⟩ := complete.lookahead_mem_nexts later look
    have here := reads stack _ next b entry ahead (follows.imp_right fun all => all b possible)
    rw [Tree.leavesAll, List.map_append, List.append_assoc]
    unfold Tree.evalAll Tree.postorderAll
    cases evaluated : t.eval with
    | error i =>
      rw [evaluated] at here
      exact here
    | ok v =>
      rw [evaluated] at here
      obtain ⟨ss, _, steps, reduced, rfl⟩ := here
      have more := @ih later readsLater (stack.push next v) walk
      cases others : Tree.evalAll ts with
      | error i =>
        rw [others] at more
        obtain ⟨us, halts, reduced'⟩ := more
        refine ⟨ss ++ us, steps.halts halts, ?_⟩
        rw [reductions_append, reduced, reduced']
      | ok vs =>
        rw [others] at more
        obtain ⟨us, d, steps', reduced', ready⟩ := more
        refine ⟨ss ++ us, d, steps.trans steps', ?_, ready.rest, ?_, ?_, ready.entry⟩
        · rw [reductions_append, reduced, reduced']
        · rw [ready.values, List.reverse_cons, List.append_assoc]
          rfl
        · rw [List.length_cons, ← Stack.pop_pop, ready.below]
          rfl

section Ready

variable {rule : Rule S V} {a : S} {stack : Stack V} {rest : List (Except E (Token S V))}
  {values : List V} {d : Config S V E}

theorem Ready.operands (ready : p.Ready rule.id a stack rest values d)
    (count : values.length = rule.arity) :
    rule.arity ≤ d.stack.values.length ∧ d.stack.operands rule.arity = values := by
  unfold Stack.operands
  constructor
  · rw [ready.values, List.length_append, List.length_reverse]
    omega
  · rw [ready.values, ← count, ← List.length_reverse, List.take_left, List.reverse_reverse]

theorem Ready.breakdown (ready : p.Ready rule.id a stack rest values d)
    (member : rule ∈ p.grammar.rules) (count : values.length = rule.arity)
    {cause : Breakdown S V} (combined : rule.combine values = .error cause) :
    p.reduction d.stack rule.id = .error cause := by
  obtain ⟨enough, operands⟩ := ready.operands count
  simp only [Parser.reduction, Grammar.rule?_id member, Nat.not_lt.2 enough, if_false, operands,
    combined]

theorem Ready.reduction (ready : p.Ready rule.id a stack rest values d)
    (member : rule ∈ p.grammar.rules) (count : values.length = rule.arity) {value : V}
    (combined : rule.combine values = .ok value) {next : Nat}
    (target : p.table.goto? stack.current rule.name = some next) :
    p.reduction d.stack rule.id = .ok (stack.push next value) := by
  obtain ⟨enough, operands⟩ := ready.operands count
  have below : d.stack.pop rule.arity = stack := by rw [← count, ready.below]
  simp only [Parser.reduction, Grammar.rule?_id member, Nat.not_lt.2 enough, if_false, operands,
    combined, below, target]

end Ready

theorem target?_nonterminal {state : Nat} {rule : Rule S V} (member : rule ∈ p.grammar.rules) :
    p.target? state rule.name = p.table.goto? state rule.name := by
  have nonterminal : ¬ p.grammar.Terminal rule.name := fun terminal =>
    terminal (List.mem_map_of_mem member)
  simp only [target?, nonterminal, if_false]

theorem target?_terminal {state next : Nat} {symbol : S} (terminal : p.grammar.Terminal symbol)
    (h : p.target? state symbol = some next) :
    p.table.action? state symbol = some (.shift next) := by
  simp only [target?, terminal, if_true] at h
  split at h
  · next shifted =>
    cases h
    exact shifted
  · cases h

theorem Complete.reads (complete : p.Complete first follow ending) {t : Tree S V}
    (derived : t.Derived p.grammar) : p.Reads E follow t := by
  induction derived with
  | @leaf token terminal =>
    intro stack rest next a entry look _
    have shifted := target?_terminal terminal entry
    exact ⟨[_], _, .single (move_of_shift rfl shifted), rfl, rfl⟩
  | @node rule children member spelled derived ih =>
    intro stack rest next a entry look follows
    have target : p.table.goto? stack.current rule.name = some next := by
      rw [← target?_nonterminal member]
      exact entry
    have nonterminal : ¬ p.grammar.Terminal rule.name := fun terminal =>
      terminal (List.mem_map_of_mem member)
    have walk := complete.walk _ (Table.mem_gotoEdges target) rule member rfl a
      (follows.resolve_left nonterminal)
    rw [← spelled] at walk
    have run := complete.children_computes (E := E) derived ih look walk
    unfold Tree.eval Tree.leaves Tree.postorder
    cases evaluated : Tree.evalAll children with
    | error i =>
      rw [evaluated] at run
      exact run
    | ok values =>
      rw [evaluated] at run
      obtain ⟨ss, ⟨stack', rest'⟩, steps, reduced, ready⟩ := run
      obtain rfl := ready.rest
      have count : values.length = rule.arity := by
        rw [Tree.evalAll_length evaluated, ← List.length_map Tree.symbol, spelled]
        rfl
      dsimp only
      cases combined : rule.combine values with
      | error cause =>
        have failed := ready.breakdown member count combined
        have last := move_of_breakdown look ready.entry failed
        refine ⟨ss ++ [], steps.halts (.stop last), ?_⟩
        rw [List.append_nil, reduced]
      | ok value =>
        have done := ready.reduction member count combined target
        have last := move_of_reduce look ready.entry done
        refine ⟨ss ++ [_], _, steps.trans (.single last), ?_, rfl⟩
        rw [reductions_append, reduced]
        rfl

/-- Before the end of the input, a complete parser accepts a derivation tree of the start symbol
with its value, or halts where the evaluation breaks down. -/
theorem Complete.halts (complete : p.Complete first follow ending) {t : Tree S V}
    (derived : t.Derived p.grammar) (root : t.symbol = p.grammar.start)
    {rest : List (Except E (Token S V))} (look : p.lookahead? rest = some ending) :
    match t.eval with
    | .ok v => ∃ ss, p.Halts (.initial (t.leaves.map .ok ++ rest)) ss (.value v) ∧
        reductions ss = t.postorder
    | .error i => ∃ ss, p.Halts (.initial (t.leaves.map .ok ++ rest)) ss i.cause.outcome ∧
        reductions ss = i.reduced := by
  obtain ⟨next, target, entry⟩ := complete.accept
  obtain ⟨rule, member, named⟩ := List.mem_map.1 p.grammar.start_mem
  have goto : p.target? 0 t.symbol = some next := by
    rw [root, ← named, target?_nonterminal member, named]
    exact target
  have run := complete.reads (E := E) derived .initial rest next ending goto look
    (.inr (by rw [root]; exact complete.start))
  cases evaluated : t.eval with
  | error i =>
    rw [evaluated] at run
    exact run
  | ok v =>
    rw [evaluated] at run
    obtain ⟨ss, _, steps, reduced, rfl⟩ := run
    refine ⟨ss ++ [_], steps.halts (.stop (move_of_accept look entry)), ?_⟩
    rw [reductions_append, reduced]
    exact List.append_nil _

end Parser

end ShiftReduce
