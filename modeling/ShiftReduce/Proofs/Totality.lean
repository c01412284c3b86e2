import ShiftReduce.Proofs.Recognition
/-!
Parsers that always end. In a coherent table no reduction and no acceptance can go wrong, so what is
left to go wrong is the table having no action for a lookahead, or a callback having no value. The
weights of the symbols on the stack pay for the reductions: each shift brings in at most the bound,
each reduction costs at least one, and what the stack keeps is never worth less than a floor.
-/
namespace ShiftReduce

variable {S V E : Type}

namespace Table

/-- A lower bound, for each state, on the weight of the symbols below it. -/
structure Floor (t : Table S) (weight : S → Int) (floor : Nat → Int) (slack : Nat) : Prop where
  root : floor 0 ≤ 0 ∧ -slack ≤ floor 0
  edge : ∀ e ∈ t.edges, floor e.target ≤ floor e.source + weight e.symbol ∧ -slack ≤ floor e.target

theorem Path.floor_le {t : Table S} {weight : S → Int} {floor : Nat → Int} {slack : Nat}
    (h : t.Floor weight floor slack) {states : List Nat} {symbols : List S}
    (path : t.Path states symbols) :
    floor (states.headD 0) ≤ (symbols.map weight).sum ∧ -slack ≤ floor (states.headD 0) := by
  induction path with
  | root => exact h.root
  | edge below member ih =>
    obtain ⟨step, low⟩ := h.edge _ member
    dsimp only at step low
    rw [List.map_cons, List.sum_cons, List.headD_cons]
    constructor
    · omega
    · exact low

end Table

/-- A rule that breaks down on the values of these trees, which spell it out. -/
structure Tree.Faulty (g : Grammar S V) (rule : Rule S V) (children : List (Tree S V))
    (args : List V) (f : Fault V) : Prop where
  derived : (Tree.node rule children).Derived g
  member : rule ∈ g.rules
  evaluated : Tree.evalAll children = .ok args
  combined : rule.combine args = .error (.fault f)

theorem Tree.Faulty.eval {g : Grammar S V} {rule : Rule S V} {children : List (Tree S V)}
    {args : List V} {f : Fault V} (h : Tree.Faulty g rule children args f) :
    (Tree.node rule children).eval = .error ⟨Tree.postorderAll children, .fault f⟩ := by
  simp only [Tree.eval, h.evaluated, h.combined]

theorem Rule.combine_callback {rule : Rule S V} {callback : Callback V}
    (called : rule.callback = some callback) (args : List V) :
    rule.combine args = (callback.apply args).mapError .fault := by
  unfold combine
  rw [called]

theorem Rule.combine_plain {rule : Rule S V} (plain : rule.callback = none)
    (evaluable : rule.Evaluable) {args : List V} (count : args.length = rule.arity) :
    ∃ value, args = [value] ∧ rule.combine args = .ok value := by
  have unit : rule.arity = 1 := by
    rcases evaluable with called | unit
    · rw [plain] at called
      cases called
    · exact unit
  rw [unit] at count
  obtain ⟨value, rfl⟩ := List.length_eq_one_iff.1 count
  refine ⟨value, rfl, ?_⟩
  unfold combine
  rw [plain]

theorem Rule.combine_cases {rule : Rule S V} (evaluable : rule.Evaluable) {args : List V}
    (count : args.length = rule.arity) :
    (∃ value, rule.combine args = .ok value) ∨ ∃ f, rule.combine args = .error (.fault f) := by
  cases called : rule.callback with
  | some callback =>
    rw [combine_callback called]
    cases callback.apply args with
    | ok value => exact .inl ⟨value, rfl⟩
    | error f => exact .inr ⟨f, rfl⟩
  | none =>
    obtain ⟨value, _, combined⟩ := combine_plain called evaluable count
    exact .inl ⟨value, combined⟩

theorem Rule.callback_of_fault {rule : Rule S V} {args : List V} {f : Fault V}
    (faulty : rule.combine args = .error (.fault f)) :
    ∃ callback, rule.callback = some callback ∧ callback.apply args = .error f := by
  cases called : rule.callback with
  | some callback =>
    refine ⟨callback, rfl, ?_⟩
    rw [combine_callback called] at faulty
    cases applied : callback.apply args with
    | ok value =>
      rw [applied] at faulty
      cases faulty
    | error f' =>
      rw [applied] at faulty
      cases faulty
      rfl
  | none =>
    unfold combine at faulty
    rw [called] at faulty
    match args with
    | [] => cases faulty
    | [_] => cases faulty
    | _ :: _ :: _ => cases faulty

namespace Parser

theorem refusal_cases (p : Parser S V) (c : Config S V E) :
    ∃ e : ParseError S V E, p.refusal c = .error e ∧ ∀ broken, e ≠ .table broken := by
  obtain ⟨stack, rest⟩ := c
  cases rest with
  | nil =>
    refine ⟨_, rfl, ?_⟩
    intro broken same
    cases same
  | cons item rest =>
    cases item with
    | ok token =>
      refine ⟨_, rfl, ?_⟩
      intro broken same
      cases same
    | error e =>
      refine ⟨_, rfl, ?_⟩
      intro broken same
      cases same

variable [DecidableEq S] {p : Parser S V}

theorem move_halt_cases {c : Config S V E} {ts : List Step} {o : Outcome S V E}
    (h : p.move c = .halt ts o) :
    (∀ symbol, p.lookahead? c.rest = some symbol → p.table.action? c.state symbol = none) ∧
      ts = [] ∧ o = p.refusal c ∨
    ∃ symbol, p.lookahead? c.rest = some symbol ∧
      ((∃ next, p.table.action? c.state symbol = some (.shift next) ∧ c.rest = [] ∧ ts = [] ∧
        o = .error (.table (.shiftAtEnd c.state))) ∨
      (∃ id cause, p.table.action? c.state symbol = some (.reduce id) ∧
        p.reduction c.stack id = .error cause ∧ ts = [] ∧ o = cause.outcome) ∨
      p.table.action? c.state symbol = some .accept ∧ ts = [c.stack.step c.state .accept] ∧
        o = c.stack.acceptance) := by
  simp only [move] at h
  split at h
  next entry =>
    obtain ⟨rfl, rfl⟩ := Move.halt.inj h
    refine .inl ⟨?_, rfl, rfl⟩
    intro symbol look
    rw [look] at entry
    exact entry
  next next entry =>
    obtain ⟨symbol, look, entry⟩ := Option.bind_eq_some_iff.1 entry
    refine .inr ⟨symbol, look, .inl ⟨next, entry, ?_⟩⟩
    simp only [Config.shift] at h
    split at h
    · cases h
    next other =>
      obtain ⟨rfl, rfl⟩ := Move.halt.inj h
      refine ⟨?_, rfl, rfl⟩
      cases items : c.rest with
      | nil => rfl
      | cons item rest =>
        cases item with
        | ok token => exact absurd items (other token rest)
        | error e =>
          rw [items] at look
          cases look
  next id entry =>
    obtain ⟨symbol, look, entry⟩ := Option.bind_eq_some_iff.1 entry
    refine .inr ⟨symbol, look, .inr (.inl ⟨id, ?_⟩)⟩
    split at h
    next cause failed =>
      obtain ⟨rfl, rfl⟩ := Move.halt.inj h
      exact ⟨cause, entry, failed, rfl, rfl⟩
    · cases h
  next entry =>
    obtain ⟨symbol, look, entry⟩ := Option.bind_eq_some_iff.1 entry
    obtain ⟨rfl, rfl⟩ := Move.halt.inj h
    exact .inr ⟨symbol, look, .inr (.inr ⟨entry, rfl, rfl⟩)⟩

theorem reductions_of_halt {c : Config S V E} {ts : List Step} {o : Outcome S V E}
    (h : p.move c = .halt ts o) : reductions ts = [] ∧ shiftCount ts = 0 := by
  rcases move_halt_cases h with
    ⟨_, rfl, _⟩ | ⟨_, _, ⟨_, _, _, rfl, _⟩ | ⟨_, _, _, _, rfl, _⟩ | ⟨_, rfl, _⟩⟩
  · exact ⟨rfl, rfl⟩
  · exact ⟨rfl, rfl⟩
  · exact ⟨rfl, rfl⟩
  · exact ⟨rfl, rfl⟩

section Coherent

variable {kernel : Nat → List (Nat × Nat)} {ending : S} {items : List (Except E (Token S V))}
  {c : Config S V E} {ss ts : List Step} {forest : List (Tree S V)} {o : Outcome S V E}

/-- In a coherent table a reduction finds its rule spelled out on the stack and a goto below it. -/
theorem Grown.reducible (h : p.Grown items c ss forest) (coherent : p.Coherent kernel ending)
    {symbol : S} {id : Nat} (entry : p.table.action? c.state symbol = some (.reduce id)) :
    ∃ rule, p.grammar.rule? id = some rule ∧ rule.arity ≤ c.stack.values.length ∧
      (Tree.node rule (forest.take rule.arity).reverse).Derived p.grammar ∧
      ∃ next, p.table.goto? (c.stack.pop rule.arity).current rule.name = some next := by
  obtain ⟨rule, found, opens⟩ := coherent.action _ (Table.mem_actionEntries entry)
  have item := coherent.item found h.path opens
  refine ⟨rule, found, ?_, ?_, Option.isSome_iff_exists.1 item.target⟩
  · have count := item.count
    rw [List.length_map, h.length_eq] at count
    exact count
  · refine .node (Grammar.mem_of_rule? found) ?_ ?_
    · rw [List.map_reverse, List.map_take, item.spelled]
      exact List.take_length
    · intro t member
      exact h.derived coherent t (List.mem_of_mem_take (List.mem_reverse.1 member))

theorem Grown.operands_evaluated (h : p.Grown items c ss forest) (count : Nat) :
    Tree.evalAll (forest.take count).reverse = .ok (c.stack.operands count) := by
  apply Tree.evalAll_of_map
  rw [Stack.operands, List.map_reverse, List.map_reverse, List.map_take, List.map_take, h.evaluated]

theorem Grown.mem_items (h : p.Grown items c ss forest) {count : Nat} {token : Token S V}
    (member : token ∈ Tree.leavesAll (forest.take count).reverse) : .ok token ∈ items := by
  have split : forest.reverse = (forest.drop count).reverse ++ (forest.take count).reverse := by
    rw [← List.reverse_append, List.take_append_drop]
  rw [h.consumed, split, Tree.leavesAll_append]
  apply List.mem_append_left
  exact List.mem_map_of_mem (List.mem_append_right _ member)

/-- A coherent parser halts on a refusal, on a value, or on a fault of a callback. -/
theorem Grown.halt_cases (h : p.Grown items c ss forest) (coherent : p.Coherent kernel ending)
    (evaluable : ∀ rule ∈ p.grammar.rules, rule.Evaluable)
    (ends : ∀ e ∈ p.endOfInput, e = ending) (last : p.move c = .halt ts o) :
    (o = p.refusal c ∧
      ∀ symbol, p.lookahead? c.rest = some symbol → p.table.action? c.state symbol = none) ∨
    (∃ v, o = .value v) ∨
    ∃ rule children args f, o = .fault f ∧ Tree.Faulty p.grammar rule children args f ∧
      ∀ token ∈ Tree.leavesAll children, .ok token ∈ items := by
  rcases move_halt_cases last with
    ⟨free, _, refused⟩ | ⟨symbol, look, ⟨_, entry, done, _⟩ | ⟨id, cause, entry, failed, _, rfl⟩ |
      ⟨entry, _, rfl⟩⟩
  · exact .inl ⟨refused, free⟩
  · -- only the end symbol can be ahead when the items are exhausted, and it is never shifted
    rw [done] at look
    have allowed := coherent.action _ (Table.mem_actionEntries entry)
    exact absurd (ends symbol look) allowed.2
  · obtain ⟨rule, found, enough, derived, next, target⟩ := h.reducible coherent entry
    have member := Grammar.mem_of_rule? found
    have failed' : rule.combine (c.stack.operands rule.arity) = .error cause := by
      simp only [reduction, found, Nat.not_lt.2 enough, if_false] at failed
      split at failed
      next combined =>
        cases failed
        exact combined
      next =>
        simp only [target] at failed
        cases failed
    rcases Rule.combine_cases (evaluable rule member) (Stack.length_operands enough) with
      ⟨value, combined⟩ | ⟨f, combined⟩
    · rw [combined] at failed'
      cases failed'
    · rw [combined] at failed'
      cases failed'
      have faulty : Tree.Faulty p.grammar rule _ _ f :=
        ⟨derived, member, h.operands_evaluated _, combined⟩
      refine .inr (.inr ⟨rule, _, _, f, rfl, faulty, ?_⟩)
      intro token inside
      exact h.mem_items inside
  · obtain ⟨_, alone⟩ := coherent.accepted h.path entry
    have single : c.stack.values.length = 1 := by
      rw [← h.length_eq, ← List.length_map Tree.symbol, alone]
      rfl
    obtain ⟨v, only⟩ := List.length_eq_one_iff.1 single
    refine .inr (.inl ⟨v, ?_⟩)
    unfold Stack.acceptance
    rw [only]

theorem Grown.reductions_le (h : p.Grown items c ss forest) (coherent : p.Coherent kernel ending)
    {weight : S → Int} {bound slack : Nat} {floor : Nat → Int}
    (weighs : Tree.Weighs p.grammar weight bound) (held : p.table.Floor weight floor slack) :
    (reductions ss).length ≤ bound * shiftCount ss + slack := by
  have paid : ((Tree.postorderAll forest.reverse).length : Int) +
      ((forest.reverse.map Tree.symbol).map weight).sum ≤
        bound * (Tree.leavesAll forest.reverse).length := by
    apply Tree.postorderAll_length_le
    intro t member
    exact (h.derived coherent t (List.mem_reverse.1 member)).postorder_length_le weighs
  have kept := h.path.floor_le held
  rw [h.postorder, h.shifts, List.map_reverse, List.map_reverse, List.sum_reverse] at paid
  have enough : ((reductions ss).length : Int) ≤ bound * shiftCount ss + slack := by omega
  exact_mod_cast enough

theorem Grown.shifts_le (h : p.Grown items c ss forest) : shiftCount ss ≤ items.length := by
  rw [h.consumed, List.length_append, List.length_map, h.shifts]
  omega

end Coherent

theorem run_history (p : Parser S V) (limit : Nat) (items : List (Except E (Token S V))) :
    ∃ d ss ts, p.Steps (.initial items) ss d ∧ (p.run limit items).steps = ss ++ ts ∧
      reductions ts = [] ∧ shiftCount ts = 0 := by
  rcases run_follows (p := p) limit items with halts | ⟨_, ⟨d, steps⟩, _⟩
  · obtain ⟨d, ss, ts, split, steps, last⟩ := halts.last_move
    exact ⟨d, ss, ts, steps, split, reductions_of_halt last⟩
  · exact ⟨d, _, [], steps, (List.append_nil _).symm, rfl, rfl⟩

end Parser

/-- A run that ends, never in a table error and only in the faults that are allowed, and that makes
few reductions for its shifts. -/
structure Run.Orderly (r : Run S V E) (bound slack : Nat) (allowed : Fault V → Prop) : Prop where
  ended : r.outcome ≠ .unfinished
  table : ∀ e, r.outcome ≠ .error (.table e)
  fault : ∀ f, r.outcome = .fault f → allowed f
  linear : r.reductions.length ≤ bound * r.shiftCount + slack

theorem Run.Orderly.mono {r : Run S V E} {bound slack : Nat} {few many : Fault V → Prop}
    (h : r.Orderly bound slack few) (more : ∀ f, few f → many f) : r.Orderly bound slack many :=
  ⟨h.ended, h.table, fun f fault => more f (h.fault f fault), h.linear⟩

namespace Parser

variable [DecidableEq S]

/-- What it takes for every run to be orderly, whatever the items are. -/
structure Steady (p : Parser S V) (c : Certificate S) (ending : S) (floor : Nat → Int)
    (slack : Nat) : Prop where
  certified : p.Certified c ending
  evaluable : ∀ rule ∈ p.grammar.rules, rule.Evaluable
  floor : p.table.Floor c.weight floor slack
  ends : ∀ e ∈ p.endOfInput, e = ending

variable {p : Parser S V} {c : Certificate S} {ending : S} {floor : Nat → Int} {slack : Nat}

theorem walk_setEnd (e : Option S) {first : S → List (Option S)} {follow : Nat → S → List S}
    {id state : Nat} {a : S} {symbols : List S} (walk : p.Walk first follow id a state symbols) :
    ({ p with endOfInput := e } : Parser S V).Walk first follow id a state symbols := by
  induction symbols generalizing state with
  | nil => exact walk
  | cons symbol symbols ih =>
    obtain ⟨next, target, follows, later⟩ := walk
    exact ⟨next, target, follows, ih later⟩

theorem Certified.setEnd (h : p.Certified c ending) (e : Option S) :
    ({ p with endOfInput := e } : Parser S V).Certified c ending where
  coherent := ⟨h.coherent.root, h.coherent.edge, h.coherent.action⟩
  complete :=
    { heads := h.complete.heads
      walk := by
        intro edge member rule listed named a follows
        exact walk_setEnd e (h.complete.walk edge member rule listed named a follows)
      start := h.complete.start
      accept := h.complete.accept }
  weighs := h.weighs

def modes (p : Parser S V) (ending : S) : List (Parser S V) :=
  [{ p with endOfInput := none }, p.endingWith ending]

omit [DecidableEq S] in
theorem setEnd_of_mem_modes {q : Parser S V} (member : q ∈ p.modes ending) :
    ∃ e : Option S, (∀ symbol ∈ e, symbol = ending) ∧ q = { p with endOfInput := e } := by
  simp only [modes, List.mem_cons, List.not_mem_nil, or_false] at member
  rcases member with rfl | rfl
  · refine ⟨none, ?_, rfl⟩
    intro symbol some
    cases some
  · refine ⟨some ending, ?_, rfl⟩
    intro symbol some
    exact (Option.some.inj some).symm

omit [DecidableEq S] in
theorem grammar_of_mem_modes {q : Parser S V} (member : q ∈ p.modes ending) :
    q.grammar = p.grammar := by
  obtain ⟨_, _, rfl⟩ := setEnd_of_mem_modes member
  rfl

theorem Steady.of_mem_modes (h : p.Steady c ending floor slack) {q : Parser S V}
    (member : q ∈ p.modes ending) : q.Steady c ending floor slack := by
  obtain ⟨e, ends, rfl⟩ := setEnd_of_mem_modes member
  exact ⟨h.certified.setEnd e, h.evaluable, h.floor, ends⟩

theorem Steady.reductions_le (h : p.Steady c ending floor slack) (limit : Nat)
    (items : List (Except E (Token S V))) :
    (p.run limit items).reductions.length ≤ c.bound * (p.run limit items).shiftCount + slack ∧
      (p.run limit items).shiftCount ≤ items.length := by
  obtain ⟨d, ss, ts, steps, split, quiet, still⟩ := run_history p limit items
  obtain ⟨forest, grown⟩ := steps.grown
  rw [Run.reductions, Run.shiftCount, split, reductions_append, shiftCount_append, quiet, still,
    List.append_nil, Nat.add_zero]
  exact ⟨grown.reductions_le h.certified.coherent h.certified.weighs h.floor, grown.shifts_le⟩

theorem Steady.run_orderly (h : p.Steady c ending floor slack) {limit : Nat}
    (items : List (Except E (Token S V))) (room : c.bound * items.length + slack < limit) :
    (p.run limit items).Orderly c.bound slack fun f =>
      ∃ rule children args, Tree.Faulty p.grammar rule children args f ∧
        ∀ token ∈ Tree.leavesAll children, .ok token ∈ items := by
  obtain ⟨linear, few⟩ := h.reductions_le limit items
  have ended : (p.run limit items).outcome ≠ .unfinished := by
    intro unfinished
    rcases run_follows (p := p) limit items with halts | ⟨_, _, long⟩
    · exact halts.finished unfinished
    · have most := Nat.mul_le_mul_left c.bound few
      unfold Run.reductions at linear
      omega
  obtain ⟨d, ss, ts, _, steps, last⟩ := (halts_of_run ended).last_move
  obtain ⟨forest, grown⟩ := steps.grown
  have cases := grown.halt_cases h.certified.coherent h.evaluable h.ends last
  obtain ⟨error, refusal, sound⟩ := refusal_cases p d
  rw [refusal] at cases
  refine ⟨ended, ?_, ?_, linear⟩
  · intro e broken
    rw [broken] at cases
    rcases cases with ⟨refused, _⟩ | ⟨v, value⟩ | ⟨_, _, _, _, fault, _⟩
    · exact sound e (Outcome.error.inj refused).symm
    · cases value
    · cases fault
  · intro f broken
    rw [broken] at cases
    rcases cases with ⟨refused, _⟩ | ⟨v, value⟩ | ⟨rule, children, args, _, fault, faulty, inside⟩
    · cases refused
    · cases value
    · cases fault
      exact ⟨rule, children, args, faulty, inside⟩

theorem Steady.orderly_of_mem_modes (h : p.Steady c ending floor slack) {q : Parser S V}
    (member : q ∈ p.modes ending) {limit : Nat} (items : List (Except E (Token S V)))
    (room : c.bound * items.length + slack < limit) :
    (q.run limit items).Orderly c.bound slack fun f =>
      ∃ rule children args, Tree.Faulty p.grammar rule children args f ∧
        ∀ token ∈ Tree.leavesAll children, .ok token ∈ items := by
  have orderly := (h.of_mem_modes member).run_orderly items room
  rw [grammar_of_mem_modes member] at orderly
  exact orderly

end Parser

end ShiftReduce
