import ShiftReduce.Proofs.Pulled
import ShiftReduce.Proofs.Stages
/-!
What an error says about its run. The reported steps, replayed on a stack of states, lead to the
state in which the run has ended, and the items that they do not shift begin with the one that is
the lookahead there. Each error names this state, this item or the entry that is found for them, and
the numbers that it gives are those of the rule and of the stack.
-/
namespace ShiftReduce

variable {S V E : Type}

namespace Parser

variable [DecidableEq S] {p : Parser S V}

section Replay

def replay (p : Parser S V) (states : List Nat) (s : Step) : List Nat :=
  match s.action with
  | .shift next => next :: states
  | .reduce id =>
    match p.grammar.rule? id with
    | none => states
    | some rule =>
      let below := states.drop rule.arity
      (p.table.goto? (below.headD 0) rule.name).toList ++ below
  | .accept => states

def statesAfter (p : Parser S V) (ss : List Step) : List Nat := ss.foldl p.replay [0]

def stateAfter (p : Parser S V) (ss : List Step) : Nat := (p.statesAfter ss).headD 0

theorem statesAfter_concat (ss : List Step) (s : Step) :
    p.statesAfter (ss ++ [s]) = p.replay (p.statesAfter ss) s := by
  simp [statesAfter, List.foldl_append]

variable {items : List (Except E (Token S V))} {c : Config S V E} {ss : List Step}
  {forest : List (Tree S V)}

theorem Grown.replayed (h : p.Grown items c ss forest) : p.statesAfter ss = c.stack.states := by
  induction h with
  | start => rfl
  | shift before entry ih =>
    rw [statesAfter_concat, ih]
    rfl
  | @reduce stack rest ss forest symbol id next rule value _ _ _ found _ _ target ih =>
    rw [statesAfter_concat, ih]
    have base : p.table.goto? ((stack.states.drop rule.arity).headD 0) rule.name = some next := target
    simp only [replay, Stack.step, found, base]
    rfl

theorem Grown.split (h : p.Grown items c ss forest) :
    (∃ tokens : List (Token S V), items.take (shiftCount ss) = tokens.map .ok) ∧
      c.rest = items.drop (shiftCount ss) := by
  have count : ((Tree.leavesAll forest.reverse).map (Except.ok (ε := E))).length =
      shiftCount ss := by
    rw [List.length_map, h.shifts]
  rw [h.consumed]
  exact ⟨⟨_, List.take_left' count⟩, (List.drop_left' count).symm⟩

end Replay

structure EndsIn (p : Parser S V) (items : List (Except E (Token S V))) (run : Run S V E)
    (d : Config S V E) : Prop where
  states : p.statesAfter run.steps = d.stack.states
  values : (d.stack.values.length : Int) = p.grammar.depthAfter run.steps
  rest : d.rest = items.drop run.shiftCount
  few : run.shiftCount ≤ items.length
  shifted : ∃ tokens : List (Token S V), items.take run.shiftCount = tokens.map .ok

variable {limit : Nat} {items : List (Except E (Token S V))} {d : Config S V E}

theorem EndsIn.state {run : Run S V E} (h : p.EndsIn items run d) :
    d.state = p.stateAfter run.steps := by
  unfold stateAfter
  rw [h.states]
  rfl

theorem endsIn_of_steps {run : Run S V E} {ss : List Step} {last : List Step}
    (steps : p.Steps (.initial items) ss d) (split : run.steps = ss ++ last)
    (kept : last = [] ∨ last = [d.stack.step d.state .accept]) : p.EndsIn items run d := by
  obtain ⟨forest, grown⟩ := steps.grown
  have values := steps.disciplined.values
  have count : run.shiftCount = shiftCount ss := by
    unfold Run.shiftCount
    rcases kept with rfl | rfl
    · rw [split, List.append_nil]
    · rw [split, shiftCount_append]
      rfl
  obtain ⟨tokens, rest⟩ := grown.split
  rw [← count] at tokens rest
  have few := grown.shifts_le
  rw [← count] at few
  refine ⟨?_, ?_, rest, few, tokens⟩
  · rcases kept with rfl | rfl
    · rw [split, List.append_nil, grown.replayed]
    · rw [split, statesAfter_concat, grown.replayed]
      rfl
  · rcases kept with rfl | rfl
    · rw [split, List.append_nil, values]
    · rw [split, Grammar.depthAfter_append, Stack.step, Grammar.depthAfter_accept, values,
        Int.add_zero]

theorem run_endsIn (ended : (p.run limit items).outcome ≠ .unfinished) :
    ∃ d ts, p.EndsIn items (p.run limit items) d ∧
      p.move d = .halt ts (p.run limit items).outcome := by
  obtain ⟨d, ss, ts, split, steps, last⟩ := (halts_of_run ended).last_move
  refine ⟨d, ts, endsIn_of_steps steps split ?_, last⟩
  rcases move_halt_accepted last with ⟨none, _⟩ | ⟨accept, _⟩
  · exact .inl none
  · exact .inr accept

def actionAtEnd (p : Parser S V) (items : List (Except E (Token S V))) (run : Run S V E) :
    Option Action :=
  (p.lookahead? (items.drop run.shiftCount)).bind (p.table.action? (p.stateAfter run.steps))

structure Exhausted (items : List (Except E (Token S V))) (run : Run S V E) : Prop where
  shifted : run.shiftCount = items.length
  tokens : ∃ tokens : List (Token S V), items = tokens.map .ok

end Parser

section Holds

variable [DecidableEq S] (p : Parser S V) (items : List (Except E (Token S V))) (run : Run S V E)

def TableError.Holds : TableError S → Prop
  | .unknownRule state id =>
    state = p.stateAfter run.steps ∧ p.actionAtEnd items run = some (.reduce id) ∧
      p.grammar.rule? id = none
  | .missingCallback id arity =>
    p.actionAtEnd items run = some (.reduce id) ∧
      ∃ rule, p.grammar.rule? id = some rule ∧ rule.callback = none ∧
        arity = rule.components.length ∧ arity ≠ 1
  | .stackUnderflow id arity available =>
    p.actionAtEnd items run = some (.reduce id) ∧
      ∃ rule, p.grammar.rule? id = some rule ∧ arity = rule.components.length ∧
        (available : Int) = p.grammar.depthAfter run.steps ∧ available < arity
  | .missingGoto state symbol =>
    ∃ id rule, p.actionAtEnd items run = some (.reduce id) ∧ p.grammar.rule? id = some rule ∧
      symbol = rule.name ∧ (rule.components.length : Int) ≤ p.grammar.depthAfter run.steps ∧
      state = ((p.statesAfter run.steps).drop rule.components.length).headD 0 ∧
      p.table.goto? state symbol = none
  | .invalidAccept values =>
    p.actionAtEnd items run = some .accept ∧
      (values : Int) = p.grammar.depthAfter run.steps ∧ values ≠ 1
  | .shiftAtEnd state =>
    Parser.Exhausted items run ∧ state = p.stateAfter run.steps ∧
      ∃ symbol next, p.endOfInput = some symbol ∧
        p.table.action? state symbol = some (.shift next)
  | .unknownNonterminal _ _ => False

/-- What an error says is so at the end of the run. -/
def ParseError.Holds : ParseError S V E → Prop
  | .lexer e => run.pulled = run.shiftCount + 1 ∧ items[run.shiftCount]? = some (.error e)
  | .unexpectedToken token state expected =>
    run.pulled = run.shiftCount + 1 ∧ items[run.shiftCount]? = some (.ok token) ∧
      state = p.stateAfter run.steps ∧ p.table.action? state token.symbol = none ∧
      expected = p.table.expected state ∧ expected.Nodup ∧ token.symbol ∉ expected
  | .unexpectedEnd state expected =>
    Parser.Exhausted items run ∧ state = p.stateAfter run.steps ∧
      expected = p.table.expected state ∧ expected.Nodup ∧
      ∀ symbol, p.endOfInput = some symbol →
        p.table.action? state symbol = none ∧ symbol ∉ expected
  | .table error => error.Holds p items run

end Holds

namespace Parser

variable [DecidableEq S] {p : Parser S V} {limit : Nat} {items : List (Except E (Token S V))}
  {d : Config S V E} {run : Run S V E}

namespace EndsIn

theorem action (h : p.EndsIn items run d) {symbol : S} {action : Action}
    (look : p.lookahead? d.rest = some symbol)
    (entry : p.table.action? d.state symbol = some action) :
    p.actionAtEnd items run = some action := by
  unfold actionAtEnd
  rw [← h.rest, look, ← h.state]
  exact entry

theorem exhausted (h : p.EndsIn items run d) (done : d.rest = []) : Exhausted items run := by
  have left := h.rest
  rw [done] at left
  have all : run.shiftCount = items.length :=
    Nat.le_antisymm h.few (List.drop_eq_nil_iff.1 left.symm)
  refine ⟨all, ?_⟩
  obtain ⟨tokens, taken⟩ := h.shifted
  rw [all, List.take_length] at taken
  exact ⟨tokens, taken⟩

theorem item (h : p.EndsIn items run d) {item : Except E (Token S V)}
    {rest : List (Except E (Token S V))} (next : d.rest = item :: rest) :
    items[run.shiftCount]? = some item := by
  have left := h.rest
  rw [next] at left
  have first := congrArg List.head? left
  rw [List.head?_drop] at first
  exact first.symm

theorem refusal_holds (h : p.EndsIn items run d)
    (pulled : run.pulled = min items.length (run.shiftCount + 1))
    (none : ∀ symbol, p.lookahead? d.rest = some symbol →
      p.table.action? d.state symbol = Option.none) {e : ParseError S V E}
    (refused : .error e = p.refusal d) : e.Holds p items run := by
  obtain ⟨stack, rest⟩ := d
  cases rest with
  | nil =>
    cases refused
    refine ⟨h.exhausted rfl, h.state, rfl, Table.expected_nodup _ _, ?_⟩
    intro symbol ending
    exact ⟨none symbol ending, Table.action?_eq_none_iff.1 (none symbol ending)⟩
  | cons item rest =>
    have next := h.item rfl
    have inside := (List.getElem?_eq_some_iff.1 next).1
    have one : run.pulled = run.shiftCount + 1 := by omega
    cases item with
    | error e =>
      cases refused
      exact ⟨one, next⟩
    | ok token =>
      cases refused
      have absent := none token.symbol rfl
      exact ⟨one, next, h.state, absent, rfl, Table.expected_nodup _ _,
        Table.action?_eq_none_iff.1 absent⟩

theorem breakdown_holds (h : p.EndsIn items run d) {id : Nat} {error : TableError S}
    (found : p.actionAtEnd items run = some (.reduce id))
    (failed : p.reduction d.stack id = .error (.table error)) : error.Holds p items run := by
  rcases reduction_error_cases failed with
    ⟨absent, cause⟩ | ⟨rule, known, ⟨short, cause⟩ | ⟨enough, combined | ⟨_, _, missing, cause⟩⟩⟩
  · cases cause
    exact ⟨h.state, found, absent⟩
  · cases cause
    rw [Grammar.id_of_rule? known]
    exact ⟨found, rule, known, rfl, h.values, short⟩
  · rcases Rule.combine_error_cases (Stack.length_operands enough) combined with
      ⟨_, _, _, _, cause⟩ | ⟨plain, several, cause⟩
    · cases cause
    · cases cause
      rw [Grammar.id_of_rule? known]
      exact ⟨found, rule, known, plain, rfl, several⟩
  · cases cause
    refine ⟨id, rule, found, known, rfl, ?_, ?_, missing⟩
    · rw [← h.values]
      exact Int.ofNat_le.2 enough
    · rw [h.states]
      rfl

end EndsIn

/-- Every error tells the truth about the table, the grammar and the items, where the run that it
ends has come to. -/
theorem errors_hold (p : Parser S V) (limit : Nat) (items : List (Except E (Token S V)))
    (e : ParseError S V E) (failed : (p.run limit items).outcome = .error e) :
    e.Holds p items (p.run limit items) := by
  have ended : (p.run limit items).outcome ≠ .unfinished := by simp [failed]
  obtain ⟨d, ts, endsIn, last⟩ := run_endsIn ended
  have pulled := run_pulled p limit items
  rw [failed] at last
  rcases move_halt_cases last with
    ⟨none, _, refused⟩ | ⟨symbol, look, ⟨next, entry, done, _, cause⟩ |
      ⟨id, cause, entry, broken, _, same⟩ | ⟨entry, _, accepted⟩⟩
  · exact endsIn.refusal_holds pulled none refused
  · cases cause
    refine ⟨endsIn.exhausted done, endsIn.state, symbol, next, ?_, entry⟩
    rw [done] at look
    exact look
  · cases cause with
    | fault f => cases same
    | table error =>
      cases same
      exact endsIn.breakdown_holds (endsIn.action look entry) broken
  · have several : d.stack.values.length ≠ 1 := by
      intro one
      obtain ⟨v, only⟩ := List.length_eq_one_iff.1 one
      unfold Stack.acceptance at accepted
      rw [only] at accepted
      cases accepted
    rw [Stack.acceptance_of_several several] at accepted
    cases accepted
    exact ⟨endsIn.action look entry, endsIn.values, several⟩

def closedOne : List (Except Unit (Token String Int)) :=
  [.ok ⟨"INT", 1, none⟩, .ok ⟨")", 0, none⟩]

/-- The parenthesis is rejected in state 3, four reductions after the state that 1 was shifted to. -/
theorem closed_one_holds :
    let run := Arithmetic.parser.run 9 closedOne
    let e : ParseError String Int Unit := .unexpectedToken ⟨")", 0, none⟩ 3 ["+", "$eof"]
    run.outcome = .error e ∧ run.steps.map Step.state = [0, 1, 6, 5, 4] ∧
      e.Holds Arithmetic.parser closedOne run := by
  intro run e
  have failed : run.outcome = .error e := rfl
  exact ⟨failed, rfl, errors_hold Arithmetic.parser 9 closedOne e failed⟩

end Parser

end ShiftReduce
