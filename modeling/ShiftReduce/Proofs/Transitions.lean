import ShiftReduce.Proofs.Discipline
import ShiftReduce.Proofs.Forest
/-!
Shift-reduce parsing as a transition system: one rule for each thing that a configuration can do,
over plain lists of states and values with their tops first. A run ends with an outcome and a list
of steps if and only if the system, started with state 0 and no values, comes to that outcome
through those steps.
-/
namespace ShiftReduce

variable {S V E : Type}

inductive Rule.Yields (rule : Rule S V) : List V → V → Prop where
  | called {callback : Callback V} {args : List V} {value : V}
      (called : rule.callback = some callback) (applied : callback.apply args = .ok value) :
      rule.Yields args value
  | passed {value : V} (plain : rule.callback = none) : rule.Yields [value] value

theorem Rule.yields_iff {rule : Rule S V} {args : List V} {value : V} :
    rule.combine args = .ok value ↔ rule.Yields args value := by
  constructor
  · intro combined
    cases called : rule.callback with
    | some callback =>
      rw [combine_callback called] at combined
      cases applied : callback.apply args with
      | ok v =>
        rw [applied] at combined
        cases combined
        exact .called called applied
      | error f =>
        rw [applied] at combined
        cases combined
    | none =>
      unfold combine at combined
      rw [called] at combined
      match args with
      | [] => cases combined
      | [v] =>
        cases combined
        exact .passed called
      | _ :: _ :: _ => cases combined
  · intro yields
    cases yields with
    | called called applied =>
      rw [combine_callback called, applied]
      rfl
    | passed plain =>
      unfold combine
      rw [plain]

/-- From this stack the values `args`, in the order in which they were pushed, and as many states
can be popped, and `rest` is left. -/
inductive Stack.Pops : Stack V → List V → Stack V → Prop where
  | intro {handle below : List Nat} {args kept : List V} (count : handle.length = args.length) :
      Stack.Pops ⟨handle ++ below, args.reverse ++ kept⟩ args ⟨below, kept⟩

namespace Parser

variable [DecidableEq S]

def Selects (p : Parser S V) (c : Config S V E) (top : Nat) (action : Action) : Prop :=
  c.stack.states.head? = some top ∧
    ∃ symbol, p.lookahead? c.rest = some symbol ∧ p.table.action? top symbol = some action

/-- A configuration, the step that it makes and the configuration after it. A shift drops the token
at hand. A reduction pops a state and a value for each component of the rule, and the state that is
then on the top determines the next one. -/
inductive Transition (p : Parser S V) : Config S V E → Step → Config S V E → Prop where
  | shift {top next : Nat} {states : List Nat} {values : List V} {token : Token S V}
      {rest : List (Except E (Token S V))}
      (selected : p.Selects ⟨⟨states, values⟩, .ok token :: rest⟩ top (.shift next)) :
      Transition p ⟨⟨states, values⟩, .ok token :: rest⟩
        ⟨top, .shift next, states.length + 1, values.length + 1⟩
        ⟨⟨next :: states, token.value :: values⟩, rest⟩
  | reduce {stack : Stack V} {rest : List (Except E (Token S V))} {top base next id : Nat}
      {rule : Rule S V} {below : List Nat} {args kept : List V} {value : V}
      (selected : p.Selects ⟨stack, rest⟩ top (.reduce id))
      (found : p.grammar.rule? id = some rule) (count : args.length = rule.arity)
      (pops : stack.Pops args ⟨base :: below, kept⟩) (yields : rule.Yields args value)
      (target : p.table.goto? base rule.name = some next) :
      Transition p ⟨stack, rest⟩ ⟨top, .reduce id, below.length + 2, kept.length + 1⟩
        ⟨⟨next :: base :: below, value :: kept⟩, rest⟩

/-- A configuration in which the system stops, the step that it still reports and the outcome. -/
inductive Stops (p : Parser S V) : Config S V E → List Step → Outcome S V E → Prop where
  | lexer {stack : Stack V} {e : E} {rest : List (Except E (Token S V))} :
      Stops p ⟨stack, .error e :: rest⟩ [] (.error (.lexer e))
  | unexpectedToken {stack : Stack V} {token : Token S V} {rest : List (Except E (Token S V))}
      {top : Nat} (here : stack.states.head? = some top)
      (absent : p.table.action? top token.symbol = none) :
      Stops p ⟨stack, .ok token :: rest⟩ []
        (.error (.unexpectedToken token top (p.table.expected top)))
  | exhausted {stack : Stack V} {top : Nat} (here : stack.states.head? = some top)
      (explicit : p.endOfInput = none) :
      Stops p ⟨stack, []⟩ [] (.error (.unexpectedEnd top (p.table.expected top)))
  | unexpectedEnd {stack : Stack V} {top : Nat} {symbol : S}
      (here : stack.states.head? = some top) (ending : p.endOfInput = some symbol)
      (absent : p.table.action? top symbol = none) :
      Stops p ⟨stack, []⟩ [] (.error (.unexpectedEnd top (p.table.expected top)))
  | shiftAtEnd {stack : Stack V} {top next : Nat}
      (selected : p.Selects (E := E) ⟨stack, []⟩ top (.shift next)) :
      Stops p ⟨stack, []⟩ [] (.error (.table (.shiftAtEnd top)))
  | unknownRule {c : Config S V E} {top id : Nat} (selected : p.Selects c top (.reduce id))
      (unknown : p.grammar.rule? id = none) :
      Stops p c [] (.error (.table (.unknownRule top id)))
  | stackUnderflow {c : Config S V E} {top id : Nat} {rule : Rule S V}
      (selected : p.Selects c top (.reduce id)) (found : p.grammar.rule? id = some rule)
      (short : c.stack.values.length < rule.arity) :
      Stops p c []
        (.error (.table (.stackUnderflow id rule.arity c.stack.values.length)))
  | missingCallback {c : Config S V E} {top id : Nat} {rule : Rule S V}
      (selected : p.Selects c top (.reduce id)) (found : p.grammar.rule? id = some rule)
      (enough : rule.arity ≤ c.stack.values.length) (plain : rule.callback = none)
      (several : rule.arity ≠ 1) :
      Stops p c [] (.error (.table (.missingCallback id rule.arity)))
  | fault {stack below : Stack V} {rest : List (Except E (Token S V))} {top id : Nat}
      {rule : Rule S V} {args : List V} {callback : Callback V} {f : Fault V}
      (selected : p.Selects ⟨stack, rest⟩ top (.reduce id))
      (found : p.grammar.rule? id = some rule) (count : args.length = rule.arity)
      (pops : stack.Pops args below) (called : rule.callback = some callback)
      (failed : callback.apply args = .error f) :
      Stops p ⟨stack, rest⟩ [] (.fault f)
  | missingGoto {stack : Stack V} {rest : List (Except E (Token S V))} {top base id : Nat}
      {rule : Rule S V} {below : List Nat} {args kept : List V} {value : V}
      (selected : p.Selects ⟨stack, rest⟩ top (.reduce id))
      (found : p.grammar.rule? id = some rule) (count : args.length = rule.arity)
      (pops : stack.Pops args ⟨base :: below, kept⟩) (yields : rule.Yields args value)
      (missing : p.table.goto? base rule.name = none) :
      Stops p ⟨stack, rest⟩ [] (.error (.table (.missingGoto base rule.name)))
  | accept {states : List Nat} {value : V} {rest : List (Except E (Token S V))} {top : Nat}
      (selected : p.Selects ⟨⟨states, [value]⟩, rest⟩ top .accept) :
      Stops p ⟨⟨states, [value]⟩, rest⟩ [⟨top, .accept, states.length, 1⟩] (.value value)
  | invalidAccept {states : List Nat} {values : List V} {rest : List (Except E (Token S V))}
      {top : Nat} (selected : p.Selects ⟨⟨states, values⟩, rest⟩ top .accept)
      (several : values.length ≠ 1) :
      Stops p ⟨⟨states, values⟩, rest⟩ [⟨top, .accept, states.length, values.length⟩]
        (.error (.table (.invalidAccept values.length)))

inductive Finishes (p : Parser S V) : Config S V E → List Step → Outcome S V E → Prop where
  | stop {c : Config S V E} {ss : List Step} {o : Outcome S V E} (last : p.Stops c ss o) :
      Finishes p c ss o
  | go {c d : Config S V E} {s : Step} {ss : List Step} {o : Outcome S V E}
      (first : p.Transition c s d) (later : Finishes p d ss o) : Finishes p c (s :: ss) o

end Parser

namespace Stack

variable {stack below : Stack V} {args : List V}

theorem pops_operands {count : Nat} (states : stack.states.length = stack.values.length + 1)
    (enough : count ≤ stack.values.length) :
    stack.Pops (stack.operands count) (stack.pop count) := by
  have handle : (stack.states.take count).length = (stack.operands count).length := by
    rw [length_operands enough, List.length_take, states]
    omega
  have pops : Pops ⟨stack.states.take count ++ stack.states.drop count,
      (stack.operands count).reverse ++ stack.values.drop count⟩ (stack.operands count)
      (stack.pop count) := .intro handle
  rw [List.take_append_drop, operands, List.reverse_reverse, List.take_append_drop] at pops
  exact pops

theorem Pops.operands (h : stack.Pops args below) : stack.operands args.length = args := by
  cases h with
  | intro count =>
    rw [Stack.operands, List.take_append_of_le_length (by simp), ← List.length_reverse,
      List.take_length, List.reverse_reverse]

theorem Pops.pop (h : stack.Pops args below) : stack.pop args.length = below := by
  cases h with
  | intro count =>
    rw [Stack.pop, ← count, List.drop_left, count, ← List.length_reverse, List.drop_left]

theorem Pops.enough (h : stack.Pops args below) : args.length ≤ stack.values.length := by
  cases h with
  | intro count => simp

theorem current_of_head? {top : Nat} (here : stack.states.head? = some top) :
    stack.current = top := by
  rw [current, List.headD_eq_head?_getD, here]
  rfl

end Stack

namespace Parser

variable [DecidableEq S] {p : Parser S V} {c d : Config S V E} {s : Step} {ss : List Step}
  {o : Outcome S V E}

theorem Selects.entry {top : Nat} {action : Action} (h : p.Selects c top action) :
    ∃ symbol, p.lookahead? c.rest = some symbol ∧
      p.table.action? c.stack.current symbol = some action := by
  obtain ⟨here, symbol, look, entry⟩ := h
  rw [← Stack.current_of_head? here] at entry
  exact ⟨symbol, look, entry⟩

theorem reduction_of_pops {stack below : Stack V} {args : List V} {id : Nat} {rule : Rule S V}
    (found : p.grammar.rule? id = some rule) (count : args.length = rule.arity)
    (pops : stack.Pops args below) :
    p.reduction stack id = (rule.combine args).bind fun value =>
      match p.table.goto? below.current rule.name with
      | none => .error (.table (.missingGoto below.current rule.name))
      | some next => .ok (below.push next value) := by
  have enough := pops.enough
  simp only [reduction, found, ← count, Nat.not_lt.2 enough, if_false, pops.operands, pops.pop]
  cases rule.combine args with
  | error cause => rfl
  | ok value => rfl

theorem transition_iff (deep : c.stack.states.length = c.stack.values.length + 1) :
    p.move c = .go s d ↔ p.Transition c s d := by
  constructor
  · intro move
    obtain ⟨stack, rest⟩ := c
    have here : stack.states.head? = some stack.current := Stack.head?_pop deep (Nat.zero_le _)
    rcases move_go_cases move with
      ⟨token, rest, next, rfl, entry, rfl, rfl⟩ | ⟨symbol, id, after, look, entry, done, rfl, rfl⟩
    · exact .shift ⟨here, token.symbol, rfl, entry⟩
    · obtain ⟨rule, value, next, found, enough, combined, target, rfl⟩ := reduction_cases done
      have count := Stack.length_operands enough
      have pops := Stack.pops_operands deep enough
      have exposed := Stack.head?_pop deep enough
      cases popped : stack.pop rule.arity with
      | mk states kept =>
        rw [popped] at pops exposed target
        cases states with
        | nil => cases exposed
        | cons base below =>
          exact .reduce ⟨here, symbol, look, entry⟩ found count pops (Rule.yields_iff.1 combined)
            target
  · intro transition
    cases transition with
    | shift selected =>
      obtain ⟨here, symbol, look, entry⟩ := selected
      obtain rfl := Option.some.inj look
      obtain rfl := Stack.current_of_head? here
      exact move_of_shift rfl entry
    | @reduce stack rest top base next id rule below args kept value selected found count pops yields
        target =>
      obtain rfl := Stack.current_of_head? selected.1
      obtain ⟨symbol, look, entry⟩ := selected.entry
      have done : p.reduction stack id = .ok ⟨next :: base :: below, value :: kept⟩ := by
        rw [reduction_of_pops found count pops, Rule.yields_iff.2 yields]
        have target :
            p.table.goto? (⟨base :: below, kept⟩ : Stack V).current rule.name = some next :=
          target
        simp only [Except.bind, target]
        rfl
      exact move_of_reduce look entry done

theorem stops_of_refusal (deep : c.stack.states.length = c.stack.values.length + 1)
    (free : ∀ symbol, p.lookahead? c.rest = some symbol →
      p.table.action? c.state symbol = none) : p.Stops c [] (p.refusal c) := by
  obtain ⟨stack, rest⟩ := c
  have here : stack.states.head? = some stack.current := Stack.head?_pop deep (Nat.zero_le _)
  match rest with
  | [] =>
    cases ending : p.endOfInput with
    | none => exact .exhausted here ending
    | some symbol => exact .unexpectedEnd here ending (free symbol ending)
  | .ok token :: rest => exact .unexpectedToken here (free token.symbol rfl)
  | .error e :: rest => exact .lexer

theorem stops_of_breakdown (deep : c.stack.states.length = c.stack.values.length + 1) {id : Nat}
    {cause : Breakdown S V} (selected : p.Selects c c.state (.reduce id))
    (failed : p.reduction c.stack id = .error cause) : p.Stops c [] cause.outcome := by
  rcases reduction_error_cases failed with
    ⟨unknown, rfl⟩ | ⟨rule, found, ⟨short, rfl⟩ | ⟨enough, combined⟩⟩
  · exact .unknownRule selected unknown
  · rw [Grammar.id_of_rule? found]
    exact .stackUnderflow selected found short
  · have count := Stack.length_operands enough
    have pops := Stack.pops_operands deep enough
    rcases combined with combined | ⟨value, combined, missing, rfl⟩
    · rcases Rule.combine_error_cases count combined with
        ⟨callback, f, called, applied, rfl⟩ | ⟨plain, several, rfl⟩
      · exact .fault selected found count pops called applied
      · rw [Grammar.id_of_rule? found]
        exact .missingCallback selected found enough plain several
    · have exposed := Stack.head?_pop deep enough
      cases popped : c.stack.pop rule.arity with
      | mk states kept =>
        rw [popped] at pops exposed missing
        cases states with
        | nil => cases exposed
        | cons base below =>
          exact .missingGoto selected found count pops (Rule.yields_iff.1 combined) missing

theorem stops_of_accept (selected : p.Selects c c.state .accept) :
    p.Stops c [c.stack.step c.state .accept] c.stack.acceptance := by
  obtain ⟨⟨states, values⟩, rest⟩ := c
  match values with
  | [] => exact .invalidAccept selected Nat.zero_ne_one
  | [value] => exact .accept selected
  | first :: second :: values =>
    have several : (first :: second :: values).length ≠ 1 := by simp
    exact .invalidAccept selected several

theorem move_of_selected_breakdown (cause : Breakdown S V) {top id : Nat}
    (selected : p.Selects c top (.reduce id)) (failed : p.reduction c.stack id = .error cause) :
    p.move c = .halt [] cause.outcome := by
  obtain ⟨stack, rest⟩ := c
  obtain ⟨symbol, look, entry⟩ := selected.entry
  exact move_of_breakdown look entry failed

theorem stops_iff (deep : c.stack.states.length = c.stack.values.length + 1) :
    p.move c = .halt ss o ↔ p.Stops c ss o := by
  have here : c.stack.states.head? = some c.state := Stack.head?_pop deep (Nat.zero_le _)
  constructor
  · intro move
    rcases move_halt_cases move with
      ⟨free, rfl, rfl⟩ | ⟨symbol, look, ⟨next, entry, done, rfl, rfl⟩ |
        ⟨id, cause, entry, failed, rfl, rfl⟩ | ⟨entry, rfl, rfl⟩⟩
    · exact stops_of_refusal deep free
    · obtain ⟨stack, rest⟩ := c
      obtain rfl : rest = [] := done
      exact .shiftAtEnd ⟨here, symbol, look, entry⟩
    · exact stops_of_breakdown deep ⟨here, symbol, look, entry⟩ failed
    · exact stops_of_accept ⟨here, symbol, look, entry⟩
  · intro stops
    cases stops with
    | lexer => exact move_of_no_lookahead rfl
    | unexpectedToken top absent =>
      obtain rfl := Stack.current_of_head? top
      exact move_of_reject rfl absent
    | exhausted top explicit =>
      obtain rfl := Stack.current_of_head? top
      exact move_of_no_lookahead explicit
    | unexpectedEnd top ending absent =>
      obtain rfl := Stack.current_of_head? top
      exact move_of_reject ending absent
    | shiftAtEnd selected =>
      obtain rfl := Stack.current_of_head? selected.1
      obtain ⟨symbol, look, entry⟩ := selected.entry
      exact move_of_shift look entry
    | unknownRule selected unknown =>
      apply move_of_selected_breakdown (.table (.unknownRule _ _)) selected
      rw [← Stack.current_of_head? selected.1]
      simp only [reduction, unknown]
    | stackUnderflow selected found short =>
      apply move_of_selected_breakdown (.table (.stackUnderflow _ _ _)) selected
      simp only [reduction, found, short, if_true, Grammar.id_of_rule? found]
    | missingCallback selected found enough plain several =>
      apply move_of_selected_breakdown (.table (.missingCallback _ _)) selected
      have missing := Rule.combine_of_several plain several (Stack.length_operands enough)
      simp only [reduction, found, Nat.not_lt.2 enough, if_false, missing,
        Grammar.id_of_rule? found]
    | fault selected found count pops called failed =>
      apply move_of_selected_breakdown (.fault _) selected
      rw [reduction_of_pops found count pops, Rule.combine_callback called, failed]
      rfl
    | missingGoto selected found count pops yields missing =>
      apply move_of_selected_breakdown (.table (.missingGoto _ _)) selected
      rw [reduction_of_pops found count pops, Rule.yields_iff.2 yields]
      simp only [Except.bind, Stack.current, List.headD_cons, missing]
    | accept selected =>
      obtain rfl := Stack.current_of_head? selected.1
      obtain ⟨symbol, look, entry⟩ := selected.entry
      exact move_of_accept look entry
    | invalidAccept selected several =>
      obtain rfl := Stack.current_of_head? selected.1
      obtain ⟨symbol, look, entry⟩ := selected.entry
      exact (move_of_accept look entry).trans (congrArg _ (Stack.acceptance_of_several several))

theorem halts_iff {items : List (Except E (Token S V))} {ts : List Step}
    (reached : p.Steps (.initial items) ts c) : p.Halts c ss o ↔ p.Finishes c ss o := by
  -- the system reads tops of lists and the machine has defaults, which agree on reached stacks only
  constructor
  · intro halts
    induction halts generalizing ts with
    | stop last => exact .stop ((stops_iff reached.disciplined.states).1 last)
    | go first _ ih =>
      have transition := (transition_iff reached.disciplined.states).1 first
      exact .go transition (ih (reached.trans (.single first)))
  · intro finishes
    induction finishes generalizing ts with
    | stop last => exact .stop ((stops_iff reached.disciplined.states).2 last)
    | go first _ ih =>
      have move := (transition_iff reached.disciplined.states).2 first
      exact .go move (ih (reached.trans (.single move)))

/-- A run that is not cut off ends with this outcome and these steps if and only if the transition
system, started in state 0 with no values, does; and it is not cut off if the limit is above the
number of reductions. -/
theorem run_iff_finishes (p : Parser S V) (items : List (Except E (Token S V))) (ss : List Step)
    (o : Outcome S V E) :
    (p.Finishes ⟨⟨[0], []⟩, items⟩ ss o ↔
      o ≠ .unfinished ∧ ∃ limit, (p.run limit items).outcome = o ∧ (p.run limit items).steps = ss) ∧
    (p.Finishes ⟨⟨[0], []⟩, items⟩ ss o → ∀ limit, (reductions ss).length < limit →
      (p.run limit items).outcome = o ∧ (p.run limit items).steps = ss) := by
  have start : p.Halts (.initial items) ss o ↔ p.Finishes ⟨⟨[0], []⟩, items⟩ ss o :=
    halts_iff (.refl _)
  rw [← start]
  have completes (halts : p.Halts (.initial items) ss o) (limit : Nat)
      (room : (reductions ss).length < limit) :
      (p.run limit items).outcome = o ∧ (p.run limit items).steps = ss :=
    run_of_halts halts room
  refine ⟨⟨?_, ?_⟩, completes⟩
  · intro halts
    exact ⟨halts.finished, _, completes halts _ (Nat.lt_succ_self _)⟩
  · rintro ⟨ended, limit, rfl, rfl⟩
    exact halts_of_run ended

def twoTimesThreeSteps : List Step :=
  [⟨0, .shift 1, 2, 1⟩, ⟨1, .reduce 7, 2, 1⟩, ⟨6, .reduce 6, 2, 1⟩, ⟨5, .reduce 4, 2, 1⟩,
    ⟨4, .shift 9, 3, 2⟩, ⟨9, .shift 1, 4, 3⟩, ⟨1, .reduce 7, 4, 3⟩, ⟨6, .reduce 6, 4, 3⟩,
    ⟨13, .reduce 3, 2, 1⟩, ⟨4, .reduce 2, 2, 1⟩, ⟨3, .accept, 2, 1⟩]

theorem two_times_three_finishes :
    let p := Arithmetic.parser.endingWith "$eof"
    p.Finishes ⟨⟨[0], []⟩, twoTimesThree⟩ twoTimesThreeSteps (.value 6) ∧
      (p.run 8 twoTimesThree).outcome = .value 6 ∧
      (p.run 8 twoTimesThree).steps = twoTimesThreeSteps := by
  intro p
  obtain ⟨finishes, completes⟩ := run_iff_finishes p twoTimesThree twoTimesThreeSteps (.value 6)
  have ended : (Outcome.value 6 : Outcome String Int Unit) ≠ .unfinished := by simp
  have finished := finishes.2 ⟨ended, 9, rfl, by decide⟩
  exact ⟨finished, completes finished 8 (by decide)⟩

end Parser

end ShiftReduce
