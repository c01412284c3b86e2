import ShiftReduce.Proofs.Machine
/-!
A run of the parser is a history of the abstract machine, cut off where the limit on reductions
is met. A run that is not cut off has the steps and the outcome of the machine, and a limit above
the number of reductions of a halting history never cuts it off.
-/
namespace ShiftReduce

variable {S V E : Type}

def Progress.steps (r : Progress S V) : List Step := r.reports.toList.map Report.step

def Run.reductions (r : Run S V E) : List Nat := ShiftReduce.reductions r.steps

def Run.shiftCount (r : Run S V E) : Nat := ShiftReduce.shiftCount r.steps

namespace Progress

@[simp] theorem stack_note (r : Progress S V) (entry : LogEntry S V) :
    (r.note entry).stack = r.stack := rfl

@[simp] theorem steps_note (r : Progress S V) (entry : LogEntry S V) :
    (r.note entry).steps = r.steps := rfl

@[simp] theorem stack_pull (r : Progress S V) : r.pull.stack = r.stack := rfl

@[simp] theorem steps_pull (r : Progress S V) : r.pull.steps = r.steps := rfl

@[simp] theorem stack_push (r : Progress S V) (state : Nat) (value : V) :
    (r.push state value).stack = r.stack.push state value := rfl

@[simp] theorem steps_push (r : Progress S V) (state : Nat) (value : V) :
    (r.push state value).steps = r.steps := rfl

@[simp] theorem stack_report (r : Progress S V) (state : Nat) (action : Action) :
    (r.report state action).stack = r.stack := rfl

@[simp] theorem steps_report (r : Progress S V) (state : Nat) (action : Action) :
    (r.report state action).steps = r.steps ++ [r.stack.step state action] := by
  simp [steps, report, Stack.step]

@[simp] theorem steps_shift (r : Progress S V) (state next : Nat) (token : Token S V) :
    (r.shift state token next).steps =
      r.steps ++ [(r.stack.push next token.value).step state (.shift next)] := by
  rw [shift, steps_report, steps_push, steps_note, stack_push, stack_note]

/-- Remarks change nothing but the log. -/
theorem remarks_eq (texts : List String) (r : Progress S V) :
    texts.foldl (fun r text => r.note (.remark text)) r =
      { r with log := r.log ++ (texts.map LogEntry.remark).toArray } := by
  induction texts generalizing r with
  | nil => simp
  | cons text texts ih =>
    rw [List.foldl_cons, ih]
    simp [note]

@[simp] theorem stack_remarks (texts : List String) (r : Progress S V) :
    (texts.foldl (fun r text => r.note (.remark text)) r).stack = r.stack := by
  rw [remarks_eq]

@[simp] theorem steps_remarks (texts : List String) (r : Progress S V) :
    (texts.foldl (fun r text => r.note (.remark text)) r).steps = r.steps := by
  rw [remarks_eq]
  rfl

@[simp] theorem fail_outcome (r : Progress S V) (cause : Breakdown S V) :
    (r.fail cause : Run S V E).outcome = cause.outcome := by
  cases cause <;> rfl

@[simp] theorem fail_steps (r : Progress S V) (cause : Breakdown S V) :
    (r.fail cause : Run S V E).steps = r.steps := by
  cases cause <;> rfl

theorem accept_eq (r : Progress S V) :
    (r.accept : Run S V E) = (r.report r.state .accept).stop r.stack.acceptance := by
  simp only [accept, Stack.acceptance, report]
  cases r.stack.values with
  | nil => rfl
  | cons value values => cases values <;> rfl

@[simp] theorem accept_outcome (r : Progress S V) :
    (r.accept : Run S V E).outcome = r.stack.acceptance := by
  rw [accept_eq]
  rfl

@[simp] theorem accept_steps (r : Progress S V) :
    (r.accept : Run S V E).steps = r.steps ++ [r.stack.step r.state .accept] := by
  rw [← steps_report, accept_eq]
  rfl

end Progress

namespace Stack

theorem length_operands {stack : Stack V} {count : Nat} (enough : count ≤ stack.values.length) :
    (stack.operands count).length = count := by
  simp [operands, enough]

theorem reduce_underflow {stack : Stack V} {rule : Rule S V}
    (short : stack.values.length < rule.arity) :
    stack.reduce rule =
      (.error (.table (.stackUnderflow rule.id rule.arity stack.values.length)), stack) := by
  simp [reduce, short]

theorem reduce_value {stack : Stack V} {rule : Rule S V}
    (enough : rule.arity ≤ stack.values.length) :
    (stack.reduce rule).1 = rule.combine (stack.operands rule.arity) := by
  have count := length_operands enough
  simp only [reduce, Nat.not_lt.2 enough, if_false, Rule.combine]
  cases rule.callback with
  | some callback => rfl
  | none =>
    by_cases unit : rule.arity = 1
    · rw [unit] at count ⊢
      obtain ⟨value, only⟩ := List.length_eq_one_iff.1 count
      simp [only]
    · simp only [unit, if_false]
      match args : stack.operands rule.arity with
      | [] => rfl
      | [value] => exact absurd (by rw [← count, args]; rfl) unit
      | _ :: _ :: _ => rfl

theorem reduce_stack {stack : Stack V} {rule : Rule S V} {value : V}
    (enough : rule.arity ≤ stack.values.length) (done : (stack.reduce rule).1 = .ok value) :
    (stack.reduce rule).2 = stack.pop rule.arity := by
  revert done
  simp only [reduce, Nat.not_lt.2 enough, if_false]
  cases rule.callback with
  | some callback => intro _; rfl
  | none =>
    by_cases unit : rule.arity = 1
    · simp only [unit, if_true]
      cases stack.operands 1 with
      | nil => intro done; cases done
      | cons value rest => intro _; rfl
    · simp only [unit, if_false]
      intro done
      cases done

end Stack

namespace Parser

variable [DecidableEq S] (p : Parser S V) (r : Progress S V)

theorem reduce_spec (id : Nat) :
    match p.reduction r.stack id with
    | .error cause =>
      (p.reduce r.state id r).1 = .error cause ∧ (p.reduce r.state id r).2.steps = r.steps
    | .ok stack =>
      (p.reduce r.state id r).1 = .ok () ∧ (p.reduce r.state id r).2.stack = stack ∧
        (p.reduce r.state id r).2.steps = r.steps ++ [stack.step r.state (.reduce id)] := by
  simp only [reduction, reduce]
  cases p.grammar.rule? id with
  | none => exact ⟨rfl, rfl⟩
  | some rule =>
    by_cases short : r.stack.values.length < rule.arity
    · simp only [short, if_true, Stack.reduce_underflow short, and_self]
    · have enough := Nat.not_lt.1 short
      have value := Stack.reduce_value enough
      have popped := @Stack.reduce_stack _ _ r.stack rule
      simp only [short, if_false]
      cases result : r.stack.reduce rule with
      | mk outcome rest =>
        simp only [result] at value popped
        subst value
        cases combined : rule.combine (r.stack.operands rule.arity) with
        | error cause => exact ⟨rfl, rfl⟩
        | ok v =>
          obtain rfl := popped enough combined
          dsimp only
          cases p.table.goto? (r.stack.pop rule.arity).current rule.name with
          | none => exact ⟨rfl, Progress.steps_remarks _ _⟩
          | some next =>
            have base : ({ r with stack := r.stack.pop rule.arity } : Progress S V).steps =
              r.steps := rfl
            refine ⟨rfl, ?_, ?_⟩ <;> simp [base]

variable {p r}

section Move

variable {stack : Stack V} {rest : List (Except E (Token S V))} {symbol : S} {id next : Nat}

theorem move_of_no_lookahead (look : p.lookahead? rest = none) :
    p.move ⟨stack, rest⟩ = .halt [] (p.refusal ⟨stack, rest⟩) := by
  simp only [move, look, Option.bind_none]

theorem action_of_entry (look : p.lookahead? rest = some symbol) {found : Option Action}
    (entry : p.table.action? stack.current symbol = found) :
    (p.lookahead? rest).bind (p.table.action? (⟨stack, rest⟩ : Config S V E).state) = found := by
  rw [look]
  exact entry

theorem move_of_reject (look : p.lookahead? rest = some symbol)
    (entry : p.table.action? stack.current symbol = none) :
    p.move ⟨stack, rest⟩ = .halt [] (p.refusal ⟨stack, rest⟩) := by
  simp only [move, action_of_entry look entry]

theorem move_of_shift (look : p.lookahead? rest = some symbol)
    (entry : p.table.action? stack.current symbol = some (.shift next)) :
    p.move ⟨stack, rest⟩ = (⟨stack, rest⟩ : Config S V E).shift next := by
  simp only [move, action_of_entry look entry]

theorem move_of_accept (look : p.lookahead? rest = some symbol)
    (entry : p.table.action? stack.current symbol = some .accept) :
    p.move ⟨stack, rest⟩ = .halt [stack.step stack.current .accept] stack.acceptance := by
  simp only [move, action_of_entry look entry]
  rfl

theorem move_of_reduce {after : Stack V} (look : p.lookahead? rest = some symbol)
    (entry : p.table.action? stack.current symbol = some (.reduce id))
    (done : p.reduction stack id = .ok after) :
    p.move ⟨stack, rest⟩ = .go (after.step stack.current (.reduce id)) ⟨after, rest⟩ := by
  simp only [move, action_of_entry look entry, done]
  rfl

theorem move_of_breakdown {cause : Breakdown S V} (look : p.lookahead? rest = some symbol)
    (entry : p.table.action? stack.current symbol = some (.reduce id))
    (failed : p.reduction stack id = .error cause) :
    p.move ⟨stack, rest⟩ = .halt [] cause.outcome := by
  simp only [move, action_of_entry look entry, failed]

end Move

/-- The steps that lead to a decision from a configuration with the items `rest`, and what the
decision says about the table where they end. -/
def Decides (p : Parser S V) (symbol : S) (rest : List (Except E (Token S V))) (limit : Nat)
    (stack : Stack V) (ss : List Step) (last : Stack V) : Decision S V → Prop
  | .shift next =>
    p.Steps ⟨stack, rest⟩ ss ⟨last, rest⟩ ∧
      p.table.action? last.current symbol = some (.shift next)
  | .accept =>
    p.Steps ⟨stack, rest⟩ ss ⟨last, rest⟩ ∧ p.table.action? last.current symbol = some .accept
  | .reject =>
    p.Steps ⟨stack, rest⟩ ss ⟨last, rest⟩ ∧ p.table.action? last.current symbol = none
  | .undecided => p.Steps ⟨stack, rest⟩ ss ⟨last, rest⟩ ∧ limit ≤ (reductions ss).length
  | .breakdown cause => p.Halts ⟨stack, rest⟩ ss cause.outcome

theorem Decides.reduce {symbol : S} {rest : List (Except E (Token S V))} {limit id : Nat}
    {stack next last : Stack V} {ss : List Step} {d : Decision S V}
    (first : p.move ⟨stack, rest⟩ = .go (next.step stack.current (.reduce id)) ⟨next, rest⟩)
    (h : p.Decides symbol rest limit next ss last d) :
    p.Decides symbol rest (limit + 1) stack (next.step stack.current (.reduce id) :: ss) last d := by
  cases d with
  | shift _ => exact ⟨.head first h.1, h.2⟩
  | accept => exact ⟨.head first h.1, h.2⟩
  | reject => exact ⟨.head first h.1, h.2⟩
  | undecided => exact ⟨.head first h.1, Nat.succ_le_succ h.2⟩
  | breakdown _ => exact .go first h

theorem settle_spec {symbol : S} {rest : List (Except E (Token S V))}
    (look : p.lookahead? rest = some symbol) (limit : Nat) (r : Progress S V) :
    ∃ ss, (p.settle symbol limit r).2.steps = r.steps ++ ss ∧
      p.Decides symbol rest limit r.stack ss (p.settle symbol limit r).2.stack
        (p.settle symbol limit r).1 := by
  -- a reduction is one move of the machine, and what is left of the limit serves the moves after it
  induction limit generalizing r with
  | zero => exact ⟨[], (List.append_nil _).symm, .refl _, Nat.zero_le _⟩
  | succ limit ih =>
    simp only [settle]
    cases action : p.table.action? r.state symbol with
    | none => exact ⟨[], (List.append_nil _).symm, .refl _, action⟩
    | some action' =>
      cases action' with
      | shift next => exact ⟨[], (List.append_nil _).symm, .refl _, action⟩
      | accept => exact ⟨[], (List.append_nil _).symm, .refl _, action⟩
      | reduce id =>
        have spec := reduce_spec p r id
        cases result : p.reduce r.state id r with
        | mk outcome r' =>
          rw [result] at spec
          cases reduced : p.reduction r.stack id with
          | error cause =>
            simp only [reduced] at spec
            obtain ⟨rfl, steps⟩ := spec
            refine ⟨[], ?_, ?_⟩ <;> simp only [result]
            · rw [steps, List.append_nil]
            · exact Halts.stop (move_of_breakdown look action reduced)
          | ok stack =>
            simp only [reduced] at spec
            obtain ⟨rfl, rfl, steps⟩ := spec
            obtain ⟨ss, more, decides⟩ := ih r'
            refine ⟨r'.stack.step r.state (.reduce id) :: ss, ?_, ?_⟩ <;> simp only [result]
            · rw [more, steps, List.append_assoc]
              rfl
            · exact decides.reduce (move_of_reduce look action reduced)

/-- A run from here on is a history of the machine, unless it is cut off. -/
def Follows (p : Parser S V) (limit : Nat) (c : Config S V E) (ss : List Step)
    (o : Outcome S V E) : Prop :=
  p.Halts c ss o ∨ o = .unfinished ∧ (∃ d, p.Steps c ss d) ∧ limit ≤ (reductions ss).length

theorem Steps.follows {limit : Nat} {c d : Config S V E} {ss ts : List Step} {o : Outcome S V E}
    (h : p.Steps c ss d) (later : p.Follows limit d ts o) : p.Follows limit c (ss ++ ts) o := by
  rcases later with halts | ⟨unfinished, ⟨last, more⟩, long⟩
  · exact .inl (h.halts halts)
  · refine .inr ⟨unfinished, ⟨last, h.trans more⟩, ?_⟩
    rw [reductions_append, List.length_append]
    omega

theorem finish_follows (limit : Nat) (r : Progress S V) :
    ∃ ss, (p.finish limit r : Run S V E).steps = r.steps ++ ss ∧
      p.Follows limit ⟨r.stack, []⟩ ss (p.finish limit r : Run S V E).outcome := by
  simp only [finish]
  cases ending : p.endOfInput with
  | none =>
    have look : p.lookahead? ([] : List (Except E (Token S V))) = none := ending
    refine ⟨[], (List.append_nil _).symm, .inl (.stop ?_)⟩
    exact move_of_no_lookahead look
  | some symbol =>
    have look : p.lookahead? ([] : List (Except E (Token S V))) = some symbol := ending
    obtain ⟨ss, more, decides⟩ := settle_spec look limit (r.note .endOfInput)
    cases result : p.settle symbol limit (r.note .endOfInput) with
    | mk decision r' =>
      simp only [result, Progress.steps_note, Progress.stack_note] at more decides
      simp only [result]
      cases decision with
      | shift next =>
        have stop := move_of_shift look decides.2
        exact ⟨ss ++ [], by rw [List.append_nil]; exact more, decides.1.follows (.inl (.stop stop))⟩
      | accept =>
        have stop := move_of_accept look decides.2
        refine ⟨ss ++ [r'.stack.step r'.state .accept], ?_, decides.1.follows (.inl (.stop ?_))⟩
        · rw [Progress.accept_steps, more, List.append_assoc]
        · rw [Progress.accept_outcome]
          exact stop
      | reject =>
        have stop := move_of_reject look decides.2
        exact ⟨ss ++ [], by rw [List.append_nil]; exact more, decides.1.follows (.inl (.stop stop))⟩
      | breakdown cause =>
        refine ⟨ss, by rw [Progress.fail_steps, more], .inl ?_⟩
        rw [Progress.fail_outcome]
        exact decides
      | undecided => exact ⟨ss, more, .inr ⟨rfl, ⟨_, decides.1⟩, decides.2⟩⟩

theorem runFrom_follows (limit : Nat) (r : Progress S V) (items : List (Except E (Token S V))) :
    ∃ ss, (p.runFrom limit r items).steps = r.steps ++ ss ∧
      p.Follows limit ⟨r.stack, items⟩ ss (p.runFrom limit r items).outcome := by
  induction items generalizing r with
  | nil => exact finish_follows limit r
  | cons item items ih =>
    cases item with
    | error e =>
      exact ⟨[], (List.append_nil _).symm, .inl (.stop (move_of_no_lookahead rfl))⟩
    | ok token =>
      have look : p.lookahead? (.ok token :: items : List (Except E (Token S V))) =
        some token.symbol := rfl
      obtain ⟨ss, more, decides⟩ := settle_spec look limit r.pull
      simp only [runFrom]
      cases result : p.settle token.symbol limit r.pull with
      | mk decision r' =>
        simp only [result, Progress.steps_pull, Progress.stack_pull] at more decides
        cases decision with
        | shift next =>
          obtain ⟨ts, later, follows⟩ := ih (r'.shift r'.state token next)
          have first := Steps.single (move_of_shift look decides.2)
          refine ⟨ss ++ ([_] ++ ts), ?_, decides.1.follows (first.follows follows)⟩
          rw [later, Progress.steps_shift, more, List.append_assoc, List.append_assoc]
          rfl
        | accept =>
          have stop := move_of_accept look decides.2
          refine ⟨ss ++ [r'.stack.step r'.state .accept], ?_, decides.1.follows (.inl (.stop ?_))⟩
          · rw [Progress.accept_steps, Progress.steps_note, more, List.append_assoc]
            rfl
          · rw [Progress.accept_outcome]
            exact stop
        | reject =>
          have stop := move_of_reject look decides.2
          exact ⟨ss ++ [], by rw [List.append_nil]; exact more,
            decides.1.follows (.inl (.stop stop))⟩
        | breakdown cause =>
          refine ⟨ss, by rw [Progress.fail_steps, more], .inl ?_⟩
          rw [Progress.fail_outcome]
          exact decides
        | undecided => exact ⟨ss, more, .inr ⟨rfl, ⟨_, decides.1⟩, decides.2⟩⟩

theorem Halts.finished {c : Config S V E} {ss : List Step} {o : Outcome S V E}
    (h : p.Halts c ss o) : o ≠ .unfinished := by
  induction h with
  | go _ _ ih => exact ih
  | stop last =>
    rintro rfl
    simp only [move] at last
    split at last
    · simp only [refusal] at last
      split at last <;> cases last
    · simp only [Config.shift] at last
      split at last <;> cases last
    · split at last
      · next cause _ => cases cause <;> cases last
      · cases last
    · simp only [Stack.acceptance] at last
      split at last <;> cases last

theorem run_follows (limit : Nat) (items : List (Except E (Token S V))) :
    p.Follows limit (.initial items) (p.run limit items).steps (p.run limit items).outcome := by
  obtain ⟨ss, steps, follows⟩ := runFrom_follows (p := p) limit .initial items
  have same : (p.run limit items).steps = ss := steps
  rw [same]
  exact follows

theorem halts_of_run {limit : Nat} {items : List (Except E (Token S V))}
    (ended : (p.run limit items).outcome ≠ .unfinished) :
    p.Halts (.initial items) (p.run limit items).steps (p.run limit items).outcome := by
  rcases run_follows limit items with halts | ⟨unfinished, _⟩
  · exact halts
  · exact absurd unfinished ended

/-- A limit above the number of reductions leaves the history of the machine as it is. -/
theorem run_of_halts {limit : Nat} {items : List (Except E (Token S V))} {ss : List Step}
    {o : Outcome S V E} (h : p.Halts (.initial items) ss o)
    (room : (reductions ss).length < limit) :
    (p.run limit items).outcome = o ∧ (p.run limit items).steps = ss := by
  rcases run_follows limit items with halts | ⟨_, ⟨d, steps⟩, long⟩
  · obtain ⟨same, result⟩ := halts.unique h
    exact ⟨result, same⟩
  · obtain ⟨us, split, _⟩ := steps.prefix_of_halts h
    have bound := congrArg (fun ss => (reductions ss).length) split
    simp only [reductions_append, List.length_append] at bound
    omega

end Parser

end ShiftReduce
