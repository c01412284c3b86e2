import Mathlib.Data.List.Infix
import ShiftReduce.Proofs.Discipline
/-!
The stages of a run: the parse under way between two steps. At each stage the run looks up an
action, or finds that the items are exhausted or faulty. There is one stage for each configuration
that the machine reaches, so what holds of these holds at every look-up and in every report.
-/
namespace ShiftReduce

variable {S V E : Type}

def Step.isAccept (s : Step) : Bool := s.action = .accept

def Run.history (r : Run S V E) : List Step := r.steps.filter fun s => !s.isAccept

namespace Parser

variable [DecidableEq S]

def settleStages (p : Parser S V) (lookahead : S) : Nat → Progress S V → List (Progress S V)
  | 0, r => [r]
  | limit + 1, r =>
    r :: match p.table.action? r.state lookahead with
      | some (.reduce id) =>
        match p.reduce r.state id r with
        | (.ok (), r) => p.settleStages lookahead limit r
        | (.error _, _) => []
      | _ => []

def stagesFrom (p : Parser S V) (limit : Nat) :
    Progress S V → List (Except E (Token S V)) → List (Progress S V)
  | r, [] =>
    match p.endOfInput with
    | none => [r.note (.exhausted r.state)]
    | some symbol => p.settleStages symbol limit (r.note .endOfInput)
  | r, .error _ :: _ => [r.pull]
  | r, .ok token :: items =>
    p.settleStages token.symbol limit r.pull ++
      match p.settle token.symbol limit r.pull with
      | (.shift next, r) => p.stagesFrom limit (r.shift r.state token next) items
      | _ => []

def stages (p : Parser S V) (limit : Nat) (items : List (Except E (Token S V))) :
    List (Progress S V) :=
  p.stagesFrom limit .initial items

variable {p : Parser S V}

theorem reduce_ok {id : Nat} {r after : Progress S V}
    (result : p.reduce r.state id r = (.ok (), after)) :
    p.reduction r.stack id = .ok after.stack ∧
      after.steps = r.steps ++ [after.stack.step r.state (.reduce id)] := by
  have spec := reduce_spec p r id
  rw [result] at spec
  cases reduced : p.reduction r.stack id with
  | error cause =>
    simp only [reduced] at spec
    cases spec.1
  | ok stack =>
    simp only [reduced] at spec
    obtain ⟨_, rfl, steps⟩ := spec
    exact ⟨rfl, steps⟩

theorem reduce_error {id : Nat} {r after : Progress S V} {cause : Breakdown S V}
    (result : p.reduce r.state id r = (.error cause, after)) :
    p.reduction r.stack id = .error cause ∧ after.steps = r.steps := by
  have spec := reduce_spec p r id
  rw [result] at spec
  cases reduced : p.reduction r.stack id with
  | error cause' =>
    simp only [reduced] at spec
    obtain ⟨same, steps⟩ := spec
    cases same
    exact ⟨rfl, steps⟩
  | ok stack =>
    simp only [reduced] at spec
    cases spec.1

section Reached

variable {rest : List (Except E (Token S V))} {symbol : S}

theorem settleStages_reached (look : p.lookahead? rest = some symbol) (limit : Nat)
    (r d : Progress S V) (member : d ∈ p.settleStages symbol limit r) :
    ∃ ss, d.steps = r.steps ++ ss ∧ p.Steps ⟨r.stack, rest⟩ ss ⟨d.stack, rest⟩ := by
  induction limit generalizing r with
  | zero =>
    obtain rfl := List.mem_singleton.1 member
    exact ⟨[], (List.append_nil _).symm, .refl _⟩
  | succ limit ih =>
    simp only [settleStages] at member
    rcases List.mem_cons.1 member with rfl | later
    · exact ⟨[], (List.append_nil _).symm, .refl _⟩
    · split at later
      next id entry =>
        split at later
        next after result =>
          obtain ⟨reduced, steps⟩ := reduce_ok result
          obtain ⟨ss, more, reached⟩ := ih after later
          have first := move_of_reduce look entry reduced
          refine ⟨after.stack.step r.state (.reduce id) :: ss, ?_, .head first reached⟩
          rw [more, steps, List.append_assoc]
          rfl
        · cases later
      · cases later

theorem stagesFrom_reached (limit : Nat) (items : List (Except E (Token S V)))
    (r d : Progress S V) (member : d ∈ p.stagesFrom limit r items) :
    ∃ ss rest, d.steps = r.steps ++ ss ∧ p.Steps ⟨r.stack, items⟩ ss ⟨d.stack, rest⟩ := by
  induction items generalizing r with
  | nil =>
    simp only [stagesFrom] at member
    split at member
    · obtain rfl := List.mem_singleton.1 member
      exact ⟨[], [], (List.append_nil _).symm, .refl _⟩
    next symbol ending =>
      have look : p.lookahead? ([] : List (Except E (Token S V))) = some symbol := ending
      obtain ⟨ss, more, reached⟩ := settleStages_reached look limit _ d member
      exact ⟨ss, [], more, reached⟩
  | cons item items ih =>
    cases item with
    | error e =>
      obtain rfl := List.mem_singleton.1 member
      exact ⟨[], _, (List.append_nil _).symm, .refl _⟩
    | ok token =>
      have look : p.lookahead? (.ok token :: items : List (Except E (Token S V))) =
        some token.symbol := rfl
      rcases List.mem_append.1 member with here | later
      · obtain ⟨ss, more, reached⟩ := settleStages_reached look limit _ d here
        exact ⟨ss, _, more, reached⟩
      · obtain ⟨ss, more, decides⟩ := settle_spec look limit r.pull
        split at later
        next next r' result =>
          simp only [result] at more decides
          obtain ⟨ts, rest, further, reached⟩ := ih _ later
          have first := Steps.single (move_of_shift look decides.2)
          refine ⟨ss ++ ([_] ++ ts), rest, ?_, decides.1.trans (first.trans reached)⟩
          rw [further, Progress.steps_shift, more, List.append_assoc, List.append_assoc]
          rfl
        · cases later

end Reached

/-- The steps `ss` that are made after `r`, none of them an acceptance, and a stage before each of
them and after the last. -/
structure Covers (r : Progress S V) (stages : List (Progress S V)) (ss : List Step) : Prop where
  steps : stages.map Progress.steps = ss.inits.map (r.steps ++ ·)
  quiet : ∀ s ∈ ss, s.isAccept = false

section Covers

omit [DecidableEq S]

variable {r here after : Progress S V} {s : Step} {stages later : List (Progress S V)}
  {ss ts : List Step}

theorem Covers.single (same : here.steps = r.steps) : Covers r [here] [] := by
  refine ⟨?_, List.forall_mem_nil _⟩
  simp [same]

theorem Covers.cons (same : here.steps = r.steps) (first : after.steps = r.steps ++ [s])
    (quiet : s.isAccept = false) (h : Covers after later ss) :
    Covers r (here :: later) (s :: ss) := by
  refine ⟨?_, List.forall_mem_cons.2 ⟨quiet, h.quiet⟩⟩
  simp [same, h.steps, first, Function.comp_def]

theorem Covers.append (h : Covers r stages ss) (first : after.steps = r.steps ++ (ss ++ [s]))
    (quiet : s.isAccept = false) (h' : Covers after later ts) :
    Covers r (stages ++ later) (ss ++ s :: ts) := by
  refine ⟨?_, List.forall_mem_append.2 ⟨h.quiet, List.forall_mem_cons.2 ⟨quiet, h'.quiet⟩⟩⟩
  simp [h.steps, h'.steps, first, List.inits_append, Function.comp_def]

end Covers

theorem settleStages_covers (symbol : S) (limit : Nat) (r : Progress S V) :
    ∃ ss, (p.settle symbol limit r).2.steps = r.steps ++ ss ∧
      Covers r (p.settleStages symbol limit r) ss := by
  induction limit generalizing r with
  | zero => exact ⟨[], (List.append_nil _).symm, .single rfl⟩
  | succ limit ih =>
    simp only [settle, settleStages]
    cases entry : p.table.action? r.state symbol with
    | none => exact ⟨[], (List.append_nil _).symm, .single rfl⟩
    | some action =>
      cases action with
      | shift next => exact ⟨[], (List.append_nil _).symm, .single rfl⟩
      | accept => exact ⟨[], (List.append_nil _).symm, .single rfl⟩
      | reduce id =>
        cases result : p.reduce r.state id r with
        | mk outcome after =>
          cases outcome with
          | error cause =>
            obtain ⟨_, steps⟩ := reduce_error result
            refine ⟨[], ?_, ?_⟩ <;> simp only [result]
            · rw [steps, List.append_nil]
            · exact .single rfl
          | ok done =>
            obtain ⟨_, steps⟩ := reduce_ok result
            obtain ⟨ss, more, covers⟩ := ih after
            refine ⟨after.stack.step r.state (.reduce id) :: ss, ?_, ?_⟩ <;> simp only [result]
            · rw [more, steps, List.append_assoc]
              rfl
            · exact covers.cons rfl steps rfl

def Closes (run : Run S V E) (r : Progress S V) : Prop :=
  run.steps = r.steps ∨ run.steps = r.steps ++ [r.stack.step r.state .accept]

omit [DecidableEq S] in
theorem Closes.split {run : Run S V E} {r here : Progress S V} {ss : List Step}
    (h : Closes run here) (more : here.steps = r.steps ++ ss) :
    ∃ ts, run.steps = r.steps ++ (ss ++ ts) ∧ ∀ s ∈ ts, s.isAccept = true := by
  rcases h with none | accept
  · refine ⟨[], ?_, List.forall_mem_nil _⟩
    rw [none, more, List.append_nil]
  · refine ⟨[here.stack.step here.state .accept], ?_, List.forall_mem_singleton.2 rfl⟩
    rw [accept, more, List.append_assoc]

theorem finish_closes {symbol : S} (ending : p.endOfInput = some symbol) (limit : Nat)
    (r : Progress S V) :
    Closes (p.finish limit r : Run S V E) (p.settle symbol limit (r.note .endOfInput)).2 := by
  simp only [finish, ending]
  cases p.settle symbol limit (r.note .endOfInput) with
  | mk decision here =>
    cases decision with
    | shift next => exact .inl rfl
    | accept => exact .inr (Progress.accept_steps _)
    | reject => exact .inl rfl
    | breakdown cause => exact .inl (Progress.fail_steps _ _)
    | undecided => exact .inl rfl

theorem stagesFrom_covers (limit : Nat) (items : List (Except E (Token S V)))
    (r : Progress S V) :
    ∃ ss ts, (p.runFrom limit r items).steps = r.steps ++ (ss ++ ts) ∧
      Covers r (p.stagesFrom limit r items) ss ∧ ∀ s ∈ ts, s.isAccept = true := by
  induction items generalizing r with
  | nil =>
    cases ending : p.endOfInput with
    | none =>
      simp only [runFrom, finish, stagesFrom, ending]
      exact ⟨[], [], (List.append_nil _).symm, .single rfl, List.forall_mem_nil _⟩
    | some symbol =>
      obtain ⟨ss, more, covers⟩ := settleStages_covers (p := p) symbol limit (r.note .endOfInput)
      obtain ⟨ts, split, accept⟩ := (finish_closes (E := E) ending limit r).split more
      simp only [runFrom, stagesFrom, ending]
      exact ⟨ss, ts, split, ⟨covers.steps, covers.quiet⟩, accept⟩
  | cons item items ih =>
    cases item with
    | error e => exact ⟨[], [], (List.append_nil _).symm, .single rfl, List.forall_mem_nil _⟩
    | ok token =>
      obtain ⟨ss, more, covers⟩ := settleStages_covers (p := p) token.symbol limit r.pull
      simp only [runFrom, stagesFrom]
      cases result : p.settle token.symbol limit r.pull with
      | mk decision here =>
        simp only [result] at more
        have closed {run : Run S V E} (closes : Closes run here) :
            ∃ ss ts, run.steps = r.steps ++ (ss ++ ts) ∧
              Covers r (p.settleStages token.symbol limit r.pull ++ []) ss ∧
                ∀ s ∈ ts, s.isAccept = true := by
          obtain ⟨ts, split, accept⟩ := closes.split more
          rw [List.append_nil]
          exact ⟨ss, ts, split, ⟨covers.steps, covers.quiet⟩, accept⟩
        cases decision with
        | shift next =>
          obtain ⟨us, ts, split, later, accept⟩ := ih (here.shift here.state token next)
          have first := Progress.steps_shift here here.state next token
          rw [more, List.append_assoc] at first
          have joined : Covers r.pull _ _ := covers.append first rfl later
          refine ⟨_, ts, ?_, ⟨joined.steps, joined.quiet⟩, accept⟩
          rw [split, first]
          simp [Progress.steps_pull]
        | accept => exact closed (.inr (Progress.accept_steps _))
        | reject => exact closed (.inl rfl)
        | breakdown cause => exact closed (.inl (Progress.fail_steps _ _))
        | undecided => exact closed (.inl rfl)

section Run

variable {limit : Nat} {items : List (Except E (Token S V))} {c d : Config S V E}
  {ss : List Step} {s : Step}

theorem Steps.unique (h : p.Steps c ss d) {e : Config S V E} (h' : p.Steps c ss e) : d = e := by
  induction h with
  | refl c =>
    cases h'
    rfl
  | head first _ ih =>
    cases h' with
    | head first' later' =>
      rw [first] at first'
      obtain ⟨_, rfl⟩ := Move.go.inj first'
      exact ih later'

theorem Steps.quiet (h : p.Steps c ss d) : ss.filter (fun s => !s.isAccept) = ss := by
  induction h with
  | refl => rfl
  | head first _ ih =>
    rcases move_go_cases first with ⟨_, _, _, _, _, rfl, _⟩ | ⟨_, _, _, _, _, _, rfl, _⟩
    · exact congrArg _ ih
    · exact congrArg _ ih

theorem Steps.last_reports (h : p.Steps (.initial items) (ss ++ [s]) d) :
    s = d.stack.step s.state s.action := by
  obtain ⟨forest, grown⟩ := h.grown
  generalize made : ss ++ [s] = ts at grown
  cases grown with
  | start => simp at made
  | shift _ _ =>
    obtain ⟨_, last⟩ := List.append_inj' made rfl
    obtain rfl := List.singleton_inj.1 last
    rfl
  | reduce _ _ _ _ _ _ _ =>
    obtain ⟨_, last⟩ := List.append_inj' made rfl
    obtain rfl := List.singleton_inj.1 last
    rfl

theorem Grown.rule_of_reduction {forest : List (Tree S V)} (h : p.Grown items c ss forest) :
    ∀ id ∈ reductions ss, ∃ rule, p.grammar.rule? id = some rule := by
  induction h with
  | start => exact List.forall_mem_nil _
  | shift _ _ ih =>
    rw [reductions_append]
    exact List.forall_mem_append.2 ⟨ih, List.forall_mem_nil _⟩
  | reduce _ _ _ found _ _ _ ih =>
    rw [reductions_append]
    exact List.forall_mem_append.2 ⟨ih, List.forall_mem_singleton.2 ⟨_, found⟩⟩

theorem run_cases (p : Parser S V) (limit : Nat) (items : List (Except E (Token S V))) :
    ∃ d, p.Steps (.initial items) (p.run limit items).history d ∧
      ((p.run limit items).steps = (p.run limit items).history ∧
          ¬ (p.run limit items).outcome.Accepted ∨
        (p.run limit items).steps =
            (p.run limit items).history ++ [d.stack.step d.state .accept] ∧
          (p.run limit items).outcome = d.stack.acceptance) := by
  have plain {d : Config S V E} (steps : p.Steps (.initial items) (p.run limit items).steps d) :
      p.Steps (.initial items) (p.run limit items).history d ∧
        (p.run limit items).steps = (p.run limit items).history := by
    unfold Run.history
    rw [steps.quiet]
    exact ⟨steps, rfl⟩
  rcases run_follows (p := p) limit items with halts | ⟨unfinished, ⟨d, steps⟩, _⟩
  · obtain ⟨d, ss, ts, split, steps, last⟩ := halts.last_move
    refine ⟨d, ?_⟩
    rcases move_halt_accepted last with ⟨rfl, free⟩ | ⟨rfl, accepted⟩
    · rw [List.append_nil] at split
      rw [← split] at steps
      obtain ⟨history, same⟩ := plain steps
      exact ⟨history, .inl ⟨same, free⟩⟩
    · have history : (p.run limit items).history = ss := by
        unfold Run.history
        rw [split, List.filter_append, steps.quiet]
        exact List.append_nil _
      rw [history]
      exact ⟨steps, .inr ⟨split, accepted⟩⟩
  · obtain ⟨history, same⟩ := plain steps
    refine ⟨d, history, .inl ⟨same, ?_⟩⟩
    rw [unfinished]
    rintro (⟨v, value⟩ | ⟨count, invalid⟩)
    · cases value
    · cases invalid

theorem stage_reached {r : Progress S V} (member : r ∈ p.stages limit items) :
    ∃ rest, p.Steps (.initial items) r.steps ⟨r.stack, rest⟩ := by
  obtain ⟨ss, rest, steps, reached⟩ := stagesFrom_reached limit items .initial r member
  rw [show r.steps = ss from steps]
  exact ⟨rest, reached⟩

theorem stages_steps (p : Parser S V) (limit : Nat) (items : List (Except E (Token S V))) :
    (p.stages limit items).map Progress.steps = (p.run limit items).history.inits := by
  obtain ⟨ss, ts, split, covers, accept⟩ := stagesFrom_covers (p := p) limit items .initial
  have steps : (p.run limit items).steps = ss ++ ts := split
  have kept : ss.filter (fun s => !s.isAccept) = ss := by
    apply List.filter_eq_self.2
    intro s member
    rw [covers.quiet s member]
    rfl
  have dropped : ts.filter (fun s => !s.isAccept) = [] := by
    apply List.filter_eq_nil_iff.2
    intro s member
    rw [accept s member]
    exact Bool.false_ne_true
  rw [Run.history, steps, List.filter_append, kept, dropped, List.append_nil]
  exact covers.steps.trans (List.map_id' _)

theorem exists_stage {ts : List Step} (begins : ts <+: (p.run limit items).history) :
    ∃ r ∈ p.stages limit items, r.steps = ts := by
  apply List.mem_map.1
  rw [stages_steps]
  exact (List.mem_inits _ _).2 begins

theorem exists_reported_stage (begins : ss ++ [s] <+: (p.run limit items).steps) :
    ∃ r ∈ p.stages limit items, s = r.stack.step s.state s.action ∧
      p.grammar.depthAfter r.steps = p.grammar.depthAfter (ss ++ [s]) := by
  have inside (early : ss ++ [s] <+: (p.run limit items).history) :
      ∃ r ∈ p.stages limit items, s = r.stack.step s.state s.action ∧
        p.grammar.depthAfter r.steps = p.grammar.depthAfter (ss ++ [s]) := by
    obtain ⟨r, member, made⟩ := exists_stage early
    obtain ⟨rest, reached⟩ := stage_reached member
    rw [made] at reached
    exact ⟨r, member, reached.last_reports, congrArg _ made⟩
  obtain ⟨d, steps, ⟨same, _⟩ | ⟨same, _⟩⟩ := run_cases p limit items
  · rw [same] at begins
    exact inside begins
  · rw [same] at begins
    rcases List.prefix_concat_iff.1 begins with last | early
    · obtain ⟨whole, final⟩ := List.append_inj' last rfl
      obtain rfl := List.singleton_inj.1 final
      -- an acceptance pushes and pops nothing, so its stack is that of the last stage
      obtain ⟨r, member, made⟩ := exists_stage (List.prefix_refl (p.run limit items).history)
      obtain ⟨rest, reached⟩ := stage_reached member
      rw [made] at reached
      refine ⟨r, member, ?_, ?_⟩
      · rw [← reached.unique steps]
        rfl
      · rw [made, whole, Grammar.depthAfter_append, Stack.step, Grammar.depthAfter_accept,
          Int.add_zero]
    · exact inside early

theorem reductions_of_run (p : Parser S V) (limit : Nat) (items : List (Except E (Token S V))) :
    ∀ id ∈ (p.run limit items).reductions, ∃ rule, p.grammar.rule? id = some rule := by
  obtain ⟨d, steps, ended⟩ := run_cases p limit items
  obtain ⟨forest, grown⟩ := steps.grown
  have same : (p.run limit items).reductions = reductions (p.run limit items).history := by
    unfold Run.reductions
    rcases ended with ⟨steps, _⟩ | ⟨steps, _⟩
    · rw [steps]
    · rw [steps, reductions_append]
      exact List.append_nil _
  rw [same]
  exact grown.rule_of_reduction

theorem last_step_accepts (p : Parser S V) (limit : Nat) (items : List (Except E (Token S V))) :
    let run := p.run limit items
    ((∃ s, run.steps.getLast? = some s ∧ s.isAccept = true) ↔ run.outcome.Accepted) ∧
      ∀ s, run.steps.getLast? = some s → s.isAccept = true →
        (∀ v, run.outcome = .value v → s.values = 1) ∧
          ∀ count, run.outcome = .error (.table (.invalidAccept count)) →
            s.values = count ∧ count ≠ 1 := by
  intro run
  obtain ⟨d, _, ⟨same, free⟩ | ⟨same, accepted⟩⟩ := run_cases p limit items
  · have quiet (s : Step) (last : run.steps.getLast? = some s) : ¬ s.isAccept = true := by
      have member : s ∈ run.history := same ▸ List.mem_of_getLast? last
      simpa using (List.mem_filter.1 member).2
    constructor
    · constructor
      · rintro ⟨s, last, accept⟩
        exact absurd accept (quiet s last)
      · intro accepted
        exact absurd accepted free
    · intro s last accept
      exact absurd accept (quiet s last)
  · have last : run.steps.getLast? = some (d.stack.step d.state .accept) := by
      rw [show run.steps = _ from same, List.getLast?_concat]
    have outcome : run.outcome = d.stack.acceptance := accepted
    rw [last, outcome]
    constructor
    · exact iff_of_true ⟨_, rfl, rfl⟩ d.stack.acceptance_accepted
    · rintro s only _
      obtain rfl := Option.some.inj only
      exact d.stack.acceptance_values

/-- At every stage there is one state more than there are values, and the values are as many as the
steps so far have put there. Only a run that succeeds or finds a wrong number of values has
accepted. -/
theorem stack_disciplined (p : Parser S V) (limit : Nat) (items : List (Except E (Token S V))) :
    let run := p.run limit items
    let stages := p.stages limit items
    stages.map Progress.steps = run.history.inits ∧
    (∀ r ∈ stages, r.stack.Disciplined p.grammar r.steps ∧
      ∀ count ≤ r.stack.values.length,
        (r.stack.pop count).states.head? = some (r.stack.pop count).current) ∧
    (∀ ss s, ss ++ [s] <+: run.steps → s.states = s.values + 1 ∧
      (s.values : Int) = p.grammar.depthAfter (ss ++ [s]) ∧
      ∃ r ∈ stages, s = r.stack.step s.state s.action) ∧
    (∀ id ∈ run.reductions, ∃ rule, p.grammar.rule? id = some rule) ∧
    (∀ (stack after : Stack V) (rule : Rule S V) (error : TableError S),
      stack.reduce rule = (.error (.table error), after) → after = stack ∧
        ∀ id arity available, error = .stackUnderflow id arity available →
          stack.values.length < rule.arity) ∧
    ((∃ s, run.steps.getLast? = some s ∧ s.isAccept = true) ↔ run.outcome.Accepted) ∧
    ∀ s, run.steps.getLast? = some s → s.isAccept = true →
      (∀ v, run.outcome = .value v → s.values = 1) ∧
        ∀ count, run.outcome = .error (.table (.invalidAccept count)) →
          s.values = count ∧ count ≠ 1 := by
  intro run stages
  have disciplined (r : Progress S V) (member : r ∈ stages) :
      r.stack.Disciplined p.grammar r.steps := by
    obtain ⟨rest, reached⟩ := stage_reached member
    exact reached.disciplined
  obtain ⟨accepts, reports⟩ := last_step_accepts p limit items
  refine ⟨stages_steps p limit items, ?_, ?_, ?_, ?_, accepts, reports⟩
  · intro r member
    refine ⟨disciplined r member, ?_⟩
    intro count enough
    exact Stack.head?_pop (disciplined r member).states enough
  · intro ss s begins
    obtain ⟨r, member, same, depth⟩ := exists_reported_stage begins
    have states := (disciplined r member).states
    have values := (disciplined r member).values
    rw [depth] at values
    refine ⟨?_, ?_, r, member, same⟩
    · rw [same]
      exact states
    · rw [same] at values ⊢
      exact values
  · exact reductions_of_run p limit items
  · intro stack after rule error failed
    refine ⟨Stack.reduce_untouched failed, ?_⟩
    rintro id arity available rfl
    exact Stack.short_of_reduce_underflow failed

end Run

/-- A parser for sums and products with a table that never reduces. -/
def unreducing : Parser String Int where
  grammar := Arithmetic.grammar
  table := .ofSettings [.shift 0 "INT" 0, .accept 0 "$eof"]
  endOfInput := some "$eof"

def twoIntegers : List (Except Unit (Token String Int)) :=
  [.ok ⟨"INT", 1, none⟩, .ok ⟨"INT", 2, none⟩]

theorem two_left_disciplined :
    let run := unreducing.run 1 twoIntegers
    run.steps = [⟨0, .shift 0, 2, 1⟩, ⟨0, .shift 0, 3, 2⟩] ++ [⟨0, .accept, 3, 2⟩] ∧
      run.outcome = .error (.table (.invalidAccept 2)) ∧
      (2 : Int) = Arithmetic.grammar.depthAfter run.steps ∧ run.outcome.Accepted ∧ 2 ≠ 1 := by
  intro run
  have steps : run.steps =
      [⟨0, .shift 0, 2, 1⟩, ⟨0, .shift 0, 3, 2⟩] ++ [⟨0, .accept, 3, 2⟩] := by decide
  have outcome : run.outcome = .error (.table (.invalidAccept 2)) := rfl
  have last : run.steps.getLast? = some ⟨0, .accept, 3, 2⟩ := by rw [steps]; rfl
  obtain ⟨_, _, reported, _, _, accepts, counted⟩ := stack_disciplined unreducing 1 twoIntegers
  have depth := (reported [⟨0, .shift 0, 2, 1⟩, ⟨0, .shift 0, 3, 2⟩] ⟨0, .accept, 3, 2⟩
    (by rw [← steps])).2.1
  rw [← steps] at depth
  exact ⟨steps, outcome, depth, accepts.1 ⟨_, last, rfl⟩, ((counted _ last rfl).2 2 outcome).2⟩

end Parser

end ShiftReduce
