import ShiftReduce.Proofs.Totality
/-!
The discipline of the stack, whatever the table is. Between two steps there is one state more than
there are values, state 0 is at the bottom, and the number of values is what the shifts and the
reductions made so far have put there. So a reduction with enough values to pop leaves a state to go
on from, and no state is ever read from an empty stack. An acceptance is the last step of a run that
succeeds or that is left with a wrong number of values, and of no other run.
-/
namespace ShiftReduce

variable {S V E : Type}

namespace Grammar

/-- How many values a reduction by this rule adds to those on the stack. -/
def gain (g : Grammar S V) (id : Nat) : Int :=
  match g.rule? id with
  | some rule => 1 - rule.arity
  | none => 0

def depthAfter (g : Grammar S V) (ss : List Step) : Int :=
  shiftCount ss + ((reductions ss).map g.gain).sum

theorem gain_of_rule? {g : Grammar S V} {id : Nat} {rule : Rule S V}
    (found : g.rule? id = some rule) : g.gain id = 1 - rule.arity := by
  simp only [gain, found]

theorem depthAfter_append (g : Grammar S V) (ss ts : List Step) :
    g.depthAfter (ss ++ ts) = g.depthAfter ss + g.depthAfter ts := by
  simp only [depthAfter, shiftCount_append, reductions_append, List.map_append, List.sum_append]
  omega

theorem depthAfter_shift (g : Grammar S V) (state next states values : Nat) :
    g.depthAfter [⟨state, .shift next, states, values⟩] = 1 := rfl

theorem depthAfter_reduce (g : Grammar S V) (state id states values : Nat) :
    g.depthAfter [⟨state, .reduce id, states, values⟩] = g.gain id := by
  simp [depthAfter, shiftCount, Step.isShift, reductions, Step.reducedBy?]

theorem depthAfter_accept (g : Grammar S V) (state states values : Nat) :
    g.depthAfter [⟨state, .accept, states, values⟩] = 0 := rfl

end Grammar

namespace Stack

structure Disciplined (g : Grammar S V) (ss : List Step) (stack : Stack V) : Prop where
  states : stack.states.length = stack.values.length + 1
  bottom : stack.states.getLast? = some 0
  values : (stack.values.length : Int) = g.depthAfter ss

variable {g : Grammar S V} {ss : List Step} {stack : Stack V}

theorem Disciplined.initial : (initial : Stack V).Disciplined g [] := ⟨rfl, rfl, rfl⟩

theorem Disciplined.shift (h : stack.Disciplined g ss) (state next : Nat) (value : V) :
    (stack.push next value).Disciplined g
      (ss ++ [(stack.push next value).step state (.shift next)]) where
  states := congrArg Nat.succ h.states
  bottom := by
    rw [push, List.getLast?_cons, h.bottom]
    rfl
  values := by
    rw [Grammar.depthAfter_append, ← h.values, step, Grammar.depthAfter_shift]
    rfl

theorem states_pop {count : Nat} (states : stack.states.length = stack.values.length + 1)
    (enough : count ≤ stack.values.length) :
    (stack.pop count).states.length = (stack.pop count).values.length + 1 := by
  simp only [pop, List.length_drop]
  omega

theorem Disciplined.reduce (h : stack.Disciplined g ss) {id : Nat} {rule : Rule S V}
    (found : g.rule? id = some rule) (enough : rule.arity ≤ stack.values.length)
    (state next : Nat) (value : V) :
    ((stack.pop rule.arity).push next value).Disciplined g
      (ss ++ [((stack.pop rule.arity).push next value).step state (.reduce id)]) where
  states := congrArg Nat.succ (states_pop h.states enough)
  bottom := by
    -- there is one state more than can be popped, so the bottom is never popped
    have deep : ¬ stack.states.length ≤ rule.arity := by
      rw [h.states]
      omega
    rw [push, List.getLast?_cons, pop, List.getLast?_drop, if_neg deep, h.bottom]
    rfl
  values := by
    have before := h.values
    rw [Grammar.depthAfter_append, step, Grammar.depthAfter_reduce, Grammar.gain_of_rule? found]
    simp only [push, pop, List.length_cons, List.length_drop]
    omega

theorem head?_pop {count : Nat} (states : stack.states.length = stack.values.length + 1)
    (enough : count ≤ stack.values.length) :
    (stack.pop count).states.head? = some (stack.pop count).current := by
  have deep := states_pop states enough
  unfold current
  cases popped : (stack.pop count).states with
  | nil =>
    rw [popped] at deep
    cases deep
  | cons state below => rfl

theorem reduce_untouched {rule : Rule S V} {error : TableError S} {after : Stack V}
    (failed : stack.reduce rule = (.error (.table error), after)) : after = stack := by
  simp only [reduce] at failed
  split at failed
  · cases failed
    rfl
  next enough =>
    have count := length_operands (Nat.not_lt.1 enough)
    split at failed
    next callback _ =>
      cases applied : callback.apply (stack.operands rule.arity) with
      | ok value =>
        rw [applied] at failed
        cases failed
      | error f =>
        rw [applied] at failed
        cases failed
    · split at failed
      next unit =>
        split at failed
        · cases failed
        next none =>
          rw [none, unit] at count
          cases count
      · cases failed
        rfl

/-- A reduction that passes a value on always has it: only a stack with too few values is said to
underflow. -/
theorem short_of_reduce_underflow {rule : Rule S V} {id arity available : Nat} {after : Stack V}
    (failed : stack.reduce rule =
      (.error (.table (.stackUnderflow id arity available : TableError S)), after)) :
    stack.values.length < rule.arity := by
  by_contra enough
  have value := reduce_value (Nat.not_lt.1 enough)
  rw [failed] at value
  unfold Rule.combine at value
  split at value
  next callback _ =>
    cases applied : callback.apply (stack.operands rule.arity) with
    | ok v =>
      rw [applied] at value
      cases value
    | error f =>
      rw [applied] at value
      cases value
  · cases value
  · cases value

end Stack

def Outcome.Accepted (o : Outcome S V E) : Prop :=
  (∃ v, o = .value v) ∨ ∃ count, o = .error (.table (.invalidAccept count))

theorem Stack.acceptance_accepted (stack : Stack V) :
    (stack.acceptance : Outcome S V E).Accepted := by
  unfold acceptance
  split
  next value _ => exact .inl ⟨value, rfl⟩
  next => exact .inr ⟨_, rfl⟩

theorem Stack.acceptance_values (stack : Stack V) :
    (∀ v, (stack.acceptance : Outcome S V E) = .value v → stack.values.length = 1) ∧
      ∀ count, (stack.acceptance : Outcome S V E) = .error (.table (.invalidAccept count)) →
        stack.values.length = count ∧ count ≠ 1 := by
  unfold acceptance
  match stack.values with
  | [] => simp
  | [value] => simp
  | _ :: _ :: _ => simp

theorem Stack.acceptance_of_several {stack : Stack V} (several : stack.values.length ≠ 1) :
    (stack.acceptance : Outcome S V E) =
      .error (.table (.invalidAccept stack.values.length)) := by
  unfold acceptance
  split
  next value only =>
    rw [only] at several
    exact absurd rfl several
  next => rfl

theorem Rule.combine_of_several {rule : Rule S V} (plain : rule.callback = none)
    (several : rule.arity ≠ 1) {args : List V} (count : args.length = rule.arity) :
    rule.combine args = .error (.table (.missingCallback rule.id rule.arity)) := by
  unfold combine
  rw [plain]
  match args with
  | [] => rfl
  | [value] => exact absurd count.symm several
  | _ :: _ :: _ => rfl

theorem Rule.combine_error_cases {rule : Rule S V} {args : List V} {cause : Breakdown S V}
    (count : args.length = rule.arity) (failed : rule.combine args = .error cause) :
    (∃ callback f, rule.callback = some callback ∧ callback.apply args = .error f ∧
      cause = .fault f) ∨
    rule.callback = none ∧ rule.arity ≠ 1 ∧
      cause = .table (.missingCallback rule.id rule.arity) := by
  cases called : rule.callback with
  | some callback =>
    rw [combine_callback called] at failed
    cases applied : callback.apply args with
    | ok value =>
      rw [applied] at failed
      cases failed
    | error f =>
      rw [applied] at failed
      cases failed
      exact .inl ⟨callback, f, rfl, applied, rfl⟩
  | none =>
    refine .inr ⟨rfl, ?_⟩
    unfold combine at failed
    rw [called] at failed
    match args with
    | [] =>
      cases failed
      refine ⟨?_, rfl⟩
      rw [← count]
      exact Nat.zero_ne_one
    | [value] => cases failed
    | _ :: _ :: rest =>
      cases failed
      refine ⟨?_, rfl⟩
      rw [← count]
      simp

namespace Parser

variable [DecidableEq S] {p : Parser S V} {c d : Config S V E} {ss ts : List Step}
  {o : Outcome S V E}

theorem reduction_error_cases {stack : Stack V} {id : Nat} {cause : Breakdown S V}
    (failed : p.reduction stack id = .error cause) :
    (p.grammar.rule? id = none ∧ cause = .table (.unknownRule stack.current id)) ∨
    ∃ rule, p.grammar.rule? id = some rule ∧
      (stack.values.length < rule.arity ∧
          cause = .table (.stackUnderflow rule.id rule.arity stack.values.length) ∨
        rule.arity ≤ stack.values.length ∧
          (rule.combine (stack.operands rule.arity) = .error cause ∨
            ∃ value, rule.combine (stack.operands rule.arity) = .ok value ∧
              p.table.goto? (stack.pop rule.arity).current rule.name = none ∧
              cause = .table (.missingGoto (stack.pop rule.arity).current rule.name))) := by
  simp only [reduction] at failed
  split at failed
  next unknown =>
    cases failed
    exact .inl ⟨unknown, rfl⟩
  next rule found =>
    refine .inr ⟨rule, found, ?_⟩
    split at failed
    next short =>
      cases failed
      exact .inl ⟨short, rfl⟩
    next enough =>
      refine .inr ⟨Nat.not_lt.1 enough, ?_⟩
      split at failed
      next combined =>
        cases failed
        exact .inl combined
      next value combined =>
        split at failed
        next missing =>
          cases failed
          exact .inr ⟨value, combined, missing, rfl⟩
        · cases failed

theorem not_accepted_of_reduction_error {stack : Stack V} {id : Nat} {cause : Breakdown S V}
    (failed : p.reduction stack id = .error cause) :
    ¬ (cause.outcome : Outcome S V E).Accepted := by
  have distinct : ∀ count, cause ≠ .table (.invalidAccept count) := by
    rintro count rfl
    rcases reduction_error_cases failed with
      ⟨_, unknown⟩ | ⟨rule, _, ⟨_, short⟩ | ⟨enough, combined | ⟨_, _, _, missing⟩⟩⟩
    · cases unknown
    · cases short
    · rcases Rule.combine_error_cases (Stack.length_operands enough) combined with
        ⟨_, _, _, _, fault⟩ | ⟨_, _, plain⟩
      · cases fault
      · cases plain
    · cases missing
  rintro (⟨v, value⟩ | ⟨count, invalid⟩)
  · cases cause <;> cases value
  · cases cause with
    | table error =>
      cases invalid
      exact distinct count rfl
    | fault f => cases invalid

theorem move_halt_accepted (last : p.move c = .halt ts o) :
    ts = [] ∧ ¬ o.Accepted ∨
      ts = [c.stack.step c.state .accept] ∧ o = c.stack.acceptance := by
  rcases move_halt_cases last with
    ⟨_, rfl, refused⟩ | ⟨_, _, ⟨_, _, _, rfl, ended⟩ | ⟨_, _, _, failed, rfl, broken⟩ |
      ⟨_, accept, accepted⟩⟩
  · refine .inl ⟨rfl, ?_⟩
    obtain ⟨e, error, sound⟩ := refusal_cases p c
    rw [refused, error]
    rintro (⟨v, value⟩ | ⟨count, invalid⟩)
    · cases value
    · exact sound _ (Outcome.error.inj invalid)
  · refine .inl ⟨rfl, ?_⟩
    rw [ended]
    rintro (⟨v, value⟩ | ⟨count, invalid⟩)
    · cases value
    · cases invalid
  · refine .inl ⟨rfl, ?_⟩
    rw [broken]
    exact not_accepted_of_reduction_error failed
  · exact .inr ⟨accept, accepted⟩

theorem Grown.disciplined {items : List (Except E (Token S V))} {forest : List (Tree S V)}
    (h : p.Grown items c ss forest) : c.stack.Disciplined p.grammar ss := by
  induction h with
  | start => exact .initial
  | shift _ _ ih => exact ih.shift _ _ _
  | reduce _ _ _ found enough _ _ ih => exact ih.reduce found enough _ _ _

theorem Steps.disciplined {items : List (Except E (Token S V))}
    (h : p.Steps (.initial items) ss c) : c.stack.Disciplined p.grammar ss := by
  obtain ⟨forest, grown⟩ := h.grown
  exact grown.disciplined

end Parser

end ShiftReduce
