import Mathlib.Data.List.Forall2
import ShiftReduce.Proofs.Pulled
import ShiftReduce.Proofs.Totality
/-!
Two parsers in lockstep. A table mirrors another one if, under a renaming of symbols and rules, it
has the same actions and gotos in the states of the other. On items that correspond, the two
machines then go through the same states, and come to the same decisions, until the first of them
breaks down.
-/
namespace ShiftReduce

variable {S T V W E F : Type}

def Action.renumbered (number : Nat → Nat) : Action → Action
  | .reduce id => .reduce (number id)
  | action => action

def Step.renumbered (number : Nat → Nat) (s : Step) : Step :=
  { s with action := s.action.renumbered number }

inductive Paired (tokens : Token S V → Token T W → Prop) (errors : E → F → Prop) :
    Except E (Token S V) → Except F (Token T W) → Prop where
  | token {t : Token S V} {u : Token T W} (same : tokens t u) : Paired tokens errors (.ok t) (.ok u)
  | error {e : E} {f : F} (same : errors e f) : Paired tokens errors (.error e) (.error f)

/-- Both have succeeded, or both have failed in the same state and on items that go together. What
is expected by the first are the symbols expected by the second that have a name in the first. -/
inductive Alike (name : T → Option S) (tokens : Token S V → Token T W → Prop)
    (errors : E → F → Prop) : Outcome S V E → Outcome T W F → Prop where
  | value (v : V) (w : W) : Alike name tokens errors (.value v) (.value w)
  | lexer {e : E} {f : F} (same : errors e f) :
      Alike name tokens errors (.error (.lexer e)) (.error (.lexer f))
  | unexpectedToken {t : Token S V} {u : Token T W} (same : tokens t u) (state : Nat)
      (expected : List T) :
      Alike name tokens errors (.error (.unexpectedToken t state (expected.filterMap name)))
        (.error (.unexpectedToken u state expected))
  | unexpectedEnd (state : Nat) (expected : List T) :
      Alike name tokens errors (.error (.unexpectedEnd state (expected.filterMap name)))
        (.error (.unexpectedEnd state expected))

def Outcome.Sound (o : Outcome S V E) : Prop :=
  (∀ e, o ≠ .error (.table e)) ∧ ∀ f, o ≠ .fault f

theorem reductions_renumbered (number : Nat → Nat) (ss : List Step) :
    (reductions (ss.map (Step.renumbered number))).length = (reductions ss).length := by
  induction ss with
  | nil => rfl
  | cons s ss ih =>
    obtain ⟨state, action, states, values⟩ := s
    unfold reductions at ih ⊢
    cases action with
    | shift next => exact ih
    | reduce id => exact congrArg Nat.succ ih
    | accept => exact ih

theorem shiftCount_renumbered (number : Nat → Nat) (ss : List Step) :
    shiftCount (ss.map (Step.renumbered number)) = shiftCount ss := by
  unfold shiftCount
  rw [List.countP_map]
  apply congrArg (List.countP · ss)
  funext s
  obtain ⟨state, action, states, values⟩ := s
  cases action with
  | shift next => rfl
  | reduce id => rfl
  | accept => rfl

namespace Parser

variable [DecidableEq S] [DecidableEq T]

/-- In the states below `size` the table of `q` is that of `p`, and the callbacks of `q` have good
values for good operands. -/
structure Mirrors (p : Parser S V) (q : Parser T W) (name : T → Option S) (number : Nat → Nat)
    (size : Nat) (good : W → Prop) : Prop where
  root : 0 < size
  target : ∀ e ∈ p.table.edges, e.target < size
  action : ∀ state < size, ∀ x y, name y = some x →
    q.table.action? state y = (p.table.action? state x).map (Action.renumbered number)
  goto : ∀ state < size, ∀ x y, name y = some x → q.table.goto? state y = p.table.goto? state x
  expected : ∀ state < size, p.table.expected state = (q.table.expected state).filterMap name
  rule : ∀ id rule, p.grammar.rule? id = some rule → ∃ rule',
    q.grammar.rule? (number id) = some rule' ∧ rule'.arity = rule.arity ∧
      name rule'.name = some rule.name
  combine : ∀ rule ∈ q.grammar.rules, ∀ args : List W, args.length = rule.arity →
    (∀ arg ∈ args, good arg) → ∃ value, rule.combine args = .ok value ∧ good value
  ending : ∃ x y, p.endOfInput = some x ∧ q.endOfInput = some y ∧ name y = some x

structure Matched (size : Nat) (good : W → Prop) (tokens : Token S V → Token T W → Prop)
    (errors : E → F → Prop) (c : Config S V E) (d : Config T W F) : Prop where
  states : d.stack.states = c.stack.states
  within : ∀ state ∈ c.stack.states, state < size
  count : d.stack.values.length = c.stack.values.length
  good : ∀ value ∈ d.stack.values, good value
  items : List.Forall₂ (Paired tokens errors) c.rest d.rest

variable {p : Parser S V} {q : Parser T W} {name : T → Option S} {number : Nat → Nat} {size : Nat}
  {good : W → Prop} {tokens : Token S V → Token T W → Prop} {errors : E → F → Prop}
  {c c' : Config S V E} {d : Config T W F}

section Matched

omit [DecidableEq S] [DecidableEq T]

theorem Matched.state (h : Matched size good tokens errors c d) : d.state = c.state :=
  congrArg (fun states => states.headD 0) h.states

theorem Matched.state_lt (h : Matched size good tokens errors c d) (root : 0 < size) :
    c.state < size := by
  unfold Config.state Stack.current
  cases states : c.stack.states with
  | nil => exact root
  | cons state below =>
    apply h.within
    rw [states]
    exact List.mem_cons_self

theorem Matched.step (h : Matched size good tokens errors c d) (number : Nat → Nat) (state : Nat)
    (action : Action) :
    d.stack.step state (action.renumbered number) =
      (c.stack.step state action).renumbered number := by
  unfold Stack.step Step.renumbered
  rw [h.states, h.count]

theorem Matched.initial {items : List (Except E (Token S V))} {items' : List (Except F (Token T W))}
    (root : 0 < size) (paired : List.Forall₂ (Paired tokens errors) items items') :
    Matched size good tokens errors (.initial items) (.initial items') where
  states := rfl
  within := List.forall_mem_singleton.2 root
  count := rfl
  good := List.forall_mem_nil _
  items := paired

theorem Matched.pop (h : Matched size good tokens errors c d) (count : Nat) :
    Matched size good tokens errors ⟨c.stack.pop count, c.rest⟩ ⟨d.stack.pop count, d.rest⟩ where
  states := by
    unfold Stack.pop
    rw [h.states]
  within := by
    intro state member
    exact h.within state (List.mem_of_mem_drop member)
  count := by
    simp only [Stack.pop, List.length_drop, h.count]
  good := by
    intro value member
    exact h.good value (List.mem_of_mem_drop member)
  items := h.items

theorem Matched.push (h : Matched size good tokens errors c d) {next : Nat} (small : next < size)
    (value : V) {value' : W} (fine : good value') {rest : List (Except E (Token S V))}
    {rest' : List (Except F (Token T W))}
    (paired : List.Forall₂ (Paired tokens errors) rest rest') :
    Matched size good tokens errors ⟨c.stack.push next value, rest⟩
      ⟨d.stack.push next value', rest'⟩ where
  states := congrArg (next :: ·) h.states
  within := List.forall_mem_cons.2 ⟨small, h.within⟩
  count := congrArg Nat.succ h.count
  good := List.forall_mem_cons.2 ⟨fine, h.good⟩
  items := paired

end Matched

section Moves

variable (mirrors : p.Mirrors q name number size good)

include mirrors

theorem Mirrors.reduction (h : Matched size good tokens errors c d) {id : Nat} {after : Stack V}
    (done : p.reduction c.stack id = .ok after) :
    ∃ after', q.reduction d.stack (number id) = .ok after' ∧
      Matched size good tokens errors ⟨after, c.rest⟩ ⟨after', d.rest⟩ := by
  obtain ⟨rule, value, next, found, enough, _, target, rfl⟩ := reduction_cases done
  obtain ⟨rule', found', arity, same⟩ := mirrors.rule id rule found
  have popped := h.pop rule.arity
  have enough' : rule'.arity ≤ d.stack.values.length := by
    rw [arity, h.count]
    exact enough
  have operands : ∀ arg ∈ d.stack.operands rule'.arity, good arg := by
    intro arg member
    exact h.good arg (List.mem_of_mem_take (List.mem_reverse.1 member))
  obtain ⟨value', combined, fine⟩ := mirrors.combine rule' (Grammar.mem_of_rule? found') _
    (Stack.length_operands enough') operands
  have base : (d.stack.pop rule.arity).current = (c.stack.pop rule.arity).current := popped.state
  have target' : q.table.goto? (d.stack.pop rule'.arity).current rule'.name = some next := by
    rw [arity, base]
    exact (mirrors.goto _ (popped.state_lt mirrors.root) _ _ same).trans target
  refine ⟨(d.stack.pop rule'.arity).push next value', ?_, ?_⟩
  · simp only [Parser.reduction, found', Nat.not_lt.2 enough', if_false, combined, target']
  · rw [arity]
    exact popped.push (mirrors.target _ (Table.goto_mem_edges target)) value fine h.items

theorem Mirrors.refusal (h : Matched size good tokens errors c d) :
    Alike name tokens errors (p.refusal c) (q.refusal d) := by
  have small := h.state_lt mirrors.root
  have expected := mirrors.expected _ small
  have state := h.state
  obtain ⟨stack, rest⟩ := c
  obtain ⟨stack', rest'⟩ := d
  obtain ⟨_, _, _, _, items⟩ := h
  unfold Parser.refusal
  rw [expected, ← state]
  cases items with
  | nil => exact .unexpectedEnd _ _
  | cons here later =>
    cases here with
    | token same => exact .unexpectedToken same _ _
    | error same => exact .lexer same

omit [DecidableEq S] [DecidableEq T] mirrors in
theorem acceptance_alike {stack : Stack V} {stack' : Stack W}
    (count : stack'.values.length = stack.values.length)
    (sound : (stack.acceptance : Outcome S V E).Sound) :
    Alike name tokens errors stack.acceptance stack'.acceptance := by
  by_cases one : stack.values.length = 1
  · obtain ⟨v, only⟩ := List.length_eq_one_iff.1 one
    obtain ⟨w, only'⟩ := List.length_eq_one_iff.1 (count.trans one)
    unfold Stack.acceptance
    rw [only, only']
    exact .value v w
  · have broken : (stack.acceptance : Outcome S V E) =
        .error (.table (.invalidAccept stack.values.length)) := by
      unfold Stack.acceptance
      split
      next only =>
        rw [only] at one
        exact absurd rfl one
      next => rfl
    exact absurd broken (sound.1 _)

variable (named : ∀ t u, tokens t u → name u.symbol = some t.symbol ∧ good u.value)

include named

theorem Mirrors.lookahead (h : Matched size good tokens errors c d) :
    p.lookahead? c.rest = none ∧ q.lookahead? d.rest = none ∨
      ∃ x y, p.lookahead? c.rest = some x ∧ q.lookahead? d.rest = some y ∧ name y = some x := by
  obtain ⟨stack, rest⟩ := c
  obtain ⟨stack', rest'⟩ := d
  obtain ⟨_, _, _, _, items⟩ := h
  cases items with
  | nil => exact .inr mirrors.ending
  | cons here later =>
    cases here with
    | token same => exact .inr ⟨_, _, rfl, rfl, (named _ _ same).1⟩
    | error _ => exact .inl ⟨rfl, rfl⟩

theorem Mirrors.go (h : Matched size good tokens errors c d) {s : Step}
    (move : p.move c = .go s c') :
    ∃ d', q.move d = .go (s.renumbered number) d' ∧ Matched size good tokens errors c' d' := by
  have small := h.state_lt mirrors.root
  have state : d.stack.current = c.state := h.state
  rcases move_go_cases move with
    ⟨token, rest, next, items, entry, rfl, rfl⟩ | ⟨symbol, id, after, look, entry, done, rfl, rfl⟩
  · obtain ⟨stack', rest'⟩ := d
    have paired := h.items
    rw [items] at paired
    cases paired with
    | cons here later =>
      cases here with
      | @token _ u same =>
        obtain ⟨symbol, fine⟩ := named token u same
        have entry' : q.table.action? stack'.current u.symbol = some (.shift next) := by
          rw [state, mirrors.action _ small _ _ symbol, entry]
          rfl
        have target := mirrors.target _ (Table.shift_mem_edges entry)
        have matched := h.push target token.value fine later
        refine ⟨_, ?_, matched⟩
        have step := matched.step number c.state (.shift next)
        rw [← step, ← state]
        exact move_of_shift rfl entry'
  · obtain ⟨after', done', matched⟩ := mirrors.reduction h done
    rcases mirrors.lookahead named h with ⟨none, _⟩ | ⟨x, y, look', ahead, same⟩
    · rw [look] at none
      cases none
    · obtain rfl := Option.some.inj (look.symm.trans look')
      have entry' : q.table.action? d.stack.current y = some (.reduce (number id)) := by
        rw [state, mirrors.action _ small _ _ same, entry]
        rfl
      refine ⟨_, ?_, matched⟩
      have step := matched.step number c.state (.reduce id)
      rw [← step, ← state]
      exact move_of_reduce ahead entry' done'

theorem Mirrors.halt (h : Matched size good tokens errors c d) {ss : List Step}
    {o : Outcome S V E} (last : p.move c = .halt ss o) (sound : o.Sound) :
    ∃ o', q.move d = .halt (ss.map (Step.renumbered number)) o' ∧
      Alike name tokens errors o o' := by
  have small := h.state_lt mirrors.root
  have state : d.stack.current = c.state := h.state
  rcases move_halt_cases last with
    ⟨free, rfl, rfl⟩ | ⟨symbol, look, ⟨_, _, _, _, rfl⟩ | ⟨_, cause, _, _, _, rfl⟩ |
      ⟨entry, rfl, rfl⟩⟩
  · refine ⟨q.refusal d, ?_, mirrors.refusal h⟩
    rcases mirrors.lookahead named h with ⟨_, none⟩ | ⟨x, y, look, ahead, same⟩
    · exact move_of_no_lookahead none
    · apply move_of_reject ahead
      rw [state, mirrors.action _ small _ _ same, free x look]
      rfl
  · exact absurd rfl (sound.1 _)
  · cases cause with
    | table e => exact absurd rfl (sound.1 e)
    | fault f => exact absurd rfl (sound.2 f)
  · rcases mirrors.lookahead named h with ⟨none, _⟩ | ⟨x, y, look', ahead, same⟩
    · rw [look] at none
      cases none
    · obtain rfl := Option.some.inj (look.symm.trans look')
      have entry' : q.table.action? d.stack.current y = some .accept := by
        rw [state, mirrors.action _ small _ _ same, entry]
        rfl
      have step := h.step number c.state .accept
      refine ⟨d.stack.acceptance, ?_, ?_⟩
      · rw [List.map_singleton, ← step, ← state]
        exact move_of_accept ahead entry'
      · exact acceptance_alike h.count sound

theorem Mirrors.halts (h : Matched size good tokens errors c d) {ss : List Step}
    {o : Outcome S V E} (halts : p.Halts c ss o) (sound : o.Sound) :
    ∃ o', q.Halts d (ss.map (Step.renumbered number)) o' ∧ Alike name tokens errors o o' := by
  induction halts generalizing d with
  | stop last =>
    obtain ⟨o', last', alike⟩ := mirrors.halt named h last sound
    exact ⟨o', .stop last', alike⟩
  | go first later ih =>
    obtain ⟨d', first', matched⟩ := mirrors.go named h first
    obtain ⟨o', halts, alike⟩ := ih matched sound
    exact ⟨o', .go first' halts, alike⟩

/-- Runs of the two parsers on items that go together take the same steps, and end alike, unless
the first run breaks down. -/
theorem Mirrors.run {items : List (Except E (Token S V))} {items' : List (Except F (Token T W))}
    (paired : List.Forall₂ (Paired tokens errors) items items') {limit limit' : Nat}
    (ended : (p.run limit items).outcome ≠ .unfinished) (sound : (p.run limit items).outcome.Sound)
    (room : (p.run limit items).reductions.length < limit') :
    (q.run limit' items').steps = (p.run limit items).steps.map (Step.renumbered number) ∧
      (q.run limit' items').pulled = (p.run limit items).pulled ∧
      Alike name tokens errors (p.run limit items).outcome (q.run limit' items').outcome := by
  have matched : Matched size good tokens errors (.initial items) (.initial items') :=
    .initial mirrors.root paired
  obtain ⟨o', halts, alike⟩ := mirrors.halts named matched (halts_of_run ended) sound
  have short : (reductions ((p.run limit items).steps.map (Step.renumbered number))).length <
      limit' := by
    rw [reductions_renumbered]
    exact room
  obtain ⟨outcome, steps⟩ := run_of_halts halts short
  refine ⟨steps, ?_, ?_⟩
  · rw [run_pulled, run_pulled, Run.shiftCount, steps, shiftCount_renumbered, paired.length_eq]
    rfl
  · rw [outcome]
    exact alike

end Moves

end Parser

end ShiftReduce
