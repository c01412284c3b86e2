import Mathlib.Algebra.Order.Ring.Int
import ShiftReduce.Parser.Run
/-!
The abstract shift-reduce machine. A configuration is a stack and the items that are left; one
move either reports a step and leads to another configuration, or halts. The machine has no limit:
that a parse ends is that the machine halts. Its moves are a function, so a configuration has at
most one history.
-/
namespace ShiftReduce

variable {S V E : Type}

def Step.isShift (s : Step) : Bool :=
  match s.action with
  | .shift _ => true
  | _ => false

def Step.reducedBy? (s : Step) : Option Nat :=
  match s.action with
  | .reduce id => some id
  | _ => none

def shiftCount (steps : List Step) : Nat := steps.countP Step.isShift

def reductions (steps : List Step) : List Nat := steps.filterMap Step.reducedBy?

theorem shiftCount_append (ss ts : List Step) :
    shiftCount (ss ++ ts) = shiftCount ss + shiftCount ts := List.countP_append

theorem reductions_append (ss ts : List Step) :
    reductions (ss ++ ts) = reductions ss ++ reductions ts := List.filterMap_append

def Rule.combine (rule : Rule S V) (args : List V) : Except (Breakdown S V) V :=
  match rule.callback, args with
  | some callback, args => (callback.apply args).mapError .fault
  | none, [value] => .ok value
  | none, _ => .error (.table (.missingCallback rule.id rule.arity))

def Breakdown.outcome : Breakdown S V → Outcome S V E
  | .table e => .error (.table e)
  | .fault f => .fault f

structure Config (S V E : Type) where
  stack : Stack V
  rest : List (Except E (Token S V))

def Config.initial (items : List (Except E (Token S V))) : Config S V E := ⟨.initial, items⟩

def Config.state (c : Config S V E) : Nat := c.stack.current

inductive Move (S V E : Type) where
  | go (step : Step) (next : Config S V E)
  | halt (steps : List Step) (outcome : Outcome S V E)

def Stack.step (stack : Stack V) (state : Nat) (action : Action) : Step :=
  ⟨state, action, stack.states.length, stack.values.length⟩

def Config.shift (c : Config S V E) (next : Nat) : Move S V E :=
  match c.rest with
  | .ok token :: rest =>
    let stack := c.stack.push next token.value
    .go (stack.step c.state (.shift next)) ⟨stack, rest⟩
  | _ => .halt [] (.error (.table (.shiftAtEnd c.state)))

def Stack.acceptance (stack : Stack V) : Outcome S V E :=
  match stack.values with
  | [value] => .value value
  | values => .error (.table (.invalidAccept values.length))

namespace Parser

variable (p : Parser S V)

def lookahead? : List (Except E (Token S V)) → Option S
  | [] => p.endOfInput
  | .ok token :: _ => some token.symbol
  | .error _ :: _ => none

def refusal (c : Config S V E) : Outcome S V E :=
  match c.rest with
  | [] => .error (.unexpectedEnd c.state (p.table.expected c.state))
  | .ok token :: _ => .error (.unexpectedToken token c.state (p.table.expected c.state))
  | .error e :: _ => .error (.lexer e)

variable [DecidableEq S]

/-- The stack after a reduction. The callback runs before the goto is looked up. -/
def reduction (stack : Stack V) (id : Nat) : Except (Breakdown S V) (Stack V) :=
  match p.grammar.rule? id with
  | none => .error (.table (.unknownRule stack.current id))
  | some rule =>
    if stack.values.length < rule.arity then
      .error (.table (.stackUnderflow rule.id rule.arity stack.values.length))
    else
      match rule.combine (stack.operands rule.arity) with
      | .error cause => .error cause
      | .ok value =>
        let popped := stack.pop rule.arity
        match p.table.goto? popped.current rule.name with
        | none => .error (.table (.missingGoto popped.current rule.name))
        | some next => .ok (popped.push next value)

def move (c : Config S V E) : Move S V E :=
  match (p.lookahead? c.rest).bind (p.table.action? c.state) with
  | none => .halt [] (p.refusal c)
  | some (.shift next) => c.shift next
  | some (.reduce id) =>
    match p.reduction c.stack id with
    | .error cause => .halt [] cause.outcome
    | .ok stack => .go (stack.step c.state (.reduce id)) ⟨stack, c.rest⟩
  | some .accept => .halt [c.stack.step c.state .accept] c.stack.acceptance

inductive Steps : Config S V E → List Step → Config S V E → Prop where
  | refl (c : Config S V E) : Steps c [] c
  | head {c next last : Config S V E} {s : Step} {ss : List Step}
      (first : p.move c = .go s next) (later : Steps next ss last) : Steps c (s :: ss) last

inductive Halts : Config S V E → List Step → Outcome S V E → Prop where
  | stop {c : Config S V E} {ss : List Step} {o : Outcome S V E}
      (last : p.move c = .halt ss o) : Halts c ss o
  | go {c next : Config S V E} {s : Step} {ss : List Step} {o : Outcome S V E}
      (first : p.move c = .go s next) (later : Halts next ss o) : Halts c (s :: ss) o

variable {p} {c d e : Config S V E} {ss ts : List Step} {o : Outcome S V E}

theorem Steps.single {s : Step} (first : p.move c = .go s d) : p.Steps c [s] d :=
  .head first (.refl d)

theorem Steps.trans (h : p.Steps c ss d) (later : p.Steps d ts e) : p.Steps c (ss ++ ts) e := by
  induction h with
  | refl => exact later
  | head first _ ih => exact .head first (ih later)

theorem Steps.halts (h : p.Steps c ss d) (later : p.Halts d ts o) : p.Halts c (ss ++ ts) o := by
  induction h with
  | refl => exact later
  | head first _ ih => exact .go first (ih later)

theorem Halts.unique {o' : Outcome S V E} (h : p.Halts c ss o) (h' : p.Halts c ts o') :
    ss = ts ∧ o = o' := by
  induction h generalizing ts with
  | stop last =>
    cases h' with
    | stop last' =>
      rw [last] at last'
      injection last' with same result
      exact ⟨same, result⟩
    | go first' =>
      rw [last] at first'
      cases first'
  | go first _ ih =>
    cases h' with
    | stop last' =>
      rw [first] at last'
      cases last'
    | go first' later' =>
      rw [first] at first'
      injection first' with same next
      subst next
      obtain ⟨rest, result⟩ := ih later'
      exact ⟨by rw [same, rest], result⟩

theorem Steps.prefix_of_halts (h : p.Steps c ss d) (whole : p.Halts c ts o) :
    ∃ us, ts = ss ++ us ∧ p.Halts d us o := by
  induction h generalizing ts with
  | refl => exact ⟨ts, rfl, whole⟩
  | head first _ ih =>
    cases whole with
    | stop last => rw [first] at last; cases last
    | go first' later' =>
      rw [first] at first'
      injection first' with same next
      subst next
      obtain ⟨us, split, halts⟩ := ih later'
      exact ⟨us, by rw [same, split]; rfl, halts⟩

theorem Halts.last_move (h : p.Halts c ss o) :
    ∃ d ts us, ss = ts ++ us ∧ p.Steps c ts d ∧ p.move d = .halt us o := by
  induction h with
  | stop last => exact ⟨_, [], _, rfl, .refl _, last⟩
  | go first _ ih =>
    obtain ⟨d, ts, us, split, steps, last⟩ := ih
    exact ⟨d, _ :: ts, us, by rw [split]; rfl, .head first steps, last⟩

end Parser

end ShiftReduce
