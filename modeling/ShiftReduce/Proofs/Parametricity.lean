import Mathlib.Data.List.Forall2
import Mathlib.Data.Nat.Bits
import ShiftReduce.Proofs.Lockstep
/-!
Values do not steer a parse. Two grammars with the same productions differ in their callbacks only.
If these take corresponding operands to corresponding values, the parsers with one table for both
grammars make the same reports on corresponding items, and their outcomes correspond. Values that
are mapped by a homomorphism of callbacks correspond, and if no callback faults all values do.
-/
namespace ShiftReduce

variable {S V W E F : Type}

inductive Agree {A B X Y : Type} (errors : X → Y → Prop) (values : A → B → Prop) :
    Except X A → Except Y B → Prop where
  | ok {a : A} {b : B} (same : values a b) : Agree errors values (.ok a) (.ok b)
  | error {x : X} {y : Y} (same : errors x y) : Agree errors values (.error x) (.error y)

theorem Agree.mapError {A B X Y X' Y' : Type} {errors : X → Y → Prop} {errors' : X' → Y' → Prop}
    {values : A → B → Prop} {x : Except X A} {y : Except Y B} (h : Agree errors values x y)
    {f : X → X'} {g : Y → Y'} (map : ∀ {x y}, errors x y → errors' (f x) (g y)) :
    Agree errors' values (x.mapError f) (y.mapError g) := by
  cases h with
  | ok same => exact .ok same
  | error same => exact .error (map same)

/-- Two rules with one production, neither with a callback or both, and then with callbacks that are
related for so many operands. -/
structure Rule.Parallel (callbacks : Nat → Callback V → Callback W → Prop) (rule : Rule S V)
    (rule' : Rule S W) : Prop where
  production : rule'.toProduction = rule.toProduction
  callback : Option.Rel (callbacks rule.arity) rule.callback rule'.callback

def Grammar.Parallel (callbacks : Nat → Callback V → Callback W → Prop) (g : Grammar S V)
    (g' : Grammar S W) : Prop :=
  List.Forall₂ (Rule.Parallel callbacks) g.rules g'.rules

section Parallel

variable {callbacks callbacks' : Nat → Callback V → Callback W → Prop} {rule : Rule S V}
  {rule' : Rule S W}

theorem Rule.Parallel.callback_cases (h : rule.Parallel callbacks rule') :
    rule.callback = none ∧ rule'.callback = none ∨
      ∃ f g, rule.callback = some f ∧ rule'.callback = some g ∧ callbacks rule.arity f g := by
  have related := h.callback
  generalize rule.callback = found at related ⊢
  generalize rule'.callback = found' at related ⊢
  cases related with
  | none => exact .inl ⟨rfl, rfl⟩
  | some same => exact .inr ⟨_, _, rfl, rfl, same⟩

theorem Rule.Parallel.imp (weaker : ∀ count f g, callbacks count f g → callbacks' count f g)
    (h : rule.Parallel callbacks rule') : rule.Parallel callbacks' rule' := by
  refine ⟨h.production, ?_⟩
  rcases h.callback_cases with ⟨none, none'⟩ | ⟨f, g, found, found', same⟩
  · rw [none, none']
    exact .none
  · rw [found, found']
    exact .some (weaker _ f g same)

theorem Grammar.Parallel.rule? {g : Grammar S V} {g' : Grammar S W}
    (h : g.Parallel callbacks g') (id : Nat) :
    g.rule? id = none ∧ g'.rule? id = none ∨
      ∃ rule rule', g.rule? id = some rule ∧ g'.rule? id = some rule' ∧
        rule.Parallel callbacks rule' ∧ rule'.id = rule.id := by
  cases id with
  | zero => exact .inl ⟨rfl, rfl⟩
  | succ n =>
    obtain ⟨count, rules⟩ := List.forall₂_iff_get.1 h
    by_cases bound : n < g.rules.length
    · have bound' : n < g'.rules.length := count ▸ bound
      have found : g.rule? (n + 1) = some (g.rules.get ⟨n, bound⟩) :=
        List.getElem?_eq_getElem bound
      have found' : g'.rule? (n + 1) = some (g'.rules.get ⟨n, bound'⟩) :=
        List.getElem?_eq_getElem bound'
      exact .inr ⟨_, _, found, found', rules n bound bound',
        (id_of_rule? found').trans (id_of_rule? found).symm⟩
    · have absent := Nat.not_lt.1 bound
      exact .inl ⟨List.getElem?_eq_none absent, List.getElem?_eq_none (count ▸ absent)⟩

end Parallel

/-- What corresponds in two parses over the same symbols. -/
structure Correspondence (S V W E F : Type) where
  values : V → W → Prop
  faults : Fault V → Fault W → Prop
  tokens : Token S V → Token S W → Prop
  errors : E → F → Prop
  symbol : ∀ t u, tokens t u → u.symbol = t.symbol
  value : ∀ t u, tokens t u → values t.value u.value

namespace Correspondence

variable (R : Correspondence S V W E F)

def Callbacks (count : Nat) (f : Callback V) (g : Callback W) : Prop :=
  ∀ args args', args.length = count → List.Forall₂ R.values args args' →
    Agree R.faults R.values (f.apply args) (g.apply args')

inductive Breakdowns : Breakdown S V → Breakdown S W → Prop where
  | table (e : TableError S) : Breakdowns (.table e) (.table e)
  | fault {f : Fault V} {g : Fault W} (same : R.faults f g) : Breakdowns (.fault f) (.fault g)

inductive Decisions : Decision S V → Decision S W → Prop where
  | shift (next : Nat) : Decisions (.shift next) (.shift next)
  | accept : Decisions .accept .accept
  | reject : Decisions .reject .reject
  | breakdown {cause : Breakdown S V} {cause' : Breakdown S W} (same : R.Breakdowns cause cause') :
      Decisions (.breakdown cause) (.breakdown cause')
  | undecided : Decisions .undecided .undecided

inductive Outcomes : Outcome S V E → Outcome S W F → Prop where
  | value {v : V} {w : W} (same : R.values v w) : Outcomes (.value v) (.value w)
  | lexer {e : E} {f : F} (same : R.errors e f) :
      Outcomes (.error (.lexer e)) (.error (.lexer f))
  | unexpectedToken {t : Token S V} {u : Token S W} (same : R.tokens t u) (state : Nat)
      (expected : List S) :
      Outcomes (.error (.unexpectedToken t state expected))
        (.error (.unexpectedToken u state expected))
  | unexpectedEnd (state : Nat) (expected : List S) :
      Outcomes (.error (.unexpectedEnd state expected)) (.error (.unexpectedEnd state expected))
  | table (e : TableError S) : Outcomes (.error (.table e)) (.error (.table e))
  | fault {f : Fault V} {g : Fault W} (same : R.faults f g) : Outcomes (.fault f) (.fault g)
  | unfinished : Outcomes .unfinished .unfinished

structure Stacks (s : Stack V) (s' : Stack W) : Prop where
  states : s'.states = s.states
  values : List.Forall₂ R.values s.values s'.values

structure Progresses (r : Progress S V) (r' : Progress S W) : Prop where
  stack : R.Stacks r.stack r'.stack
  pulled : r'.pulled = r.pulled
  reports : r'.reports = r.reports

structure Runs (run : Run S V E) (run' : Run S W F) : Prop where
  outcome : R.Outcomes run.outcome run'.outcome
  pulled : run'.pulled = run.pulled
  reports : run'.reports = run.reports

structure Parsers (p : Parser S V) (q : Parser S W) : Prop where
  table : q.table = p.table
  endOfInput : q.endOfInput = p.endOfInput
  grammar : p.grammar.Parallel R.Callbacks q.grammar

variable {R}

section Stacks

variable {s : Stack V} {s' : Stack W}

theorem Stacks.current (h : R.Stacks s s') : s'.current = s.current :=
  congrArg (fun states => states.headD 0) h.states

theorem Stacks.push (h : R.Stacks s s') (next : Nat) {v : V} {w : W} (same : R.values v w) :
    R.Stacks (s.push next v) (s'.push next w) :=
  ⟨congrArg (next :: ·) h.states, .cons same h.values⟩

theorem Stacks.pop (h : R.Stacks s s') (count : Nat) : R.Stacks (s.pop count) (s'.pop count) :=
  ⟨congrArg (List.drop count) h.states, List.forall₂_drop count h.values⟩

theorem Stacks.operands (h : R.Stacks s s') (count : Nat) :
    List.Forall₂ R.values (s.operands count) (s'.operands count) :=
  List.forall₂_reverse_iff.2 (List.forall₂_take count h.values)

theorem Stacks.step (h : R.Stacks s s') (state : Nat) (action : Action) :
    s'.step state action = s.step state action := by
  unfold Stack.step
  rw [h.states, h.values.length_eq]

theorem Stacks.reduce (h : R.Stacks s s') {rule : Rule S V} {rule' : Rule S W}
    (parallel : rule.Parallel R.Callbacks rule') (number : rule'.id = rule.id) :
    Agree R.Breakdowns R.values (s.reduce rule).1 (s'.reduce rule').1 ∧
      R.Stacks (s.reduce rule).2 (s'.reduce rule').2 := by
  have arity : rule'.arity = rule.arity := congrArg (·.components.length) parallel.production
  have operands := h.operands rule.arity
  have popped := h.pop rule.arity
  simp only [Stack.reduce, arity, number, ← h.values.length_eq]
  split
  · exact ⟨.error (.table _), h⟩
  next enough =>
    rcases parallel.callback_cases with ⟨none, none'⟩ | ⟨f, g, found, found', same⟩
    · rw [none, none']
      by_cases one : rule.arity = 1
      · simp only [if_pos one]
        generalize s.operands rule.arity = args at operands ⊢
        generalize s'.operands rule.arity = args' at operands ⊢
        cases operands with
        | nil => exact ⟨.error (.table _), popped⟩
        | cons same _ => exact ⟨.ok same, popped⟩
      · simp only [if_neg one]
        exact ⟨.error (.table _), h⟩
    · rw [found, found']
      have results := same _ _ (Stack.length_operands (Nat.not_lt.1 enough)) operands
      exact ⟨results.mapError .fault, popped⟩

end Stacks

section Progresses

variable {r : Progress S V} {r' : Progress S W}

theorem Progresses.initial : R.Progresses .initial .initial := ⟨⟨rfl, .nil⟩, rfl, rfl⟩

theorem Progresses.state (h : R.Progresses r r') : r'.state = r.state := h.stack.current

theorem Progresses.pull (h : R.Progresses r r') : R.Progresses r.pull r'.pull :=
  ⟨h.stack, congrArg Nat.succ h.pulled, h.reports⟩

theorem Progresses.note (h : R.Progresses r r') (entry : LogEntry S V) (entry' : LogEntry S W) :
    R.Progresses (r.note entry) (r'.note entry') :=
  ⟨h.stack, h.pulled, h.reports⟩

theorem Progresses.report (h : R.Progresses r r') (state : Nat) (action : Action) :
    R.Progresses (r.report state action) (r'.report state action) := by
  refine ⟨h.stack, h.pulled, ?_⟩
  have step : r'.stack.step state action = r.stack.step state action := h.stack.step state action
  have reports : r'.reports.push ⟨r'.pulled, r'.stack.step state action⟩ =
      r.reports.push ⟨r.pulled, r.stack.step state action⟩ := by rw [h.reports, h.pulled, step]
  exact reports

theorem Progresses.push (h : R.Progresses r r') (next : Nat) {v : V} {w : W}
    (same : R.values v w) : R.Progresses (r.push next v) (r'.push next w) :=
  ⟨h.stack.push next same, h.pulled, h.reports⟩

theorem Progresses.shift (h : R.Progresses r r') (state next : Nat) {t : Token S V}
    {u : Token S W} (same : R.tokens t u) :
    R.Progresses (r.shift state t next) (r'.shift state u next) :=
  ((h.note _ _).push next (R.value t u same)).report state (.shift next)

theorem Progresses.remarks (h : R.Progresses r r') (texts texts' : List String) :
    R.Progresses (texts.foldl (fun r text => r.note (.remark text)) r)
      (texts'.foldl (fun r text => r.note (.remark text)) r') := by
  rw [Progress.remarks_eq, Progress.remarks_eq]
  exact ⟨h.stack, h.pulled, h.reports⟩

theorem Progresses.stop (h : R.Progresses r r') {o : Outcome S V E} {o' : Outcome S W F}
    (same : R.Outcomes o o') : R.Runs (r.stop o) (r'.stop o') :=
  ⟨same, h.pulled, h.reports⟩

theorem Progresses.fail (h : R.Progresses r r') {cause : Breakdown S V}
    {cause' : Breakdown S W} (same : R.Breakdowns cause cause') :
    R.Runs (r.fail cause) (r'.fail cause') := by
  cases same with
  | table e => exact h.stop (.table e)
  | fault same => exact h.stop (.fault same)

theorem Stacks.acceptance {s : Stack V} {s' : Stack W} (h : R.Stacks s s') :
    R.Outcomes s.acceptance s'.acceptance := by
  have values := h.values
  unfold Stack.acceptance
  generalize s.values = vs at values ⊢
  generalize s'.values = ws at values ⊢
  cases values with
  | nil => exact .table _
  | cons first later =>
    cases later with
    | nil => exact .value first
    | cons second later =>
      simp only [List.length_cons, later.length_eq]
      exact .table _

theorem Progresses.accept (h : R.Progresses r r') : R.Runs r.accept r'.accept := by
  have reported := h.report r.state .accept
  have result := h.stack.acceptance (E := E) (F := F)
  rw [← Progress.accept_outcome, ← Progress.accept_outcome] at result
  refine ⟨result, ?_, ?_⟩
  · rw [Progress.accept_pulled, Progress.accept_pulled, h.pulled]
  · rw [Progress.accept_eq, Progress.accept_eq, h.state]
    exact reported.reports

end Progresses

section Parsers

variable [DecidableEq S] {p : Parser S V} {q : Parser S W} {r : Progress S V} {r' : Progress S W}

theorem Parsers.reduce (same : R.Parsers p q) (h : R.Progresses r r') (state id : Nat) :
    Agree R.Breakdowns (fun _ _ => True) (p.reduce state id r).1 (q.reduce state id r').1 ∧
      R.Progresses (p.reduce state id r).2 (q.reduce state id r').2 := by
  rcases same.grammar.rule? id with
    ⟨absent, absent'⟩ | ⟨rule, rule', found, found', parallel, number⟩
  · simp only [Parser.reduce, absent, absent']
    exact ⟨.error (.table _), h⟩
  · have reduced := h.stack.reduce parallel number
    cases result : r.stack.reduce rule with
    | mk outcome stack =>
      cases result' : r'.stack.reduce rule' with
      | mk outcome' stack' =>
        rw [result, result'] at reduced
        obtain ⟨agree, popped⟩ := reduced
        cases agree with
        | error cause =>
          simp only [Parser.reduce, found, found', result, result']
          exact ⟨.error cause, popped, h.pulled, h.reports⟩
        | ok value =>
          have here : R.Progresses { r with stack } { r' with stack := stack' } :=
            ⟨popped, h.pulled, h.reports⟩
          simp only [Parser.reduce, found, found', result, result', same.table,
            parallel.production, popped.current]
          cases p.table.goto? stack.current rule.name with
          | none => exact ⟨.error (.table _), here.remarks _ _⟩
          | some next =>
            -- the remarks of two callbacks need not correspond, and are logged only
            refine ⟨.ok trivial, Progresses.report (Progresses.push ?_ next value) state _⟩
            exact (here.remarks _ _).note _ _

theorem Parsers.settle (same : R.Parsers p q) (lookahead : S) (limit : Nat)
    (h : R.Progresses r r') :
    R.Decisions (p.settle lookahead limit r).1 (q.settle lookahead limit r').1 ∧
      R.Progresses (p.settle lookahead limit r).2 (q.settle lookahead limit r').2 := by
  induction limit generalizing r r' with
  | zero => exact ⟨.undecided, h⟩
  | succ limit ih =>
    simp only [Parser.settle, h.state, same.table]
    split
    · exact ⟨.shift _, h⟩
    · exact ⟨.accept, h⟩
    · exact ⟨.reject, h⟩
    next id entry =>
      have reduced := same.reduce h r.state id
      cases result : p.reduce r.state id r with
      | mk outcome here =>
        cases result' : q.reduce r.state id r' with
        | mk outcome' here' =>
          rw [result, result'] at reduced
          obtain ⟨agree, progress⟩ := reduced
          cases agree with
          | error cause => exact ⟨.breakdown cause, progress⟩
          | ok _ => exact ih progress

omit [DecidableEq S] in
theorem Parsers.unexpectedToken (same : R.Parsers p q) (h : R.Progresses r r') {t : Token S V}
    {u : Token S W} (pair : R.tokens t u) :
    R.Runs (E := E) (F := F)
      ((r.note (.unexpectedToken t r.state)).stop
        (.error (.unexpectedToken t r.state (p.table.expected r.state))))
      ((r'.note (.unexpectedToken u r'.state)).stop
        (.error (.unexpectedToken u r'.state (q.table.expected r'.state)))) := by
  rw [h.state, same.table]
  exact (h.note _ _).stop (.unexpectedToken pair _ _)

omit [DecidableEq S] in
theorem Parsers.unexpectedEnd (same : R.Parsers p q) (h : R.Progresses r r') :
    R.Runs (E := E) (F := F)
      (r.stop (.error (.unexpectedEnd r.state (p.table.expected r.state))))
      (r'.stop (.error (.unexpectedEnd r'.state (q.table.expected r'.state)))) := by
  rw [h.state, same.table]
  exact h.stop (.unexpectedEnd _ _)

theorem Parsers.finish (same : R.Parsers p q) (limit : Nat) (h : R.Progresses r r') :
    R.Runs (p.finish limit r) (q.finish limit r') := by
  cases ending : p.endOfInput with
  | none =>
    simp only [Parser.finish, same.endOfInput, ending]
    exact same.unexpectedEnd (h.note _ _)
  | some symbol =>
    simp only [Parser.finish, same.endOfInput, ending]
    have settled := same.settle symbol limit (h.note .endOfInput .endOfInput)
    cases result : p.settle symbol limit (r.note .endOfInput) with
    | mk decision here =>
      cases result' : q.settle symbol limit (r'.note .endOfInput) with
      | mk decision' here' =>
        rw [result, result'] at settled
        obtain ⟨decisions, progress⟩ := settled
        cases decisions with
        | shift next =>
          simp only [progress.state]
          exact progress.stop (.table _)
        | accept => exact progress.accept
        | reject => exact same.unexpectedEnd (progress.note _ _)
        | breakdown cause => exact progress.fail cause
        | undecided => exact progress.stop .unfinished

theorem Parsers.runFrom (same : R.Parsers p q) (limit : Nat) (h : R.Progresses r r')
    {items : List (Except E (Token S V))} {items' : List (Except F (Token S W))}
    (paired : List.Forall₂ (Paired R.tokens R.errors) items items') :
    R.Runs (p.runFrom limit r items) (q.runFrom limit r' items') := by
  induction paired generalizing r r' with
  | nil => exact same.finish limit h
  | cons first _ ih =>
    cases first with
    | error e => exact h.pull.stop (.lexer e)
    | @token t u pair =>
      have settled := same.settle t.symbol limit h.pull
      simp only [Parser.runFrom, R.symbol t u pair]
      cases result : p.settle t.symbol limit r.pull with
      | mk decision here =>
        cases result' : q.settle t.symbol limit r'.pull with
        | mk decision' here' =>
          rw [result, result'] at settled
          obtain ⟨decisions, progress⟩ := settled
          cases decisions with
          | shift next =>
            have shifted := progress.shift here.state next pair
            simp only [progress.state]
            exact ih shifted
          | accept => exact (progress.note _ _).accept
          | reject =>
            exact same.unexpectedToken progress pair
          | breakdown cause => exact progress.fail cause
          | undecided => exact progress.stop .unfinished

theorem Parsers.run (same : R.Parsers p q) (limit : Nat) {items : List (Except E (Token S V))}
    {items' : List (Except F (Token S W))}
    (paired : List.Forall₂ (Paired R.tokens R.errors) items items') :
    R.Runs (p.run limit items) (q.run limit items') :=
  same.runFrom limit .initial paired

end Parsers

end Correspondence

section Homomorphism

def Token.map (h : V → W) (t : Token S V) : Token S W := ⟨t.symbol, h t.value, t.line⟩

def Fault.map (h : V → W) : Fault V → Fault W
  | .overflow operation => .overflow operation
  | .missingOperand index count => .missingOperand index count
  | .unexpectedOperands first second => .unexpectedOperands (first.map h) (second.map h)
  | .missingContents count => .missingContents count

def Outcome.map (h : V → W) : Outcome S V E → Outcome S W E
  | .value v => .value (h v)
  | .error (.lexer e) => .error (.lexer e)
  | .error (.unexpectedToken token state expected) =>
    .error (.unexpectedToken (token.map h) state expected)
  | .error (.unexpectedEnd state expected) => .error (.unexpectedEnd state expected)
  | .error (.table e) => .error (.table e)
  | .fault f => .fault (f.map h)
  | .unfinished => .unfinished

/-- For so many operands, to map them is to map the value of the callback, or its fault if it has no
value. -/
def Callback.MapsTo (h : V → W) (count : Nat) (f : Callback V) (g : Callback W) : Prop :=
  ∀ args, args.length = count →
    g.apply (args.map h) = ((f.apply args).map h).mapError (Fault.map h)

def Correspondence.ofMap (S E : Type) (h : V → W) : Correspondence S V W E E where
  values v w := h v = w
  faults f g := f.map h = g
  tokens t u := t.map h = u
  errors := Eq
  symbol := by
    rintro t _ rfl
    rfl
  value := by
    rintro t _ rfl
    rfl

variable {h : V → W}

theorem Callback.MapsTo.callbacks {count : Nat} {f : Callback V} {g : Callback W}
    (maps : Callback.MapsTo h count f g) :
    (Correspondence.ofMap S E h).Callbacks count f g := by
  intro args args' length related
  have mapped : List.Forall₂ Eq (args.map h) args' := List.forall₂_map_left_iff.2 related
  rw [List.forall₂_eq_eq_eq] at mapped
  rw [← mapped, maps args length]
  cases f.apply args with
  | ok v => exact .ok rfl
  | error fault => exact .error rfl

theorem Correspondence.paired_map (h : V → W) (items : List (Except E (Token S V))) :
    List.Forall₂ (Paired (ofMap S E h).tokens (ofMap S E h).errors) items
      (items.map (Except.map (Token.map h))) := by
  apply List.forall₂_map_right_iff.2
  apply List.forall₂_same.2
  rintro (e | t) _
  · exact .error rfl
  · exact .token rfl

theorem Correspondence.Outcomes.eq_map {o : Outcome S V E} {o' : Outcome S W E}
    (related : (ofMap S E h).Outcomes o o') : o' = o.map h := by
  cases related with
  | value same =>
    cases same
    rfl
  | lexer same =>
    cases same
    rfl
  | unexpectedToken same state expected =>
    cases same
    rfl
  | unexpectedEnd => rfl
  | table => rfl
  | fault same =>
    cases same
    rfl
  | unfinished => rfl

end Homomorphism

section Symbols

/-- The callback, if there is one, has a value for as many operands as the rule has components. -/
def Rule.Total (rule : Rule S V) : Prop :=
  ∀ callback, rule.callback = some callback → ∀ args, args.length = rule.arity →
    ∃ value, callback.apply args = .ok value

def Token.SameSymbol (t u : Token S V) : Prop := u.symbol = t.symbol

def Correspondence.ofSymbols (S V E : Type) : Correspondence S V V E E where
  values _ _ := True
  faults _ _ := True
  tokens := Token.SameSymbol
  errors _ _ := True
  symbol _ _ same := same
  value _ _ _ := trivial

theorem Rule.Total.parallel {rule : Rule S V} (total : rule.Total) :
    rule.Parallel (Correspondence.ofSymbols S V E).Callbacks rule := by
  refine ⟨rfl, ?_⟩
  cases found : rule.callback with
  | none => exact .none
  | some callback =>
    apply Option.Rel.some
    intro args args' length related
    obtain ⟨value, applied⟩ := total callback found args length
    obtain ⟨value', applied'⟩ := total callback found args' (related.length_eq ▸ length)
    rw [applied, applied']
    exact .ok trivial

theorem Rule.parallel_of_isEmpty [IsEmpty V] (rule : Rule S V) :
    rule.Parallel (Correspondence.ofSymbols S V E).Callbacks rule := by
  refine ⟨rfl, ?_⟩
  cases rule.callback with
  | none => exact .none
  | some callback =>
    apply Option.Rel.some
    intro args args' _ _
    rw [Subsingleton.elim args' args]
    cases callback.apply args with
    | ok value => exact .ok trivial
    | error fault => exact .error trivial

end Symbols

section Patched

def Callback.patched (d : V) (f : Callback V) : Callback V where
  apply args := .ok ((f.apply args).toOption.getD d)
  remarks := f.remarks

theorem Callback.patched_apply (d : V) {f : Callback V} {args : List V} {value : V}
    (applied : f.apply args = .ok value) : (f.patched d).apply args = .ok value := by
  simp only [patched, applied]
  rfl

def Rule.patched (d : V) (rule : Rule S V) : Rule S V :=
  { rule with callback := rule.callback.map (Callback.patched d) }

theorem Rule.patched_total (d : V) (rule : Rule S V) : (rule.patched d).Total := by
  intro callback found args _
  obtain ⟨f, _, rfl⟩ := Option.map_eq_some_iff.1 found
  exact ⟨_, rfl⟩

def Grammar.patched (d : V) (g : Grammar S V) : Grammar S V where
  rules := g.rules.map (Rule.patched d)
  start := g.start
  numbered := by
    rw [List.map_map, List.length_map]
    exact g.numbered
  distinct := by
    rw [List.map_map]
    exact g.distinct
  start_mem := by
    rw [List.map_map]
    exact g.start_mem

theorem Grammar.rule?_patched (d : V) (g : Grammar S V) (id : Nat) :
    (g.patched d).rule? id = (g.rule? id).map (Rule.patched d) := by
  cases id with
  | zero => rfl
  | succ n => exact List.getElem?_map ..

def Parser.patched (d : V) (p : Parser S V) : Parser S V :=
  { p with grammar := p.grammar.patched d }

def Outcome.Faultless (o : Outcome S V E) : Prop := ∀ f, o ≠ .fault f

theorem Stack.reduce_patched (d : V) {s : Stack V} {rule : Rule S V}
    (faultless : ∀ f, (s.reduce rule).1 ≠ .error (.fault f)) :
    s.reduce (rule.patched d) = s.reduce rule := by
  have arity : (rule.patched d).arity = rule.arity := rfl
  cases called : rule.callback with
  | none =>
    have called' : (rule.patched d).callback = none := congrArg (Option.map _) called
    simp only [reduce, called, called', arity]
    rfl
  | some f =>
    have called' : (rule.patched d).callback = some (f.patched d) := congrArg (Option.map _) called
    simp only [reduce, called] at faultless
    simp only [reduce, called, called', arity]
    split
    · rfl
    next enough =>
      rw [if_neg enough] at faultless
      cases applied : f.apply (s.operands rule.arity) with
      | ok value => rw [Callback.patched_apply d applied]
      | error fault =>
        rw [applied] at faultless
        exact absurd rfl (faultless fault)

namespace Parser

variable [DecidableEq S] {p : Parser S V}

theorem reduce_patched (d : V) {state id : Nat} {r : Progress S V}
    (faultless : ∀ f, (p.reduce state id r).1 ≠ .error (.fault f)) :
    (p.patched d).reduce state id r = p.reduce state id r := by
  have same := p.grammar.rule?_patched d id
  cases found : p.grammar.rule? id with
  | none =>
    have found' : (p.patched d).grammar.rule? id = none := by rw [patched, same, found]; rfl
    simp only [reduce, found, found']
  | some rule =>
    have found' : (p.patched d).grammar.rule? id = some (rule.patched d) := by
      rw [patched, same, found]
      rfl
    have reduced : r.stack.reduce (rule.patched d) = r.stack.reduce rule := by
      apply Stack.reduce_patched
      intro f fault
      cases result : r.stack.reduce rule with
      | mk outcome stack =>
        rw [result] at fault
        obtain rfl : outcome = _ := fault
        apply faultless f
        simp only [reduce, found, result]
    simp only [reduce, found, found', reduced]
    unfold Rule.patched
    -- a patched callback makes the remarks of the original
    cases rule.callback with
    | none => rfl
    | some f => rfl

theorem settle_patched (d : V) {lookahead : S} {limit : Nat} {r : Progress S V}
    (faultless : ∀ f, (p.settle lookahead limit r).1 ≠ .breakdown (.fault f)) :
    (p.patched d).settle lookahead limit r = p.settle lookahead limit r := by
  induction limit generalizing r with
  | zero => rfl
  | succ limit ih =>
    have table : (p.patched d).table = p.table := rfl
    cases entry : p.table.action? r.state lookahead with
    | none => simp only [settle, table, entry]
    | some action =>
      cases action with
      | shift next => simp only [settle, table, entry]
      | accept => simp only [settle, table, entry]
      | reduce id =>
        simp only [settle, entry] at faultless
        simp only [settle, table, entry]
        cases result : p.reduce r.state id r with
        | mk outcome here =>
          rw [result] at faultless
          have reduced : (p.patched d).reduce r.state id r = p.reduce r.state id r := by
            apply reduce_patched
            intro f fault
            rw [result] at fault
            obtain rfl : outcome = _ := fault
            exact absurd rfl (faultless f)
          rw [reduced, result]
          cases outcome with
          | error cause => rfl
          | ok done => exact ih faultless

theorem finish_patched (d : V) {limit : Nat} {r : Progress S V}
    (faultless : (p.finish limit r : Run S V E).outcome.Faultless) :
    ((p.patched d).finish limit r : Run S V E) = p.finish limit r := by
  cases ending : p.endOfInput with
  | none =>
    have ending' : (p.patched d).endOfInput = none := ending
    simp only [finish, ending, ending']
    rfl
  | some symbol =>
    have ending' : (p.patched d).endOfInput = some symbol := ending
    have settled : (p.patched d).settle symbol limit (r.note .endOfInput) =
        p.settle symbol limit (r.note .endOfInput) := by
      apply settle_patched
      intro f fault
      cases result : p.settle symbol limit (r.note .endOfInput) with
      | mk decision here =>
        rw [result] at fault
        obtain rfl : decision = _ := fault
        simp only [finish, ending, result] at faultless
        exact faultless f rfl
    simp only [finish, ending, ending', settled]
    rfl

theorem runFrom_patched (d : V) {limit : Nat} {r : Progress S V}
    {items : List (Except E (Token S V))}
    (faultless : (p.runFrom limit r items).outcome.Faultless) :
    (p.patched d).runFrom limit r items = p.runFrom limit r items := by
  induction items generalizing r with
  | nil => exact finish_patched d faultless
  | cons item items ih =>
    cases item with
    | error e => rfl
    | ok token =>
      cases result : p.settle token.symbol limit r.pull with
      | mk decision here =>
        simp only [runFrom, result] at faultless
        have settled : (p.patched d).settle token.symbol limit r.pull = (decision, here) := by
          rw [← result]
          apply settle_patched
          intro f fault
          rw [result] at fault
          obtain rfl : decision = _ := fault
          exact faultless f rfl
        simp only [runFrom, result, settled]
        cases decision with
        | shift next => exact ih faultless
        | accept => rfl
        | reject => rfl
        | breakdown cause => rfl
        | undecided => rfl

theorem run_patched (d : V) {limit : Nat} {items : List (Except E (Token S V))}
    (faultless : (p.run limit items).outcome.Faultless) :
    (p.patched d).run limit items = p.run limit items :=
  runFrom_patched d faultless

end Parser

end Patched

namespace Parser

variable [DecidableEq S]

theorem run_same_symbols (p : Parser S V) (limit : Nat) {items items' : List (Except E (Token S V))}
    (paired : List.Forall₂ (Paired Token.SameSymbol fun _ _ => True) items items')
    (faultless : (∀ rule ∈ p.grammar.rules, rule.Total) ∨
      (p.run limit items).outcome.Faultless ∧ (p.run limit items').outcome.Faultless) :
    (Correspondence.ofSymbols S V E).Runs (p.run limit items) (p.run limit items') := by
  have runs (q : Parser S V)
      (parallel : ∀ rule ∈ q.grammar.rules,
        rule.Parallel (Correspondence.ofSymbols S V E).Callbacks rule) :
      (Correspondence.ofSymbols S V E).Runs (q.run limit items) (q.run limit items') :=
    Correspondence.Parsers.run ⟨rfl, rfl, List.forall₂_same.2 parallel⟩ limit paired
  rcases faultless with total | ⟨faultless, faultless'⟩
  · exact runs p fun rule member => (total rule member).parallel
  · rcases isEmpty_or_nonempty V with none | ⟨⟨d⟩⟩
    · exact runs p fun rule _ => rule.parallel_of_isEmpty
    · rw [← run_patched d faultless, ← run_patched d faultless']
      apply runs
      intro rule member
      obtain ⟨original, _, rfl⟩ := List.mem_map.1 member
      exact (original.patched_total d).parallel

/-- Homomorphisms of callbacks commute with parsing, and tokens with the same symbols lead to the
same reports if no callback can fault, or if none does. -/
theorem values_do_not_steer (table : Table S) (endOfInput : Option S) (limit : Nat) :
    (∀ (h : V → W) (g : Grammar S V) (g' : Grammar S W), g.Parallel (Callback.MapsTo h) g' →
      ∀ items : List (Except E (Token S V)),
        let run := (Parser.mk g table endOfInput).run limit items
        let run' := (Parser.mk g' table endOfInput).run limit
          (items.map (Except.map (Token.map h)))
        run'.reports = run.reports ∧ run'.pulled = run.pulled ∧
          run'.outcome = run.outcome.map h) ∧
    ∀ (g : Grammar S V) (items items' : List (Except E (Token S V))),
      List.Forall₂ (Paired Token.SameSymbol fun _ _ => True) items items' →
      let run := (Parser.mk g table endOfInput).run limit items
      let run' := (Parser.mk g table endOfInput).run limit items'
      ((∀ rule ∈ g.rules, rule.Total) ∨ run.outcome.Faultless ∧ run'.outcome.Faultless) →
        run'.reports = run.reports ∧ run'.pulled = run.pulled := by
  constructor
  · intro h g g' parallel items
    have same : (Correspondence.ofMap S E h).Parsers ⟨g, table, endOfInput⟩
        ⟨g', table, endOfInput⟩ :=
      ⟨rfl, rfl, parallel.imp fun _ _ => .imp fun _ _ _ => Callback.MapsTo.callbacks⟩
    have runs := same.run limit (Correspondence.paired_map h items)
    exact ⟨runs.reports, runs.pulled, runs.outcome.eq_map⟩
  · intro g items items' paired run run' faultless
    have runs := run_same_symbols ⟨g, table, endOfInput⟩ limit paired faultless
    exact ⟨runs.reports, runs.pulled⟩

def summing (add : V → V → V) (zero : V) : Grammar String V where
  rules := [
    ⟨⟨"Sum", ["Sum", "+", "INT"]⟩, 1,
      some (.ofTotal fun args => add (args.headD zero) (args.getLastD zero))⟩,
    ⟨⟨"Sum", ["INT"]⟩, 2, none⟩]
  start := "Sum"
  numbered := rfl
  distinct := by simp
  start_mem := by simp

def sumTable : Table String := .ofSettings [
  .shift 0 "INT" 1, .goto 0 "Sum" 2, .reduce 1 "+" 2, .reduce 1 "$eof" 2,
  .shift 2 "+" 3, .accept 2 "$eof", .shift 3 "INT" 4, .reduce 4 "+" 1, .reduce 4 "$eof" 1]

theorem summing_maps {h : V → W} {add : V → V → V} {add' : W → W → W} {zero : V} {zero' : W}
    (hom : ∀ a b, h (add a b) = add' (h a) (h b)) :
    (summing add zero).Parallel (Callback.MapsTo h) (summing add' zero') := by
  refine .cons ⟨rfl, .some ?_⟩ (.cons ⟨rfl, .none⟩ .nil)
  intro args length
  obtain ⟨a, b, c, rfl⟩ := List.length_eq_three.1 length
  exact congrArg Except.ok (hom a c).symm

theorem summing_total (add : V → V → V) (zero : V) :
    ∀ rule ∈ (summing add zero).rules, rule.Total := by
  intro rule member callback found args _
  cases member with
  | head =>
    cases found
    exact ⟨_, rfl⟩
  | tail _ member =>
    cases member with
    | head => cases found
    | tail _ none => cases none

def sumOf (a b : Nat) : List (Except Unit (Token String Nat)) :=
  [.ok ⟨"INT", a, none⟩, .ok ⟨"+", 0, none⟩, .ok ⟨"INT", b, none⟩]

theorem one_plus_two_not_steered :
    let p := Parser.mk (summing Nat.add 0) sumTable (some "$eof")
    let q := Parser.mk (summing xor false) sumTable (some "$eof")
    let run := p.run 3 (sumOf 1 2)
    let run' := q.run 3 ((sumOf 1 2).map (Except.map (Token.map Nat.bodd)))
    run.outcome = .value 3 ∧ run'.outcome = .value true ∧ run'.reports = run.reports ∧
      (p.run 3 (sumOf 3 4)).reports = run.reports := by
  intro p q run run'
  have three : run.outcome = .value 3 := rfl
  obtain ⟨maps, symbols⟩ := values_do_not_steer (E := Unit) (W := Bool) sumTable (some "$eof") 3
  obtain ⟨reports, _, outcome⟩ := maps Nat.bodd (summing Nat.add 0) (summing xor false)
    (summing_maps Nat.bodd_add) (sumOf 1 2)
  have paired : List.Forall₂ (Paired Token.SameSymbol fun _ _ => True) (sumOf 1 2) (sumOf 3 4) :=
    .cons (.token rfl) (.cons (.token rfl) (.cons (.token rfl) .nil))
  have total := summing_total Nat.add 0
  exact ⟨three, outcome.trans (congrArg _ three), reports,
    (symbols (summing Nat.add 0) _ _ paired (.inl total)).1⟩

end Parser

end ShiftReduce
