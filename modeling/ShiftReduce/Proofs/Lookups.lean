import ShiftReduce.Proofs.Stages
/-!
What a run reads of its table. It looks up one action for each stage, under the symbol that is next,
and a goto for each reduction, under the left-hand side of the rule. So a reduction that cannot be
made ends the run that looks it up, and tables in which the same is found have the same runs.
-/
namespace ShiftReduce

variable {S V E : Type} [DecidableEq S]

structure Table.Agrees (g : Grammar S V) (t u : Table S) : Prop where
  action : ∀ state symbol, u.action? state symbol = t.action? state symbol
  goto : ∀ state, ∀ rule ∈ g.rules, u.goto? state rule.name = t.goto? state rule.name

namespace Parser

def settleLookups (p : Parser S V) (lookahead : S) : Nat → Progress S V → List (Nat × S)
  | 0, _ => []
  | limit + 1, r =>
    (r.state, lookahead) ::
      match p.table.action? r.state lookahead with
      | some (.reduce id) =>
        match p.reduce r.state id r with
        | (.ok (), r) => p.settleLookups lookahead limit r
        | (.error _, _) => []
      | _ => []

def lookupsFrom (p : Parser S V) (limit : Nat) :
    Progress S V → List (Except E (Token S V)) → List (Nat × S)
  | r, [] =>
    match p.endOfInput with
    | none => []
    | some symbol => p.settleLookups symbol limit (r.note .endOfInput)
  | _, .error _ :: _ => []
  | r, .ok token :: items =>
    p.settleLookups token.symbol limit r.pull ++
      match p.settle token.symbol limit r.pull with
      | (.shift next, r) => p.lookupsFrom limit (r.shift r.state token next) items
      | _ => []

/-- The states and symbols for which the run on these items looks up an action, in order. -/
def lookups (p : Parser S V) (limit : Nat) (items : List (Except E (Token S V))) :
    List (Nat × S) :=
  p.lookupsFrom limit .initial items

variable {p : Parser S V} {limit : Nat} {r : Progress S V} {items : List (Except E (Token S V))}

section Breakdown

structure Stuck (p : Parser S V) (lookups : List (Nat × S)) (symbol : S) (stack : Stack V)
    (id : Nat) (cause : Breakdown S V) : Prop where
  member : (stack.current, symbol) ∈ lookups
  entry : p.table.action? stack.current symbol = some (.reduce id)
  failed : p.reduction stack id = .error cause

theorem Stuck.mono {few many : List (Nat × S)} {symbol : S} {stack : Stack V}
    {id : Nat} {cause : Breakdown S V} (h : p.Stuck few symbol stack id cause) (more : few ⊆ many) :
    p.Stuck many symbol stack id cause :=
  ⟨more h.member, h.entry, h.failed⟩

theorem stuck_of_settle {symbol : S} {cause : Breakdown S V} {after : Progress S V}
    (result : p.settle symbol limit r = (.breakdown cause, after)) :
    ∃ stack id, p.Stuck (p.settleLookups symbol limit r) symbol stack id cause := by
  induction limit generalizing r with
  | zero => cases result
  | succ limit ih =>
    simp only [settle] at result
    simp only [settleLookups]
    split at result
    · cases result
    · cases result
    · cases result
    next id entry =>
      cases reduced : p.reduce r.state id r with
      | mk done next =>
        rw [reduced] at result
        cases done with
        | error cause' =>
          cases result
          exact ⟨r.stack, id, List.mem_cons_self, entry, (reduce_error reduced).1⟩
        | ok done =>
          obtain ⟨stack, id', stuck⟩ := ih result
          refine ⟨stack, id', stuck.mono ?_⟩
          simp only [entry, reduced]
          exact List.subset_cons_self _ _

omit [DecidableEq S] in
theorem cause_of_fail {cause : Breakdown S V} {error : TableError S}
    (broken : (r.fail cause : Run S V E).outcome = .error (.table error)) :
    cause = .table error := by
  rw [Progress.fail_outcome] at broken
  cases cause with
  | table e =>
    cases broken
    rfl
  | fault f => cases broken

omit [DecidableEq S] in
theorem count_of_accept {error : TableError S}
    (broken : (r.accept : Run S V E).outcome = .error (.table error)) :
    ∃ count, error = .invalidAccept count := by
  rw [Progress.accept_outcome] at broken
  unfold Stack.acceptance at broken
  split at broken
  · cases broken
  · cases broken
    exact ⟨_, rfl⟩

theorem stuck_of_finish {error : TableError S}
    (broken : (p.finish limit r : Run S V E).outcome = .error (.table error)) :
    (∃ symbol stack id, p.Stuck (p.lookupsFrom limit r ([] : List (Except E (Token S V)))) symbol
        stack id (.table error)) ∨
      (∃ state, error = .shiftAtEnd state) ∨ ∃ count, error = .invalidAccept count := by
  simp only [finish] at broken
  simp only [lookupsFrom]
  cases ending : p.endOfInput with
  | none =>
    simp only [ending] at broken
    cases broken
  | some symbol =>
    simp only [ending] at broken
    cases result : p.settle symbol limit (r.note .endOfInput) with
    | mk decision after =>
      simp only [result] at broken
      cases decision with
      | shift next =>
        cases broken
        exact .inr (.inl ⟨_, rfl⟩)
      | accept => exact .inr (.inr (count_of_accept broken))
      | reject => cases broken
      | breakdown cause =>
        obtain rfl := cause_of_fail broken
        exact .inl ⟨symbol, stuck_of_settle result⟩
      | undecided => cases broken

theorem stuck_of_runFrom {error : TableError S}
    (broken : (p.runFrom limit r items).outcome = .error (.table error)) :
    (∃ symbol stack id, p.Stuck (p.lookupsFrom limit r items) symbol stack id (.table error)) ∨
      (∃ state, error = .shiftAtEnd state) ∨ ∃ count, error = .invalidAccept count := by
  induction items generalizing r with
  | nil => exact stuck_of_finish broken
  | cons item items ih =>
    cases item with
    | error e => cases broken
    | ok token =>
      simp only [runFrom] at broken
      simp only [lookupsFrom]
      cases result : p.settle token.symbol limit r.pull with
      | mk decision after =>
        simp only [result] at broken
        cases decision with
        | shift next =>
          rcases ih broken with ⟨symbol, stack, id, stuck⟩ | atEnd
          · exact .inl ⟨symbol, stack, id, stuck.mono (List.subset_append_right _ _)⟩
          · exact .inr atEnd
        | accept => exact .inr (.inr (count_of_accept broken))
        | reject => cases broken
        | breakdown cause =>
          obtain rfl := cause_of_fail broken
          obtain ⟨stack, id, stuck⟩ := stuck_of_settle result
          exact .inl ⟨token.symbol, stack, id, stuck.mono (List.subset_append_left _ _)⟩
        | undecided => cases broken

/-- A reduction that no stack of the state allows. -/
def Hopeless (p : Parser S V) (state id : Nat) : Prop :=
  ∀ stack : Stack V, stack.current = state → ∃ cause, p.reduction stack id = .error cause

variable {state id : Nat} {symbol : S}

theorem settle_of_hopeless {lookahead : S} (hopeless : p.Hopeless state id)
    (entry : p.table.action? state symbol = some (.reduce id))
    (member : (state, symbol) ∈ p.settleLookups lookahead limit r) :
    ∃ stack cause after, stack.current = state ∧ p.reduction stack id = .error cause ∧
      p.settle lookahead limit r = (.breakdown cause, after) := by
  induction limit generalizing r with
  | zero => cases member
  | succ limit ih =>
    simp only [settle]
    simp only [settleLookups] at member
    rcases List.mem_cons.1 member with here | later
    · obtain ⟨rfl, rfl⟩ := Prod.mk.inj here
      obtain ⟨cause, failed⟩ := hopeless r.stack rfl
      have spec := reduce_spec p r id
      rw [failed] at spec
      cases reduced : p.reduce r.state id r with
      | mk done after =>
        rw [reduced] at spec
        obtain ⟨rfl, _⟩ := spec
        exact ⟨r.stack, cause, after, rfl, failed, by simp only [entry, reduced]⟩
    · split at later
      next id' found =>
        split at later
        next next reduced =>
          obtain ⟨stack, cause, after, current, failed, result⟩ := ih later
          exact ⟨stack, cause, after, current, failed, by simp only [found, reduced, result]⟩
        · cases later
      · cases later

theorem runFrom_of_hopeless (hopeless : p.Hopeless state id)
    (entry : p.table.action? state symbol = some (.reduce id))
    (member : (state, symbol) ∈ p.lookupsFrom limit r items) :
    ∃ stack cause, stack.current = state ∧ p.reduction stack id = .error cause ∧
      (p.runFrom limit r items).outcome = cause.outcome := by
  induction items generalizing r with
  | nil =>
    simp only [runFrom, finish]
    simp only [lookupsFrom] at member
    cases ending : p.endOfInput with
    | none =>
      rw [ending] at member
      cases member
    | some last =>
      rw [ending] at member
      obtain ⟨stack, cause, after, current, failed, result⟩ :=
        settle_of_hopeless hopeless entry member
      exact ⟨stack, cause, current, failed, by simp only [result, Progress.fail_outcome]⟩
  | cons item items ih =>
    cases item with
    | error e => cases member
    | ok token =>
      simp only [runFrom]
      rcases List.mem_append.1 member with here | later
      · obtain ⟨stack, cause, after, current, failed, result⟩ :=
          settle_of_hopeless hopeless entry here
        exact ⟨stack, cause, current, failed, by simp only [result, Progress.fail_outcome]⟩
      · split at later
        next next after settled =>
          obtain ⟨stack, cause, current, failed, result⟩ := ih later
          exact ⟨stack, cause, current, failed, by simp only [settled, result]⟩
        · cases later

end Breakdown

section Agreement

variable {u : Table S} (agree : p.table.Agrees p.grammar u)
include agree

theorem reduce_agreeing (state id : Nat) (r : Progress S V) :
    ({ p with table := u } : Parser S V).reduce state id r = p.reduce state id r := by
  simp only [reduce]
  cases found : p.grammar.rule? id with
  | none => rfl
  | some rule => simp only [agree.goto _ rule (Grammar.mem_of_rule? found)]

theorem settle_agreeing (symbol : S) (limit : Nat) (r : Progress S V) :
    ({ p with table := u } : Parser S V).settle symbol limit r = p.settle symbol limit r := by
  induction limit generalizing r with
  | zero => rfl
  | succ limit ih => simp only [settle, agree.action, reduce_agreeing agree, ih]

theorem runFrom_agreeing (expected : ∀ state, u.expected state = p.table.expected state)
    (limit : Nat) (r : Progress S V) (items : List (Except E (Token S V))) :
    ({ p with table := u } : Parser S V).runFrom limit r items = p.runFrom limit r items := by
  induction items generalizing r with
  | nil => simp only [runFrom, finish, settle_agreeing agree, expected]
  | cons item items ih =>
    cases item with
    | error e => rfl
    | ok token => simp only [runFrom, settle_agreeing agree, expected, ih]

theorem run_agreeing (expected : ∀ state, u.expected state = p.table.expected state)
    (limit : Nat) (items : List (Except E (Token S V))) :
    ({ p with table := u } : Parser S V).run limit items = p.run limit items :=
  runFrom_agreeing agree expected limit .initial items

end Agreement

end Parser

end ShiftReduce
