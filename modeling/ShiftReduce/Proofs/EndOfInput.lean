import ShiftReduce.Arithmetic.Grammar
import ShiftReduce.Proofs.Pulled
/-!
An end token at the end of a word, and an end symbol that the parser puts in after the word. The
reductions under the last lookahead are the same, whatever the table is; the two differ only in what
they call a rejection and in that only a token can be shifted.
-/
namespace ShiftReduce

variable {S V E : Type}

namespace Progress

structure Agrees (r r' : Progress S V) : Prop where
  stack : r.stack = r'.stack
  steps : r.steps = r'.steps

theorem Agrees.state {r r' : Progress S V} (h : r.Agrees r') : r.state = r'.state :=
  congrArg Stack.current h.stack

end Progress

namespace Parser

variable [DecidableEq S] {p : Parser S V}

theorem reduce_agrees {r r' : Progress S V} (h : r.Agrees r') (state id : Nat) :
    (p.reduce state id r).1 = (p.reduce state id r').1 ∧
      (p.reduce state id r).2.Agrees (p.reduce state id r').2 := by
  have based (stack : Stack V) :
      ({ r with stack } : Progress S V).steps = ({ r' with stack } : Progress S V).steps := h.steps
  simp only [reduce, ← h.stack]
  split
  · exact ⟨rfl, h⟩
  · split
    · exact ⟨rfl, rfl, h.steps⟩
    · split
      · refine ⟨rfl, ?_, ?_⟩
        · simp
        · simp [based]
      · refine ⟨rfl, ?_, ?_⟩
        · simp
        · simp [based]

theorem settle_agrees {r r' : Progress S V} (h : r.Agrees r') (lookahead : S) (limit : Nat) :
    (p.settle lookahead limit r).1 = (p.settle lookahead limit r').1 ∧
      (p.settle lookahead limit r).2.Agrees (p.settle lookahead limit r').2 := by
  induction limit generalizing r r' with
  | zero => exact ⟨rfl, h⟩
  | succ limit ih =>
    simp only [settle, ← h.state]
    split
    · exact ⟨rfl, h⟩
    · exact ⟨rfl, h⟩
    · exact ⟨rfl, h⟩
    next id entry =>
      obtain ⟨same, agree⟩ := reduce_agrees (p := p) h r.state id
      cases left : p.reduce r.state id r with
      | mk outcome next =>
        cases right : p.reduce r.state id r' with
        | mk outcome' next' =>
          rw [left, right] at same agree
          simp only at same agree
          subst same
          cases outcome with
          | error cause => exact ⟨rfl, agree⟩
          | ok done => exact ih agree

theorem settle_endingWith (ending lookahead : S) (limit : Nat) (r : Progress S V) :
    (p.endingWith ending).settle lookahead limit r = p.settle lookahead limit r := by
  induction limit generalizing r with
  | zero => rfl
  | succ limit ih =>
    simp only [settle, ih]
    rfl

/-- There is a limit on reductions that does not cut the parse off. -/
def Ends (p : Parser S V) (items : List (Except E (Token S V))) : Prop :=
  ∃ limit, (p.run limit items).outcome ≠ .unfinished

/-- What the run `b`, with the end symbol put in, makes of the decision on the end token `last` in
the run `a`. -/
def Decided (table : Table S) (last : Token S V) (a b : Run S V E) : Prop :=
  match a.outcome with
  | .error (.unexpectedToken token state expected) =>
    token = last ∧ b.outcome = .error (.unexpectedEnd state expected) ∧ b.steps = a.steps
  | .error (.unexpectedEnd state expected) =>
    ∃ shift : Step, shift.action = .shift state ∧ expected = table.expected state ∧
      a.steps = b.steps ++ [shift] ∧ b.outcome = .error (.table (.shiftAtEnd shift.state))
  | outcome => b.outcome = outcome ∧ b.steps = a.steps

section Decision

variable {table : Table S} {last : Token S V} {r r' : Progress S V}

omit [DecidableEq S]

theorem Decided.accept (h : r.Agrees r') :
    Decided table last (r.accept : Run S V E) r'.accept := by
  have steps : (r'.accept : Run S V E).steps = (r.accept : Run S V E).steps := by
    rw [Progress.accept_steps, Progress.accept_steps, h.steps, h.stack, h.state]
  unfold Decided
  rw [Progress.accept_outcome, Progress.accept_outcome, steps, h.stack]
  unfold Stack.acceptance
  match r'.stack.values with
  | [] => exact ⟨rfl, rfl⟩
  | [_] => exact ⟨rfl, rfl⟩
  | _ :: _ :: _ => exact ⟨rfl, rfl⟩

theorem Decided.fail (h : r.Agrees r') (cause : Breakdown S V) :
    Decided table last (r.fail cause : Run S V E) (r'.fail cause) := by
  unfold Decided
  rw [Progress.fail_outcome, Progress.fail_outcome, Progress.fail_steps, Progress.fail_steps,
    h.steps]
  cases cause with
  | table error => exact ⟨rfl, rfl⟩
  | fault fault => exact ⟨rfl, rfl⟩

theorem Decided.unfinished_iff {a b : Run S V E} (h : Decided table last a b) :
    b.outcome = .unfinished ↔ a.outcome = .unfinished := by
  unfold Decided at h
  split at h
  next reject => rw [reject, h.2.1]; simp
  next ended =>
    obtain ⟨_, _, _, _, shifted⟩ := h
    rw [ended, shifted]
    simp
  next => rw [h.1]

end Decision

theorem runFrom_last (explicit : p.endOfInput = none) (last : Token S V) (limit : Nat)
    (r : Progress S V) :
    (p.runFrom limit r [.ok last] : Run S V E).pulled = r.pulled + 1 ∧
      Decided p.table last (p.runFrom limit r [.ok last] : Run S V E)
        ((p.endingWith last.symbol).runFrom limit r []) := by
  have start : r.pull.Agrees (r.note .endOfInput) := ⟨rfl, rfl⟩
  have pulled := settle_pulled p last.symbol limit r.pull
  have ending : (p.endingWith last.symbol).endOfInput = some last.symbol := rfl
  obtain ⟨same, agree⟩ := settle_agrees (p := p) start last.symbol limit
  simp only [runFrom, finish, ending, settle_endingWith]
  cases left : p.settle last.symbol limit r.pull with
  | mk decision next =>
    cases right : p.settle last.symbol limit (r.note .endOfInput) with
    | mk decision' next' =>
      rw [left, right] at same agree
      rw [left] at pulled
      simp only at same agree pulled
      subst same
      have state := agree.state
      cases decision with
      | shift target =>
        simp only [explicit]
        refine ⟨pulled, (next.stack.push target last.value).step next.state (.shift target), rfl,
          rfl, ?_, ?_⟩
        · have steps := Progress.steps_shift next next.state target last
          rw [agree.steps] at steps
          exact steps
        · rw [state]
          rfl
      | accept =>
        have noted : (next.note (.accept last.symbol)).Agrees next' := ⟨agree.stack, agree.steps⟩
        exact ⟨(Progress.accept_pulled _).trans pulled, .accept noted⟩
      | reject =>
        refine ⟨pulled, rfl, ?_, agree.steps.symm⟩
        change Outcome.error (.unexpectedEnd next'.state (p.table.expected next'.state)) = _
        rw [← state]
      | breakdown cause => exact ⟨(Progress.fail_pulled next cause).trans pulled, .fail agree cause⟩
      | undecided => exact ⟨pulled, rfl, agree.steps.symm⟩

theorem runFrom_word (explicit : p.endOfInput = none) (last : Token S V) (limit : Nat)
    (w : List (Token S V)) (r : Progress S V) {a b : Run S V E}
    (left : p.runFrom limit r (w.map .ok ++ [.ok last]) = a)
    (right : (p.endingWith last.symbol).runFrom limit r (w.map .ok) = b) :
    (a.pulled ≤ r.pulled + w.length → b.outcome = a.outcome ∧ b.steps = a.steps) ∧
      (r.pulled + w.length < a.pulled → Decided p.table last a b) := by
  induction w generalizing r with
  | nil =>
    obtain ⟨pulled, decided⟩ := runFrom_last (E := E) explicit last limit r
    subst left right
    constructor
    · intro early
      simp only [List.map_nil, List.nil_append, List.length_nil] at early
      omega
    · intro _
      exact decided
  | cons token w ih =>
    have pulled := settle_pulled p token.symbol limit r.pull
    have settled := settle_endingWith (p := p) last.symbol token.symbol limit r.pull
    -- a decision before the last token is one decision of both runs
    have early (same : a = b) (taken : a.pulled = r.pulled + 1) :
        (a.pulled ≤ r.pulled + (w.length + 1) → b.outcome = a.outcome ∧ b.steps = a.steps) ∧
          (r.pulled + (w.length + 1) < a.pulled → Decided p.table last a b) := by
      subst same
      constructor
      · intro _
        exact ⟨rfl, rfl⟩
      · intro late
        omega
    simp only [List.map_cons, List.cons_append, runFrom, settled] at left right
    rw [List.length_cons]
    cases result : p.settle token.symbol limit r.pull with
    | mk decision next =>
      rw [result] at pulled left right
      simp only [Progress.pulled_pull] at pulled left right
      cases decision with
      | shift target =>
        have later := ih (next.shift next.state token target) left right
        rw [Progress.pulled_shift, pulled] at later
        rw [show r.pulled + (w.length + 1) = r.pulled + 1 + w.length by omega]
        exact later
      | accept =>
        apply early (left.symm.trans right)
        rw [← left, Progress.accept_pulled, Progress.pulled_note, pulled]
      | reject =>
        apply early (left.symm.trans right)
        rw [← left]
        exact pulled
      | breakdown cause =>
        apply early (left.symm.trans right)
        rw [← left, Progress.fail_pulled, pulled]
      | undecided =>
        apply early (left.symm.trans right)
        rw [← left]
        exact pulled

/-- One run ends if and only if the other does, and they differ only in what is made of the end
token: a rejection is an unexpected end, and a shift is a table error in the state before it. -/
theorem end_token_as_end_symbol (grammar : Grammar S V) (table : Table S) (w : List (Token S V))
    (last : Token S V) :
    let p : Parser S V := { grammar, table }
    let q := p.endingWith last.symbol
    (p.Ends (w.map (.ok (ε := E)) ++ [.ok last]) ↔ q.Ends (w.map (.ok (ε := E)))) ∧
      ∀ limit,
        let a : Run S V E := p.run limit (w.map .ok ++ [.ok last])
        let b : Run S V E := q.run limit (w.map .ok)
        (a.pulled ≤ w.length → b.outcome = a.outcome ∧ b.steps = a.steps) ∧
          (w.length < a.pulled → Decided table last a b) := by
  intro p q
  have compared (limit : Nat) : let a : Run S V E := p.run limit (w.map .ok ++ [.ok last])
      let b : Run S V E := q.run limit (w.map .ok)
      (a.pulled ≤ w.length → b.outcome = a.outcome ∧ b.steps = a.steps) ∧
        (w.length < a.pulled → Decided table last a b) := by
    have word := runFrom_word (E := E) (p := p) rfl last limit w .initial rfl rfl
    rw [show (Progress.initial : Progress S V).pulled + w.length = w.length from Nat.zero_add _]
      at word
    exact word
  refine ⟨?_, compared⟩
  have finished (limit : Nat) : (q.run limit (w.map (.ok (ε := E)))).outcome = .unfinished ↔
      (p.run limit (w.map (.ok (ε := E)) ++ [.ok last])).outcome = .unfinished := by
    obtain ⟨early, late⟩ := compared limit
    by_cases inside : (p.run limit (w.map (.ok (ε := E)) ++ [.ok last])).pulled ≤ w.length
    · rw [(early inside).1]
    · exact (late (Nat.lt_of_not_le inside)).unfinished_iff
  exact exists_congr fun limit => not_congr (finished limit).symm

def onePlus : List (Token String Int) := [⟨"INT", 1, none⟩, ⟨"+", 0, none⟩]

theorem one_plus_decided :
    onePlus.length < (Arithmetic.parser.run 9
      (onePlus.map (.ok (ε := Unit)) ++ [.ok ⟨"$eof", 0, none⟩])).pulled ∧
      Decided Arithmetic.table ⟨"$eof", 0, none⟩
        (Arithmetic.parser.run 9 (onePlus.map (.ok (ε := Unit)) ++ [.ok ⟨"$eof", 0, none⟩]))
        ((Arithmetic.parser.endingWith "$eof").run 9 (onePlus.map (.ok (ε := Unit)))) := by
  have late : onePlus.length < (Arithmetic.parser.run 9
      (onePlus.map (.ok (ε := Unit)) ++ [.ok ⟨"$eof", 0, none⟩])).pulled := by decide
  have compared := (@end_token_as_end_symbol String Int Unit _ Arithmetic.grammar Arithmetic.table
    onePlus ⟨"$eof", 0, none⟩).2 9
  exact ⟨late, compared.2 late⟩

end Parser

end ShiftReduce
