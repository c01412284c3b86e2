import ShiftReduce.Proofs.MachineRun
/-!
What callbacks remark on. A callback writes a remark only when it is called with operands that it
does not expect, so a run whose log has no remarks has called none in vain. If the machine never
comes to such operands, the log of the run has no remarks.
-/
namespace ShiftReduce

variable {S V E : Type}

def LogEntry.remark? : LogEntry S V → Option String
  | .remark text => some text
  | _ => none

def Run.remarks (r : Run S V E) : List String := r.log.toList.filterMap LogEntry.remark?

namespace Progress

def remarks (r : Progress S V) : List String := r.log.toList.filterMap LogEntry.remark?

theorem remarks_note {r : Progress S V} {entry : LogEntry S V} (silent : entry.remark? = none) :
    (r.note entry).remarks = r.remarks := by
  simp [remarks, note, silent]

theorem remarks_shift (r : Progress S V) (state next : Nat) (token : Token S V) :
    (r.shift state token next).remarks = r.remarks := remarks_note rfl

theorem fail_remarks (r : Progress S V) (cause : Breakdown S V) :
    (r.fail cause : Run S V E).remarks = r.remarks := by
  cases cause <;> rfl

theorem accept_remarks (r : Progress S V) : (r.accept : Run S V E).remarks = r.remarks := by
  rw [accept_eq]
  rfl

end Progress

namespace Parser

variable [DecidableEq S] {p : Parser S V}

/-- The machine comes from here to a reduction that calls this callback with these operands. -/
def Calls (p : Parser S V) (c : Config S V E) (callback : Callback V) (args : List V) : Prop :=
  ∃ ss d symbol id rule, p.Steps c ss d ∧ p.lookahead? d.rest = some symbol ∧
    p.table.action? d.state symbol = some (.reduce id) ∧ p.grammar.rule? id = some rule ∧
    rule.arity ≤ d.stack.values.length ∧ rule.callback = some callback ∧
    d.stack.operands rule.arity = args

def Quiet (p : Parser S V) (c : Config S V E) : Prop :=
  ∀ callback args, p.Calls c callback args → callback.remarks args = []

theorem Quiet.steps {c d : Config S V E} {ss : List Step} (h : p.Quiet c) (first : p.Steps c ss d) :
    p.Quiet d := by
  rintro callback args ⟨ts, e, symbol, id, rule, later, call⟩
  exact h callback args ⟨ss ++ ts, e, symbol, id, rule, first.trans later, call⟩

theorem reduce_remarks {r : Progress S V} {state id : Nat}
    (silent : ∀ rule callback, p.grammar.rule? id = some rule →
      rule.arity ≤ r.stack.values.length → rule.callback = some callback →
      callback.remarks (r.stack.operands rule.arity) = []) :
    (p.reduce state id r).2.remarks = r.remarks := by
  simp only [reduce]
  split
  · rfl
  next rule found =>
    split
    · rfl
    next value stack done =>
      have popped : ∀ texts : List String, texts = [] →
          (texts.foldl (fun (r : Progress S V) text => r.note (.remark text))
            { r with stack }).remarks = r.remarks := by
        rintro _ rfl
        rfl
      have enough : rule.arity ≤ r.stack.values.length := by
        by_contra short
        rw [Stack.reduce_underflow (Nat.lt_of_not_le short)] at done
        cases done
      have texts := fun callback => silent rule callback found enough
      cases called : rule.callback with
      | none =>
        split
        · exact popped _ rfl
        · exact (Progress.remarks_note rfl).trans (popped _ rfl)
      | some callback =>
        have none := texts callback called
        split
        · exact popped _ none
        · exact (Progress.remarks_note rfl).trans (popped _ none)

theorem settle_remarks {symbol : S} {rest : List (Except E (Token S V))}
    (look : p.lookahead? rest = some symbol) (limit : Nat) {r : Progress S V}
    (quiet : p.Quiet ⟨r.stack, rest⟩) : (p.settle symbol limit r).2.remarks = r.remarks := by
  induction limit generalizing r with
  | zero => rfl
  | succ limit ih =>
    simp only [settle]
    split
    · rfl
    · rfl
    · rfl
    next id entry =>
      have silent : (p.reduce r.state id r).2.remarks = r.remarks := by
        apply reduce_remarks
        intro rule callback found enough called
        exact quiet callback _
          ⟨[], _, symbol, id, rule, .refl _, look, entry, found, enough, called, rfl⟩
      have spec := reduce_spec p r id
      cases reduced : p.reduction r.stack id with
      | error cause =>
        simp only [reduced] at spec
        split
        next cause' r' result =>
          rw [result] at silent
          exact silent
        next r' result =>
          rw [result] at spec
          cases spec.1
      | ok stack =>
        simp only [reduced] at spec
        split
        next cause' r' result =>
          rw [result] at spec
          cases spec.1
        next r' result =>
          rw [result] at spec silent
          have first := Steps.single (move_of_reduce look entry reduced)
          rw [← spec.2.1] at first
          rw [ih (quiet.steps first)]
          exact silent

theorem finish_remarks (limit : Nat) {r : Progress S V}
    (quiet : p.Quiet ⟨r.stack, ([] : List (Except E (Token S V)))⟩) :
    (p.finish limit r : Run S V E).remarks = r.remarks := by
  simp only [finish]
  cases ending : p.endOfInput with
  | none => exact Progress.remarks_note rfl
  | some symbol =>
    have look : p.lookahead? ([] : List (Except E (Token S V))) = some symbol := ending
    have silent := settle_remarks look limit (r := r.note .endOfInput) quiet
    rw [Progress.remarks_note rfl] at silent
    cases result : p.settle symbol limit (r.note .endOfInput) with
    | mk decision next =>
      rw [result] at silent
      simp only [result]
      cases decision with
      | shift target => exact silent
      | accept => exact (Progress.accept_remarks next).trans silent
      | reject => exact (Progress.remarks_note rfl).trans silent
      | breakdown cause => exact (Progress.fail_remarks next cause).trans silent
      | undecided => exact silent

theorem runFrom_remarks (limit : Nat) {items : List (Except E (Token S V))} {r : Progress S V}
    (quiet : p.Quiet ⟨r.stack, items⟩) :
    (p.runFrom limit r items : Run S V E).remarks = r.remarks := by
  induction items generalizing r with
  | nil => exact finish_remarks limit quiet
  | cons item items ih =>
    cases item with
    | error e => rfl
    | ok token =>
      have look : p.lookahead? (.ok token :: items : List (Except E (Token S V))) =
        some token.symbol := rfl
      have silent := settle_remarks look limit (r := r.pull) quiet
      obtain ⟨ss, _, decides⟩ := settle_spec look limit r.pull
      simp only [runFrom]
      cases result : p.settle token.symbol limit r.pull with
      | mk decision next =>
        rw [result] at silent decides
        cases decision with
        | shift target =>
          have first := decides.1.trans (.single (move_of_shift look decides.2))
          rw [ih (r := next.shift next.state token target) (quiet.steps first),
            Progress.remarks_shift]
          exact silent
        | accept =>
          exact (Progress.accept_remarks _).trans ((Progress.remarks_note rfl).trans silent)
        | reject => exact (Progress.remarks_note rfl).trans silent
        | breakdown cause => exact (Progress.fail_remarks next cause).trans silent
        | undecided => exact silent

theorem run_remarks {items : List (Except E (Token S V))} (limit : Nat)
    (quiet : p.Quiet (.initial items)) : (p.run limit items).remarks = [] :=
  runFrom_remarks limit quiet

end Parser

end ShiftReduce
