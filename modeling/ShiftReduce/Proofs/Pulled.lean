import ShiftReduce.Proofs.MachineRun
/-!
How many items a run takes from its source: those that it shifts, and one more if there is one, to
look at or to fail on. Reductions take none.
-/
namespace ShiftReduce

variable {S V E : Type}

namespace Progress

@[simp] theorem pulled_note (r : Progress S V) (entry : LogEntry S V) :
    (r.note entry).pulled = r.pulled := rfl

@[simp] theorem pulled_pull (r : Progress S V) : r.pull.pulled = r.pulled + 1 := rfl

@[simp] theorem pulled_shift (r : Progress S V) (state next : Nat) (token : Token S V) :
    (r.shift state token next).pulled = r.pulled := rfl

@[simp] theorem pulled_remarks (texts : List String) (r : Progress S V) :
    (texts.foldl (fun r text => r.note (.remark text)) r).pulled = r.pulled := by
  rw [remarks_eq]

@[simp] theorem fail_pulled (r : Progress S V) (cause : Breakdown S V) :
    (r.fail cause : Run S V E).pulled = r.pulled := by
  cases cause <;> rfl

@[simp] theorem accept_pulled (r : Progress S V) : (r.accept : Run S V E).pulled = r.pulled := by
  rw [accept_eq]
  rfl

end Progress

namespace Parser

variable [DecidableEq S] (p : Parser S V)

theorem reduce_pulled (state id : Nat) (r : Progress S V) :
    (p.reduce state id r).2.pulled = r.pulled := by
  simp only [reduce]
  split
  · rfl
  · split
    · rfl
    · split
      · exact Progress.pulled_remarks _ _
      · exact Progress.pulled_remarks _ _

theorem settle_pulled (lookahead : S) (limit : Nat) (r : Progress S V) :
    (p.settle lookahead limit r).2.pulled = r.pulled := by
  induction limit generalizing r with
  | zero => rfl
  | succ limit ih =>
    simp only [settle]
    split
    · rfl
    · rfl
    · rfl
    next id entry =>
      have same := reduce_pulled p r.state id r
      split
      next cause r' result =>
        rw [result] at same
        exact same
      next r' result =>
        rw [result] at same
        rw [ih r']
        exact same

theorem settle_shiftCount (lookahead : S) (limit : Nat) (r : Progress S V) :
    shiftCount (p.settle lookahead limit r).2.steps = shiftCount r.steps := by
  induction limit generalizing r with
  | zero => rfl
  | succ limit ih =>
    simp only [settle]
    split
    · rfl
    · rfl
    · rfl
    next id entry =>
      have spec := reduce_spec p r id
      have still : shiftCount (p.reduce r.state id r).2.steps = shiftCount r.steps := by
        split at spec
        · rw [spec.2]
        · rw [spec.2.2, shiftCount_append]
          rfl
      split
      next cause r' result =>
        rw [result] at still
        exact still
      next r' result =>
        rw [result] at still
        rw [ih r']
        exact still

theorem finish_pulled (limit : Nat) (r : Progress S V) :
    (p.finish limit r : Run S V E).pulled = r.pulled ∧
      (p.finish limit r : Run S V E).shiftCount = shiftCount r.steps := by
  simp only [finish]
  cases ending : p.endOfInput with
  | none => exact ⟨rfl, rfl⟩
  | some symbol =>
    have pulled := settle_pulled p symbol limit (r.note .endOfInput)
    have still := settle_shiftCount p symbol limit (r.note .endOfInput)
    cases result : p.settle symbol limit (r.note .endOfInput) with
    | mk decision next =>
      rw [result] at pulled still
      simp only [result]
      cases decision with
      | shift target => exact ⟨pulled, still⟩
      | reject => exact ⟨pulled, still⟩
      | undecided => exact ⟨pulled, still⟩
      | breakdown cause =>
        constructor
        · exact (Progress.fail_pulled next cause).trans pulled
        · rw [Run.shiftCount, Progress.fail_steps]
          exact still
      | accept =>
        constructor
        · exact (Progress.accept_pulled next).trans pulled
        · rw [Run.shiftCount, Progress.accept_steps, shiftCount_append]
          exact still

theorem runFrom_pulled (limit : Nat) (items : List (Except E (Token S V))) (r : Progress S V) :
    ∃ shifts, (p.runFrom limit r items).shiftCount = shiftCount r.steps + shifts ∧
      (p.runFrom limit r items).pulled = r.pulled + min items.length (shifts + 1) := by
  induction items generalizing r with
  | nil =>
    obtain ⟨pulled, still⟩ := finish_pulled (E := E) p limit r
    refine ⟨0, still, ?_⟩
    rw [List.length_nil, Nat.zero_min]
    exact pulled
  | cons item items ih =>
    -- a run that stops at the first item has taken that item and shifted none
    have stopped {run : Run S V E} (taken : run.pulled = r.pulled + 1)
        (still : run.shiftCount = shiftCount r.steps) :
        ∃ shifts, run.shiftCount = shiftCount r.steps + shifts ∧
          run.pulled = r.pulled + min (item :: items).length (shifts + 1) := by
      refine ⟨0, still, ?_⟩
      rw [taken, List.length_cons]
      omega
    cases item with
    | error e => exact stopped rfl rfl
    | ok token =>
      have pulled := settle_pulled p token.symbol limit r.pull
      have still := settle_shiftCount p token.symbol limit r.pull
      simp only [runFrom]
      cases result : p.settle token.symbol limit r.pull with
      | mk decision next =>
        rw [result] at pulled still
        simp only [Progress.pulled_pull, Progress.steps_pull] at pulled still
        cases decision with
        | shift target =>
          obtain ⟨shifts, count, taken⟩ := ih (next.shift next.state token target)
          refine ⟨shifts + 1, ?_, ?_⟩
          · have one (s : Step) (shifted : s.isShift = true) : shiftCount [s] = 1 := by
              simp [shiftCount, shifted]
            rw [Progress.steps_shift, shiftCount_append, still, one _ rfl] at count
            rw [count]
            omega
          · rw [Progress.pulled_shift, pulled] at taken
            rw [taken, List.length_cons]
            omega
        | reject => exact stopped pulled still
        | undecided => exact stopped pulled still
        | breakdown cause =>
          apply stopped
          · exact (Progress.fail_pulled next cause).trans pulled
          · rw [Run.shiftCount, Progress.fail_steps]
            exact still
        | accept =>
          apply stopped
          · exact (Progress.accept_pulled _).trans pulled
          · rw [Run.shiftCount, Progress.accept_steps, shiftCount_append]
            exact still

/-- A run takes the items that it shifts and one more, if there is one. -/
theorem run_pulled (limit : Nat) (items : List (Except E (Token S V))) :
    (p.run limit items).pulled = min items.length ((p.run limit items).shiftCount + 1) := by
  obtain ⟨shifts, count, taken⟩ := runFrom_pulled p limit items .initial
  have none : shiftCount (Progress.initial : Progress S V).steps = 0 := rfl
  have zero : (Progress.initial : Progress S V).pulled = 0 := rfl
  rw [none, Nat.zero_add] at count
  rw [zero, Nat.zero_add] at taken
  unfold run
  rw [count, taken]

end Parser

end ShiftReduce
