import Mathlib.Data.List.Forall2
import ShiftReduce.Proofs.Reading
/-!
What the log tells of a run. Every shift and every reduction has its entry, in the order of the
steps; so has an acceptance on a token. An acceptance at the end of the items is the one step that
is reported and not logged. A refusal is logged once, as the last entry, and nothing else is logged
as one.
-/
namespace ShiftReduce

theorem forall_mem_push {α : Type} {all : α → Prop} {xs : Array α} {x : α} :
    (∀ y ∈ (xs.push x).toList, all y) ↔ (∀ y ∈ xs.toList, all y) ∧ all x := by
  rw [Array.toList_push, List.forall_mem_append, List.forall_mem_singleton]

variable {S V E : Type}

namespace LogEntry

def isStep : LogEntry S V → Bool
  | .shift _ _ _ => true
  | .reduce _ _ _ => true
  | .accept _ => true
  | _ => false

def isRefusal : LogEntry S V → Bool
  | .unexpectedToken _ _ => true
  | .exhausted _ => true
  | .unexpectedEnd _ => true
  | _ => false

end LogEntry

/-- What an entry says of a reported step. A shift is logged with the symbol of the token that is
shifted, the last one taken, and with the states that it leaves and enters; a reduction with its
rule and the goto it makes; an acceptance with the symbol of the token that it is made on. -/
inductive Parser.Logged [DecidableEq S] (p : Parser S V) (items : List (Except E (Token S V))) :
    Report → LogEntry S V → Prop where
  | shift {pulled state next states values : Nat} {token : Token S V}
    (item : items[pulled]? = some (.ok token)) :
    p.Logged items ⟨pulled + 1, state, .shift next, states, values⟩
      (.shift token.symbol state next)
  | reduce {pulled state id states values base target : Nat} {rule : Rule S V}
    (found : p.grammar.rule? id = some rule) (goto : p.table.goto? base rule.name = some target) :
    p.Logged items ⟨pulled, state, .reduce id, states, values⟩
      (.reduce rule.toProduction base target)
  | accept {pulled state states values : Nat} {token : Token S V}
    (item : items[pulled]? = some (.ok token)) :
    p.Logged items ⟨pulled + 1, state, .accept, states, values⟩ (.accept token.symbol)

def Outcome.refusal? (endOfInput : Option S) : Outcome S V E → Option (LogEntry S V)
  | .error (.unexpectedToken token state _) => some (.unexpectedToken token state)
  | .error (.unexpectedEnd state _) =>
    match endOfInput with
    | none => some (.exhausted state)
    | some _ => some (.unexpectedEnd state)
  | _ => none

namespace Run

def events (r : Run S V E) : List (LogEntry S V) := r.log.toList.filter LogEntry.isStep

/-- A step accepts, and the run was told that there are no more items. -/
def AcceptsAtEnd (r : Run S V E) : Prop :=
  r.tally.exhausted = true ∧ ∃ report ∈ r.reports.toList, report.step.action = .accept

end Run

theorem Outcome.refusal?_acceptance (stack : Stack V) (endOfInput : Option S) :
    (stack.acceptance : Outcome S V E).refusal? endOfInput = none := by
  unfold Stack.acceptance
  split <;> rfl

namespace Progress

theorem events_note (r : Progress S V) {entry : LogEntry S V} (event : entry.isStep = true) :
    (r.note entry).log.toList.filter LogEntry.isStep =
      r.log.toList.filter LogEntry.isStep ++ [entry] := by
  simp [note, event]

theorem accept_log (r : Progress S V) : (r.accept : Run S V E).log = r.log := by
  rw [accept_eq]
  rfl

theorem accept_reports (r : Progress S V) :
    (r.accept : Run S V E).reports.toList =
      r.reports.toList ++ [⟨r.pulled, r.stack.step r.state .accept⟩] := by
  rw [accept_eq]
  exact Array.toList_push

theorem accept_told (r : Progress S V) :
    (r.accept : Run S V E).tally.exhausted = r.tally.exhausted := by
  rw [accept_eq]
  rfl

end Progress

namespace Parser

def TellsRefusal (p : Parser S V) (run : Run S V E) : Prop :=
  ∃ before, run.log.toList = before ++ (run.outcome.refusal? p.endOfInput).toList ∧
    ∀ entry ∈ before, entry.isRefusal = false

theorem accept_tells_refusal {p : Parser S V} {r : Progress S V}
    (calm : ∀ entry ∈ r.log.toList, entry.isRefusal = false) :
    p.TellsRefusal (r.accept : Run S V E) := by
  refine ⟨r.log.toList, ?_, calm⟩
  rw [Progress.accept_log, Progress.accept_outcome, Outcome.refusal?_acceptance]
  exact (List.append_nil _).symm

variable [DecidableEq S]

/-- What is logged of a parse under way: its steps, none of which accepts, and no refusal. -/
structure Faithful (p : Parser S V) (items : List (Except E (Token S V))) (r : Progress S V) :
    Prop where
  steps : List.Forall₂ (p.Logged items) r.reports.toList (r.log.toList.filter LogEntry.isStep)
  active : ∀ report ∈ r.reports.toList, report.step.action ≠ .accept
  calm : ∀ entry ∈ r.log.toList, entry.isRefusal = false

/-- What is logged of the steps of a run: all of them, or all but an acceptance at the end. -/
inductive TellsSteps (p : Parser S V) (items : List (Except E (Token S V))) (run : Run S V E) :
    Prop where
  | all (otherwise : ¬ run.AcceptsAtEnd)
    (steps : List.Forall₂ (p.Logged items) run.reports.toList run.events)
  | allButLast {before : List Report} {last : Report} (atEnd : run.AcceptsAtEnd)
    (reports : run.reports.toList = before ++ [last]) (accepts : last.step.action = .accept)
    (steps : List.Forall₂ (p.Logged items) before run.events)

structure Tells (p : Parser S V) (items : List (Except E (Token S V))) (run : Run S V E) :
    Prop where
  steps : p.TellsSteps items run
  refusal : p.TellsRefusal run

variable {p : Parser S V} {items : List (Except E (Token S V))} {r : Progress S V}

namespace Faithful

theorem initial (p : Parser S V) (items : List (Except E (Token S V))) :
    p.Faithful items .initial :=
  ⟨.nil, List.forall_mem_nil _, List.forall_mem_nil _⟩

theorem congr (h : p.Faithful items r) (r' : Progress S V) (reports : r'.reports = r.reports)
    (log : r'.log = r.log) : p.Faithful items r' := by
  constructor
  · rw [reports, log]
    exact h.steps
  · rw [reports]
    exact h.active
  · rw [log]
    exact h.calm

theorem note (h : p.Faithful items r) {entry : LogEntry S V} (other : entry.isStep = false)
    (calm : entry.isRefusal = false) : p.Faithful items (r.note entry) := by
  constructor
  · simpa [Progress.note, other] using h.steps
  · exact h.active
  · exact forall_mem_push.2 ⟨h.calm, calm⟩

theorem remarks (h : p.Faithful items r) (texts : List String) :
    p.Faithful items (texts.foldl (fun r text => r.note (.remark text)) r) :=
  List.foldlRecOn texts _ h fun _ before _ _ => before.note rfl rfl

theorem step (h : p.Faithful items r) {entry : LogEntry S V} {state next : Nat} {value : V}
    {action : Action} (event : entry.isStep = true) (calm : entry.isRefusal = false)
    (active : action ≠ .accept)
    (logged : ∀ states values, p.Logged items ⟨r.pulled, state, action, states, values⟩ entry) :
    p.Faithful items (((r.note entry).push next value).report state action) := by
  constructor
  · have reports : (((r.note entry).push next value).report state action).reports.toList =
        r.reports.toList ++ [⟨r.pulled, (r.stack.push next value).step state action⟩] :=
      Array.toList_push
    have log : (((r.note entry).push next value).report state action).log =
        (r.note entry).log := rfl
    rw [reports, log, Progress.events_note r event]
    exact List.rel_append h.steps (.cons (logged _ _) .nil)
  · exact forall_mem_push.2 ⟨h.active, active⟩
  · exact forall_mem_push.2 ⟨h.calm, calm⟩

theorem shift (h : p.Faithful items r) {count : Nat} {token : Token S V}
    (item : items[count]? = some (.ok token)) (pulled : r.pulled = count + 1) (state next : Nat) :
    p.Faithful items (r.shift state token next) := by
  have active : Action.shift next ≠ .accept := by simp
  apply h.step rfl rfl active
  intro states values
  rw [pulled]
  exact .shift item

theorem reduce (h : p.Faithful items r) (state id : Nat) :
    p.Faithful items (p.reduce state id r).2 := by
  simp only [Parser.reduce]
  split
  · exact h
  next rule found =>
    split
    · exact h.congr _ rfl rfl
    next value stack done =>
      have popped (texts : List String) := (h.congr { r with stack } rfl rfl).remarks texts
      split
      · exact popped _
      next next goto =>
        have active : Action.reduce id ≠ .accept := by simp
        exact (popped _).step rfl rfl active fun _ _ => .reduce found goto

theorem settle (h : p.Faithful items r) (symbol : S) (limit : Nat) :
    p.Faithful items (p.settle symbol limit r).2 := by
  induction limit generalizing r with
  | zero => exact h
  | succ limit ih =>
    simp only [Parser.settle]
    split
    · exact h
    · exact h
    · exact h
    next id entry =>
      have first := h.reduce r.state id
      split
      next cause here result =>
        rw [result] at first
        exact first
      next here result =>
        rw [result] at first
        exact ih first

theorem not_acceptsAtEnd (h : p.Faithful items r) {run : Run S V E}
    (reports : run.reports = r.reports) : ¬ run.AcceptsAtEnd := by
  intro atEnd
  obtain ⟨_, report, member, accepts⟩ := atEnd
  rw [reports] at member
  exact h.active report member accepts

theorem stop (h : p.Faithful items r) {outcome : Outcome S V E}
    (other : outcome.refusal? p.endOfInput = none) : p.Tells items (r.stop outcome) := by
  constructor
  · exact .all (h.not_acceptsAtEnd rfl) h.steps
  · refine ⟨r.log.toList, ?_, h.calm⟩
    rw [show (r.stop outcome).outcome = outcome from rfl, other]
    exact (List.append_nil _).symm

theorem refuse (h : p.Faithful items r) {outcome : Outcome S V E} {entry : LogEntry S V}
    (refusal : outcome.refusal? p.endOfInput = some entry) (other : entry.isStep = false) :
    p.Tells items ((r.note entry).stop outcome) := by
  have events : ((r.note entry).stop outcome).events = r.log.toList.filter LogEntry.isStep := by
    simp [Run.events, Progress.stop, Progress.note, other]
  constructor
  · apply TellsSteps.all (h.not_acceptsAtEnd rfl)
    rw [events]
    exact h.steps
  · refine ⟨r.log.toList, ?_, h.calm⟩
    rw [show ((r.note entry).stop outcome).outcome = outcome from rfl, refusal]
    exact Array.toList_push

theorem fail (h : p.Faithful items r) (cause : Breakdown S V) :
    p.Tells items (r.fail cause) := by
  cases cause with
  | table error => exact h.stop rfl
  | fault fault => exact h.stop rfl

theorem accept_on (h : p.Faithful items r) {count : Nat} {token : Token S V}
    (item : items[count]? = some (.ok token)) (pulled : r.pulled = count + 1)
    (untold : r.tally.exhausted = false) :
    p.Tells items (r.note (.accept token.symbol)).accept := by
  constructor
  · apply TellsSteps.all
    · intro atEnd
      have told := atEnd.1
      rw [Progress.accept_told, tally_note r rfl, untold] at told
      cases told
    · have last : p.Logged items ⟨r.pulled, r.stack.step r.state .accept⟩
          (.accept token.symbol) := by
        rw [pulled]
        exact .accept item
      rw [Progress.accept_reports, Run.events, Progress.accept_log, Progress.events_note r rfl]
      exact List.rel_append h.steps (.cons last .nil)
  · exact accept_tells_refusal (forall_mem_push.2 ⟨h.calm, rfl⟩)

theorem accept_at_end (h : p.Faithful items r) (told : r.tally.exhausted = true) :
    p.Tells items r.accept := by
  constructor
  · have reports := Progress.accept_reports (E := E) r
    have atEnd : (r.accept : Run S V E).AcceptsAtEnd := by
      have last : ⟨r.pulled, r.stack.step r.state .accept⟩ ∈
          (r.accept : Run S V E).reports.toList := by
        rw [reports]
        exact List.mem_concat_self
      exact ⟨(Progress.accept_told r).trans told, _, last, rfl⟩
    apply TellsSteps.allButLast atEnd reports rfl
    rw [Run.events, Progress.accept_log]
    exact h.steps
  · exact accept_tells_refusal h.calm

theorem finish (h : p.Faithful items r) (limit : Nat) : p.Tells items (p.finish limit r) := by
  simp only [Parser.finish]
  cases ending : p.endOfInput with
  | none => exact h.refuse (by rw [ending]; rfl) rfl
  | some symbol =>
    have noted : p.Faithful items (r.note .endOfInput) := h.note rfl rfl
    have settled := noted.settle symbol limit
    have told := (settle_reduces (p := p) symbol limit (r.note .endOfInput)).exhausted
    rw [tally_exhausted r rfl] at told
    dsimp only
    cases result : p.settle symbol limit (r.note .endOfInput) with
    | mk decision here =>
      rw [result] at settled told
      cases decision with
      | shift next => exact settled.stop rfl
      | accept => exact settled.accept_at_end told
      | reject => exact settled.refuse (by rw [ending]; rfl) rfl
      | breakdown cause => exact settled.fail cause
      | undecided => exact settled.stop rfl

theorem runFrom (h : p.Faithful items r) (untold : r.tally.exhausted = false) (limit : Nat)
    {rest : List (Except E (Token S V))} (left : items.drop r.pulled = rest) :
    p.Tells items (p.runFrom limit r rest) := by
  induction rest generalizing r with
  | nil => exact h.finish limit
  | cons item rest ih =>
    have here : items[r.pulled]? = some item := by
      rw [← Nat.add_zero r.pulled, ← List.getElem?_drop, left]
      rfl
    cases item with
    | error e => exact (h.congr r.pull rfl rfl).stop rfl
    | ok token =>
      have settled := (h.congr r.pull rfl rfl).settle token.symbol limit
      have fresh := (settle_reduces (p := p) token.symbol limit r.pull).exhausted.trans untold
      have taken := settle_pulled p token.symbol limit r.pull
      simp only [Parser.runFrom]
      cases result : p.settle token.symbol limit r.pull with
      | mk decision after =>
        rw [result] at settled fresh taken
        cases decision with
        | shift next =>
          apply ih
          · exact settled.shift here taken after.state next
          · rw [tally_shift]
            exact fresh
          · rw [Progress.pulled_shift, taken, Progress.pulled_pull, ← List.drop_drop, left]
            rfl
        | accept => exact settled.accept_on here taken fresh
        | reject => exact settled.refuse rfl rfl
        | breakdown cause => exact settled.fail cause
        | undecided => exact settled.stop rfl

end Faithful

/-- The log has the steps in their order, but for an acceptance at the end of the items, and at most
one refusal, which comes last. -/
theorem log_of_run (p : Parser S V) (limit : Nat) (items : List (Except E (Token S V))) :
    let run := p.run limit items
    (List.Forall₂ (p.Logged items) run.reports.toList run.events ↔ ¬ run.AcceptsAtEnd) ∧
      (run.AcceptsAtEnd → ∃ before last, run.reports.toList = before ++ [last] ∧
        last.step.action = .accept ∧ List.Forall₂ (p.Logged items) before run.events) ∧
      ∃ before, run.log.toList = before ++ (run.outcome.refusal? p.endOfInput).toList ∧
        ∀ entry ∈ before, entry.isRefusal = false := by
  intro run
  have tells : p.Tells items run := (Faithful.initial p items).runFrom rfl limit rfl
  refine ⟨?_, ?_, tells.refusal⟩
  · constructor
    · intro every atEnd
      cases tells.steps with
      | all otherwise _ => exact otherwise atEnd
      | allButLast _ reports _ steps =>
        have one := every.length_eq
        have fewer := steps.length_eq
        rw [reports, List.length_append, List.length_singleton] at one
        omega
    · intro otherwise
      cases tells.steps with
      | all _ steps => exact steps
      | allButLast atEnd _ _ _ => exact absurd atEnd otherwise
  · intro atEnd
    cases tells.steps with
    | all otherwise _ => exact absurd atEnd otherwise
    | allButLast _ reports accepts steps => exact ⟨_, _, reports, accepts, steps⟩

/-- The parser with the end symbol accepts `1` where the input ends; it reports six steps and logs
five. -/
theorem one_accepted_unlogged :
    let p := Arithmetic.parser.endingWith "$eof"
    let items : List (Except String (Token String Int)) := [.ok ⟨"INT", 1, none⟩]
    let run := p.run 9 items
    run.outcome = .value 1 ∧ run.reports.size = 6 ∧ run.events.length = 5 ∧
      ¬ List.Forall₂ (p.Logged items) run.reports.toList run.events := by
  intro p items run
  have reports : run.reports.size = 6 := by decide
  have events : run.events.length = 5 := by decide
  refine ⟨rfl, reports, events, ?_⟩
  intro every
  have same := every.length_eq
  rw [Array.length_toList, reports, events] at same
  omega

end Parser

end ShiftReduce
