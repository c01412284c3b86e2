import ShiftReduce.Parser.Error
import ShiftReduce.Parser.Log
import ShiftReduce.Parser.Stack
/-!
The shift-reduce automaton. A run takes items one at a time; for each token it performs the
reductions that the table selects and then shifts, accepts or rejects. When the items are
exhausted, an end symbol, if there is one, takes part as a last lookahead that is never shifted.

A faulty table can reduce forever under one lookahead. The number of reductions between two
decisions is therefore limited, and a run that meets the limit is unfinished.
-/
namespace ShiftReduce

structure Parser (S V : Type) where
  grammar : Grammar S V
  table : Table S
  endOfInput : Option S := none

inductive Outcome (S V E : Type) where
  | value (v : V)
  | error (e : ParseError S V E)
  | fault (f : Fault V)
  | unfinished

structure Progress (S V : Type) where
  stack : Stack V
  pulled : Nat
  reports : Array Report
  log : Array (LogEntry S V)

structure Run (S V E : Type) where
  outcome : Outcome S V E
  pulled : Nat
  reports : Array Report
  log : Array (LogEntry S V)

def Run.steps {S V E : Type} (r : Run S V E) : List Step := r.reports.toList.map Report.step

inductive Decision (S V : Type) where
  | shift (next : Nat)
  | accept
  | reject
  | breakdown (cause : Breakdown S V)
  | undecided

namespace Progress

variable {S V : Type}

def initial : Progress S V := ⟨.initial, 0, #[], #[]⟩

def state (r : Progress S V) : Nat := r.stack.current

def pull (r : Progress S V) : Progress S V := { r with pulled := r.pulled + 1 }

def note (r : Progress S V) (entry : LogEntry S V) : Progress S V :=
  { r with log := r.log.push entry }

/-- Reports an action looked up in `state`, with the stack as it is now. -/
def report (r : Progress S V) (state : Nat) (action : Action) : Progress S V :=
  let step := ⟨state, action, r.stack.states.length, r.stack.values.length⟩
  { r with reports := r.reports.push ⟨r.pulled, step⟩ }

def push (r : Progress S V) (state : Nat) (value : V) : Progress S V :=
  { r with stack := r.stack.push state value }

def shift (r : Progress S V) (state : Nat) (token : Token S V) (next : Nat) : Progress S V :=
  ((r.note (.shift token.symbol state next)).push next token.value).report state (.shift next)

def stop {E : Type} (r : Progress S V) (outcome : Outcome S V E) : Run S V E :=
  ⟨outcome, r.pulled, r.reports, r.log⟩

def fail {E : Type} (r : Progress S V) : Breakdown S V → Run S V E
  | .table error => r.stop (.error (.table error))
  | .fault fault => r.stop (.fault fault)

def accept {E : Type} (r : Progress S V) : Run S V E :=
  let r := r.report r.state .accept
  match r.stack.values with
  | [value] => r.stop (.value value)
  | values => r.stop (.error (.table (.invalidAccept values.length)))

end Progress

namespace Parser

variable {S V E : Type}

def ofAnalyzer (grammar : Grammar S V) (analyze : Grammar S V → Except E (Table S)) :
    Except E (Parser S V) :=
  (analyze grammar).map fun table => { grammar, table }

def endingWith (p : Parser S V) (symbol : S) : Parser S V :=
  { p with endOfInput := some symbol }

variable [DecidableEq S]

/-- One reduction, selected in `state`. What it went wrong with, if anything, comes with the
progress made until then. -/
def reduce (p : Parser S V) (state id : Nat) (r : Progress S V) :
    Except (Breakdown S V) Unit × Progress S V :=
  match p.grammar.rule? id with
  | none => (.error (.table (.unknownRule state id)), r)
  | some rule =>
    match r.stack.reduce rule with
    | (.error cause, stack) => (.error cause, { r with stack })
    | (.ok value, stack) =>
      let remarks := match rule.callback with
        | some callback => callback.remarks (r.stack.operands rule.arity)
        | none => []
      let popped := remarks.foldl (fun r text => r.note (.remark text)) { r with stack }
      let base := stack.current
      match p.table.goto? base rule.name with
      | none => (.error (.table (.missingGoto base rule.name)), popped)
      | some next =>
        let noted := popped.note (.reduce rule.toProduction base next)
        (.ok (), (noted.push next value).report state (.reduce id))

/-- The reductions under a lookahead, fewer than `limit`, and the decision after them. -/
def settle (p : Parser S V) (lookahead : S) : Nat → Progress S V → Decision S V × Progress S V
  | 0, r => (.undecided, r)
  | limit + 1, r =>
    let state := r.state
    match p.table.action? state lookahead with
    | some (.shift next) => (.shift next, r)
    | some .accept => (.accept, r)
    | none => (.reject, r)
    | some (.reduce id) =>
      match p.reduce state id r with
      | (.error cause, r) => (.breakdown cause, r)
      | (.ok (), r) => p.settle lookahead limit r

def finish (p : Parser S V) (limit : Nat) (r : Progress S V) : Run S V E :=
  let unexpected (r : Progress S V) :=
    r.stop (.error (.unexpectedEnd r.state (p.table.expected r.state)))
  match p.endOfInput with
  | none => unexpected (r.note (.exhausted r.state))
  | some symbol =>
    match p.settle symbol limit (r.note .endOfInput) with
    | (.shift _, r) => r.stop (.error (.table (.shiftAtEnd r.state)))
    | (.accept, r) => r.accept
    | (.reject, r) => unexpected (r.note (.unexpectedEnd r.state))
    | (.breakdown cause, r) => r.fail cause
    | (.undecided, r) => r.stop .unfinished

def runFrom (p : Parser S V) (limit : Nat) :
    Progress S V → List (Except E (Token S V)) → Run S V E
  | r, [] => p.finish limit r
  | r, .error e :: _ => r.pull.stop (.error (.lexer e))
  | r, .ok token :: items =>
    match p.settle token.symbol limit r.pull with
    | (.shift next, r) => p.runFrom limit (r.shift r.state token next) items
    | (.accept, r) => (r.note (.accept token.symbol)).accept
    | (.reject, r) =>
      (r.note (.unexpectedToken token r.state)).stop
        (.error (.unexpectedToken token r.state (p.table.expected r.state)))
    | (.breakdown cause, r) => r.fail cause
    | (.undecided, r) => r.stop .unfinished

def run (p : Parser S V) (limit : Nat) (items : List (Except E (Token S V))) : Run S V E :=
  p.runFrom limit .initial items

end Parser

variable {S V E : Type} [Inspect S]

instance : Inspect (Parser S V) where
  inspect p := Text.record "Parser"
    [("grammar", inspect p.grammar), ("table", inspect p.table),
      ("end_of_input", inspect p.endOfInput)]

def Run.transcript [Inspect V] (r : Run S V E) : List String :=
  "span parse" :: r.log.toList.map LogEntry.text

end ShiftReduce
