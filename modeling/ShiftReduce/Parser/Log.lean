import ShiftReduce.Table.Listing
import ShiftReduce.Token

namespace ShiftReduce

/-- A transition: the state in which the action was looked up, the action, and the numbers of
states and values on the stack after it. -/
structure Step where
  state : Nat
  action : Action
  states : Nat
  values : Nat
  deriving DecidableEq, Repr

structure Report where
  pulled : Nat
  step : Step
  deriving DecidableEq, Repr

inductive LogEntry (S V : Type) where
  | shift (symbol : S) (source target : Nat)
  | reduce (rule : Production S) (base target : Nat)
  | accept (lookahead : S)
  | remark (text : String)
  | endOfInput
  | unexpectedToken (token : Token S V) (state : Nat)
  | exhausted (state : Nat)
  | unexpectedEnd (state : Nat)

def transition (source target : Nat) : String :=
  " (" ++ inspect source ++ " -> " ++ inspect target ++ ")"

def LogEntry.text {S V : Type} [Inspect S] [Inspect V] : LogEntry S V → String
  | .shift symbol source target => "TRACE shift: " ++ inspect symbol ++ transition source target
  | .reduce rule base target => "TRACE reduce: " ++ rule.text ++ transition base target
  | .accept lookahead => "TRACE accept: lookahead = " ++ inspect lookahead
  | .remark text => "ERROR " ++ text
  | .endOfInput => "TRACE end of input"
  | .unexpectedToken token state =>
    "DEBUG unexpected token " ++ inspect token ++ " in state " ++ inspect state
  | .exhausted state => "DEBUG token source exhausted in state " ++ inspect state
  | .unexpectedEnd state => "DEBUG unexpected end of input in state " ++ inspect state

end ShiftReduce
