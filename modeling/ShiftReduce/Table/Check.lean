import ShiftReduce.Table.Basic
/-!
What can be wrong with a table, and the check of a table against its grammar: every goto is keyed
by a nonterminal, and every reduction is by a rule of the grammar that has a value.
-/
namespace ShiftReduce

inductive TableError (S : Type) where
  | unknownRule (state rule : Nat)
  | missingCallback (rule arity : Nat)
  | missingGoto (state : Nat) (symbol : S)
  | unknownNonterminal (state : Nat) (symbol : S)
  | stackUnderflow (rule arity available : Nat)
  | invalidAccept (values : Nat)
  | shiftAtEnd (state : Nat)
  deriving DecidableEq, Repr

variable {S V : Type}

def TableError.message [Inspect S] : TableError S → String
  | .unknownRule state rule =>
    "state " ++ inspect state ++ " reduces by " ++ ruleNumber rule ++
      ", which is not defined in the grammar"
  | .missingCallback rule arity =>
    "rule " ++ ruleNumber rule ++ " has " ++ inspect arity ++ " components but no callback"
  | .missingGoto state symbol =>
    "no goto entry for " ++ inspect symbol ++ " in state " ++ inspect state
  | .unknownNonterminal state symbol =>
    "state " ++ inspect state ++ " has a goto entry for " ++ inspect symbol ++
      ", which is not a nonterminal"
  | .stackUnderflow rule arity available =>
    "reducing by " ++ ruleNumber rule ++ " pops " ++ inspect arity ++ " values but only " ++
      inspect available ++ " are on the stack"
  | .invalidAccept values => "accepted with " ++ inspect values ++ " values on the stack"
  | .shiftAtEnd state => "state " ++ inspect state ++ " shifts the end of input"

namespace Table

def actionDefect? (g : Grammar S V) (state : Nat) : Action → Option (TableError S)
  | .reduce id =>
    match g.rule? id with
    | none => some (.unknownRule state id)
    | some rule =>
      if rule.Evaluable then none else some (.missingCallback id rule.arity)
  | _ => none

variable [DecidableEq S]

/-- The gotos of a row come before its actions. -/
def rowDefect? (g : Grammar S V) (state : Nat) (row : Row S) : Option (TableError S) :=
  match row.gotos.keys.find? fun s => s ∉ g.nonterminals with
  | some symbol => some (.unknownNonterminal state symbol)
  | none => row.actions.values.findSome? (actionDefect? g state)

def check (t : Table S) (g : Grammar S V) : Except (TableError S) Unit :=
  match t.rows.entries.findSome? fun e => rowDefect? g e.1 e.2 with
  | some defect => .error defect
  | none => .ok ()

end Table

end ShiftReduce
