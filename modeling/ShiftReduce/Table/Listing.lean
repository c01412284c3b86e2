import ShiftReduce.Table.Basic
/-!
Listings of tables. A listing shows each state's actions and gotos line by line, reductions by
the text of their rule; the inspected form shows the stored entries.
-/
namespace ShiftReduce

variable {S V : Type} [Inspect S]

def Action.text (g : Grammar S V) : Action → String
  | .shift next => "shift(" ++ inspect next ++ ")"
  | .reduce id =>
    match g.rule? id with
    | some rule => "reduce(" ++ rule.text ++ ")"
    | none => "reduce(<unknown " ++ ruleNumber id ++ ">)"
  | .accept => "accept"

def listed (symbol : S) (entry : String) : String := "- " ++ inspect symbol ++ " => " ++ entry ++ "\n"

def Row.listing (g : Grammar S V) (state : Nat) (row : Row S) : String :=
  "#### State " ++ inspect state ++ "\n## actions\n" ++
    String.join (row.actions.entries.map fun e => listed e.1 (e.2.text g)) ++ "## gotos\n" ++
    String.join (row.gotos.entries.map fun e => listed e.1 ("goto(" ++ inspect e.2 ++ ")"))

def Table.listing (t : Table S) (g : Grammar S V) : String :=
  "\n".intercalate (t.rows.entries.map fun e => e.2.listing g e.1)

def inspectState (state : Nat) : String := Text.record "StateID" [("raw", inspect state)]

instance : Inspect Action where
  inspect
    | .shift next => "Shift(" ++ inspectState next ++ ")"
    | .reduce rule => "Reduce(" ++ inspectRuleId rule ++ ")"
    | .accept => "Accept"

def inspectEntries {K V : Type} (key : K → String) (entry : V → String) (m : OrderedMap K V) :
    String :=
  Text.braced (m.entries.map fun e => key e.1 ++ ": " ++ entry e.2)

instance : Inspect (Row S) where
  inspect row := Text.record "ParseTableRow"
    [("actions", inspectEntries inspect inspect row.actions),
      ("gotos", inspectEntries inspect inspectState row.gotos)]

instance : Inspect (Table S) where
  inspect t := Text.record "ParseTable" [("states", inspectEntries inspectState inspect t.rows)]

end ShiftReduce
