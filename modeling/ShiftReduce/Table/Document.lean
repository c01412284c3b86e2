import ShiftReduce.Json.Reader
import ShiftReduce.Signed64
import ShiftReduce.Table.Basic
/-!
Parse tables as JSON documents. States and symbols are member names, states and rules are
unsigned 32-bit numbers, and all entries stand in table order:

    {"states":{"0":{"actions":{"x":{"Shift":1},"$":"Accept"},"gotos":{"E":5}}}}

Reading takes the fields of a record in any order, or its values alone as an array, and ignores
fields that the record does not have. A repeated state or symbol replaces the earlier one in its
place.
-/
namespace ShiftReduce

class MemberName (S : Type) where
  write : S → List Char
  read? : List Char → Option S

instance : MemberName String where
  write s := Json.escape s.toList
  read? body := (Json.unescape body).map String.ofList

instance : MemberName Int where
  write := Text.signed
  read? body := (Text.integer? body).bind Signed64.inRange?

def id? (text : List Char) : Option Nat :=
  (Text.natural? text).filter fun id => id < idLimit

namespace Json

def ofId (id : Nat) : Json := .number (Text.decimal id)

def toId? : Json → Option Nat
  | .number text => id? text
  | _ => none

def name (s : String) : List Char := escape s.toList

def nameText? (body : List Char) : Option String := (unescape body).map String.ofList

def ofEntries {K V : Type} (key : K → List Char) (entry : V → Json) (m : OrderedMap K V) : Json :=
  .object (m.entries.map fun e => (key e.1, entry e.2))

def toEntries? {K V : Type} [DecidableEq K] (key? : List Char → Option K) (item? : Json → Option V) :
    Json → Option (OrderedMap K V)
  | .object members =>
    (members.mapM fun (m : List Char × Json) => do
      let k ← key? m.1
      let v ← item? m.2
      some (k, v)).map OrderedMap.ofList
  | _ => none

/-- The values of the named fields, each of which is there exactly once. -/
def fields? (names : List String) : Json → Option (List Json)
  | .array items => if items.length = names.length then some items else none
  | .object members => do
    let members ← members.mapM fun (m : List Char × Json) => (nameText? m.1).map (·, m.2)
    names.mapM fun name =>
      match members.filter fun m => m.1 = name with
      | [(_, value)] => some value
      | _ => none
  | _ => none

end Json

def Action.toJson : Action → Json
  | .shift next => .object [(Json.name "Shift", .ofId next)]
  | .reduce rule => .object [(Json.name "Reduce", .ofId rule)]
  | .accept => .string (Json.name "Accept")

def Action.ofJson? : Json → Option Action
  | .string body => if Json.nameText? body = some "Accept" then some .accept else none
  | .object [(body, value)] =>
    match Json.nameText? body with
    | some "Shift" => value.toId?.map .shift
    | some "Reduce" => value.toId?.map .reduce
    | some "Accept" =>
      match value with
      | .null => some .accept
      | _ => none
    | _ => none
  | _ => none

variable {S : Type} [MemberName S]

def Row.toJson (row : Row S) : Json :=
  .object [
    (Json.name "actions", .ofEntries MemberName.write Action.toJson row.actions),
    (Json.name "gotos", .ofEntries MemberName.write Json.ofId row.gotos)]

def Table.toJson (t : Table S) : Json :=
  .object [(Json.name "states", .ofEntries Text.decimal Row.toJson t.rows)]

def Table.document (t : Table S) : String := String.ofList t.toJson.written

variable [DecidableEq S]

def Row.ofJson? (j : Json) : Option (Row S) :=
  match j.fields? ["actions", "gotos"] with
  | some [actions, gotos] => do
    let actions ← actions.toEntries? MemberName.read? Action.ofJson?
    let gotos ← gotos.toEntries? MemberName.read? Json.toId?
    some { actions, gotos }
  | _ => none

def Table.ofJson? (j : Json) : Option (Table S) :=
  match j.fields? ["states"] with
  | some [states] => (states.toEntries? id? Row.ofJson?).map Table.mk
  | _ => none

def Table.ofDocument? (text : String) : Option (Table S) :=
  (Json.document? text.toList).bind Table.ofJson?

end ShiftReduce
