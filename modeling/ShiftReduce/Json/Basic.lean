/-!
JSON documents as they are written. Members keep their order, and strings and numbers keep their
text, so that a reader decides which of them it decodes and how.
-/
namespace ShiftReduce

/-- Strings and member names are what stands between the quotes, escapes included. -/
inductive Json where
  | null
  | bool (value : Bool)
  | number (text : List Char)
  | string (body : List Char)
  | array (items : List Json)
  | object (members : List (List Char × Json))
  deriving Repr

namespace Json

def enclosed (first last : Char) (items : List (List Char)) : List Char :=
  first :: ([','].intercalate items ++ [last])

def quotedBody (body : List Char) : List Char := '"' :: (body ++ ['"'])

mutual

def written : Json → List Char
  | .null => ['n', 'u', 'l', 'l']
  | .bool true => ['t', 'r', 'u', 'e']
  | .bool false => ['f', 'a', 'l', 's', 'e']
  | .number text => text
  | .string body => quotedBody body
  | .array items => enclosed '[' ']' (writtenItems items)
  | .object members => enclosed '\x7b' '\x7d' (writtenMembers members)

def writtenItems : List Json → List (List Char)
  | [] => []
  | item :: items => item.written :: writtenItems items

def writtenMembers : List (List Char × Json) → List (List Char)
  | [] => []
  | (name, value) :: members => (quotedBody name ++ ':' :: value.written) :: writtenMembers members

end

end Json

end ShiftReduce
