import ShiftReduce.Text.Extending
import ShiftReduce.Text.Numeral
import ShiftReduce.Text.Unseen
/-!
Quoted strings for messages and listings. The text stands between double quotes; a quote, a
backslash, and every character that a reader could not see in its own place are written as
escapes, so that distinct strings have distinct quoted forms.
-/
namespace ShiftReduce.Text

def isConcealed (c : Char) : Bool := isUnseen c || isExtending c

def codePoint (c : Char) : List Char :=
  '\\' :: 'u' :: '\x7b' :: (numeral 16 c.toNat ++ ['\x7d'])

def escape (c : Char) : List Char :=
  match c with
  | '"' => ['\\', '"']
  | '\\' => ['\\', '\\']
  | '\n' => ['\\', 'n']
  | '\r' => ['\\', 'r']
  | '\t' => ['\\', 't']
  | '\x00' => ['\\', '0']
  | c => if isConcealed c then codePoint c else [c]

def quoted (s : String) : String :=
  String.ofList ('"' :: (s.toList.flatMap escape ++ ['"']))

end ShiftReduce.Text
