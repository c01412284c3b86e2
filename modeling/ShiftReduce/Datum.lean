import ShiftReduce.Grammar.Callback
import ShiftReduce.Signed64
/-!
Values for grammars that are given as data: integers, strings and lists of values, and the
callbacks that such a grammar can ask for. They serve programs that read their grammars, and no
result is about them: what is proved of parsers holds for values of any type.
-/
namespace ShiftReduce

inductive Datum where
  | int (n : Int)
  | str (s : String)
  | list (items : List Datum)
  deriving Repr

namespace Datum

mutual

def inspected : Datum → String
  | .int n => "Int(" ++ inspect n ++ ")"
  | .str s => "Str(" ++ inspect s ++ ")"
  | .list items => "List(" ++ Text.bracketed (inspectedItems items) ++ ")"

def inspectedItems : List Datum → List String
  | [] => []
  | x :: xs => inspected x :: inspectedItems xs

end

instance : Inspect Datum := ⟨inspected⟩

def int? : Datum → Option Int
  | .int n => some n
  | _ => none

def collect : Callback Datum := .ofTotal .list

/-- The sum of the integers among the operands, modulo `2 ^ 64`. -/
def sum : Callback Datum := .ofTotal fun args =>
  .int (Signed64.wrap ((args.filterMap int?).foldr (· + ·) 0))

def count : Callback Datum := .ofTotal fun args => .int args.length

def tagged (tag : String) : Callback Datum := .ofTotal fun args => .list (.str tag :: args)

def constant (x : Datum) : Callback Datum := .ofTotal fun _ => x

end Datum

end ShiftReduce
