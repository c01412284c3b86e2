import ShiftReduce.Text.Inspect
/-!
Symbolic expressions: atoms and nested lists. `punct` is the value that parentheses and the end of
the input carry while they are parsed.
-/
namespace ShiftReduce

inductive SExpression where
  | atom (text : String)
  | list (items : List SExpression)
  | punct
  deriving Repr

namespace SExpression

mutual

def inspected : SExpression → String
  | .atom text => "Atom(" ++ inspect text ++ ")"
  | .list items => "List(" ++ Text.bracketed (inspectedItems items) ++ ")"
  | .punct => "Punct"

def inspectedItems : List SExpression → List String
  | [] => []
  | x :: xs => inspected x :: inspectedItems xs

end

instance : Inspect SExpression := ⟨inspected⟩

end SExpression

end ShiftReduce
