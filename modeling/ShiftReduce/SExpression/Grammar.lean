import ShiftReduce.Parser.Run
import ShiftReduce.SExpression.Lexer
/-!
Sequences of atoms and parenthesized lists:

    List := @empty | List Item
    Item := ATOM | "(" List ")"
-/
namespace ShiftReduce.SExpression

def emptyList : Callback SExpression := .ofTotal fun _ => .list []

def append : Callback SExpression where
  apply
    | .list items :: item :: _ => .ok (.list (items ++ [item]))
    | args => .error (.unexpectedOperands args[0]? args[1]?)

def contents : Callback SExpression where
  apply args :=
    match args[1]? with
    | some x => .ok x
    | none => .error (.missingContents args.length)

def grammar : Grammar String SExpression where
  rules := [
    ⟨⟨"List", []⟩, 1, some emptyList⟩,
    ⟨⟨"List", ["List", "Item"]⟩, 2, some append⟩,
    ⟨⟨"Item", ["ATOM"]⟩, 3, none⟩,
    ⟨⟨"Item", ["(", "List", ")"]⟩, 4, some contents⟩]
  start := "List"
  numbered := rfl
  distinct := by simp
  start_mem := by simp

def table : Table String := .ofSettings [
  .reduce 0 "ATOM" 1, .reduce 0 "(" 1, .reduce 0 "$eof" 1, .goto 0 "List" 1,
  .shift 1 "ATOM" 2, .shift 1 "(" 3, .accept 1 "$eof", .goto 1 "Item" 4,
  .reduce 2 "ATOM" 3, .reduce 2 "(" 3, .reduce 2 ")" 3, .reduce 2 "$eof" 3,
  .reduce 3 "ATOM" 1, .reduce 3 "(" 1, .reduce 3 ")" 1, .goto 3 "List" 5,
  .reduce 4 "ATOM" 2, .reduce 4 "(" 2, .reduce 4 ")" 2, .reduce 4 "$eof" 2,
  .shift 5 "ATOM" 2, .shift 5 "(" 3, .shift 5 ")" 6, .goto 5 "Item" 4,
  .reduce 6 "ATOM" 4, .reduce 6 "(" 4, .reduce 6 ")" 4, .reduce 6 "$eof" 4]

def parser : Parser String SExpression := { grammar, table }

/-- Under any lookahead the parser makes at most two reductions for each token before it, and
one more. -/
def parse {E : Type} (p : Parser String SExpression)
    (items : List (Except E (Token String SExpression))) : Run String SExpression E :=
  p.run (2 * items.length + 2) items

end ShiftReduce.SExpression
