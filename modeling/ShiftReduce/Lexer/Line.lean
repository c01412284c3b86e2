import ShiftReduce.Lexer.Scan
import ShiftReduce.Text.Quoted
import ShiftReduce.Token
/-!
Line numbers, and the items that carry them. A counter moves forward through a text from one offset
to the next and adds the newlines that it passes, so that a whole text is read once.
-/
namespace ShiftReduce

structure LineCounter where
  unread : List Char
  offset : Nat
  line : Nat

namespace LineCounter

def start (text : List Char) : LineCounter := ⟨text, 0, 1⟩

def moveTo (l : LineCounter) (offset : Nat) : LineCounter :=
  let passed := offset - l.offset
  ⟨l.unread.drop passed, offset, l.line + (l.unread.take passed).count '\n'⟩

end LineCounter

def withLines {K : Type} : LineCounter → List (Lexeme K) → List (Nat × Lexeme K)
  | _, [] => []
  | l, x :: xs =>
    let l := l.moveTo x.start
    (l.line, x) :: withLines l xs

def lexemes {K : Type} (lexicon : Lexicon K) (text : String) : List (Nat × Lexeme K) :=
  withLines (.start text.toList) (scan lexicon text.toList)

def Lexeme.item {K S V E : Type} (x : Lexeme K) (carried : K → List Char → S × V)
    (error : String → Nat → E) (line : Nat) : Except E (Token S V) :=
  match x.kind with
  | some kind =>
    let (symbol, value) := carried kind x.text
    .ok ⟨symbol, value, some line⟩
  | none => .error (error (String.ofList x.text) line)

def lastLine (text : String) : Nat := text.toList.count '\n' + 1

structure LexError where
  text : String
  line : Nat
  deriving DecidableEq, Repr

instance : ToString LexError where
  toString e := "unexpected character " ++ Text.quoted e.text ++ " at line " ++
    Text.naturalText e.line

end ShiftReduce
