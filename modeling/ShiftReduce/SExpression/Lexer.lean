import ShiftReduce.Lexer.Line
import ShiftReduce.SExpression.Basic

namespace ShiftReduce.SExpression

inductive Kind where
  | leftParen
  | rightParen
  | atom
  deriving DecidableEq, Repr

def startsAtom (c : Char) : Bool := c.isAlpha || c = '_'

def continuesAtom (c : Char) : Bool := startsAtom c || c.isDigit

def lexicon : Lexicon Kind
  | '(', _ => (some .leftParen, 0)
  | ')', _ => (some .rightParen, 0)
  | c, rest =>
    if startsAtom c then (some .atom, (rest.takeWhile continuesAtom).length) else (none, 0)

def Kind.symbol : Kind → String
  | .leftParen => "("
  | .rightParen => ")"
  | .atom => "ATOM"

def endSymbol : String := "$eof"

def slice (line : Nat) (x : Lexeme Kind) : Except LexError (Token String String) :=
  x.item (fun kind text => (kind.symbol, String.ofList text)) .mk line

def slices (text : String) : List (Except LexError (Token String String)) :=
  (lexemes lexicon text).map (fun x => slice x.1 x.2) ++ [.ok ⟨endSymbol, "", none⟩]

def ofSlice (t : Token String String) : Token String SExpression :=
  ⟨t.symbol, if t.symbol = "ATOM" then .atom t.value else .punct, t.line⟩

def tokens (text : String) : List (Except LexError (Token String SExpression)) :=
  (slices text).map fun item => item.map ofSlice

end ShiftReduce.SExpression
