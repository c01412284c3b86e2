import ShiftReduce.Lexer.Line

namespace ShiftReduce.Arithmetic

inductive Kind where
  | leftParen
  | rightParen
  | plus
  | times
  | power
  | integer (n : Int)
  deriving DecidableEq, Repr

def lexicon : Lexicon Kind
  | '(', _ => (some .leftParen, 0)
  | ')', _ => (some .rightParen, 0)
  | '+', _ => (some .plus, 0)
  | '*', '*' :: _ => (some .power, 1)
  | '*', _ => (some .times, 0)
  | c, rest => if c.isDigit then integerRun .integer c rest else (none, 0)

def Kind.symbol : Kind → String
  | .leftParen => "("
  | .rightParen => ")"
  | .plus => "+"
  | .times => "*"
  | .power => "**"
  | .integer _ => "INT"

def Kind.value : Kind → Int
  | .integer n => n
  | _ => 0

def endSymbol : String := "$eof"

def token (line : Nat) (x : Lexeme Kind) : Except LexError (Token String Int) :=
  x.item (fun kind _ => (kind.symbol, kind.value)) .mk line

def tokens (text : String) : List (Except LexError (Token String Int)) :=
  (lexemes lexicon text).map fun x => token x.1 x.2

def tokensWithEnd (text : String) : List (Except LexError (Token String Int)) :=
  tokens text ++ [.ok ⟨endSymbol, 0, some (lastLine text)⟩]

end ShiftReduce.Arithmetic
