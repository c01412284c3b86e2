import ShiftReduce.Calculator.Expr
import ShiftReduce.Lexer.Line

namespace ShiftReduce.Calculator

inductive Symbol where
  | int
  | leftParen
  | rightParen
  | plus
  | minus
  | star
  | slash
  | starStar
  | endOfInput
  | additive
  | multiplicative
  | power
  | primary
  deriving DecidableEq, Repr

def Symbol.name : Symbol → String
  | .int => "Int"
  | .leftParen => "LParen"
  | .rightParen => "RParen"
  | .plus => "Plus"
  | .minus => "Minus"
  | .star => "Star"
  | .slash => "Slash"
  | .starStar => "StarStar"
  | .endOfInput => "Eof"
  | .additive => "Additive"
  | .multiplicative => "Multiplicative"
  | .power => "Power"
  | .primary => "Primary"

instance : Inspect Symbol := ⟨Symbol.name⟩

def lexicon : Lexicon (Symbol × Expr)
  | '(', _ => (some (.leftParen, .punct), 0)
  | ')', _ => (some (.rightParen, .punct), 0)
  | '+', _ => (some (.plus, .punct), 0)
  | '-', _ => (some (.minus, .punct), 0)
  | '*', '*' :: _ => (some (.starStar, .punct), 1)
  | '*', _ => (some (.star, .punct), 0)
  | '/', _ => (some (.slash, .punct), 0)
  | c, rest => if c.isDigit then integerRun (fun n => (.int, .num n)) c rest else (none, 0)

structure LexError where
  text : String
  line : Nat
  deriving DecidableEq, Repr

instance : ToString LexError where
  toString e := "lexer error: unexpected " ++ inspect e.text ++ " at line " ++ inspect e.line

def token (line : Nat) (x : Lexeme (Symbol × Expr)) : Except LexError (Token Symbol Expr) :=
  x.item (fun kind _ => kind) .mk line

def tokens (text : String) : List (Except LexError (Token Symbol Expr)) :=
  (lexemes lexicon text).map fun x => token x.1 x.2

end ShiftReduce.Calculator
