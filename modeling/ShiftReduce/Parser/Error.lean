import ShiftReduce.Table.Check
import ShiftReduce.Token

namespace ShiftReduce

inductive ParseError (S V E : Type) where
  | lexer (error : E)
  | unexpectedToken (token : Token S V) (state : Nat) (expected : List S)
  | unexpectedEnd (state : Nat) (expected : List S)
  | table (error : TableError S)

def ParseError.message {S V E : Type} [Inspect S] [Inspect V] [ToString E] :
    ParseError S V E → String
  | .lexer error => "from lexer: " ++ toString error
  | .unexpectedToken token state expected =>
    "unexpected token " ++ inspect token ++ " in state " ++ inspect state ++
      "; expected one of " ++ inspect expected
  | .unexpectedEnd state expected =>
    "unexpected end of input in state " ++ inspect state ++ "; expected one of " ++
      inspect expected
  | .table error => "malformed parse table: " ++ error.message

end ShiftReduce
