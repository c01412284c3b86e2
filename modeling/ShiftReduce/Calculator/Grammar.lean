import ShiftReduce.Calculator.Lexer
import ShiftReduce.Grammar.Definition
import ShiftReduce.Parser.Run
import ShiftReduce.Table.Check
/-!
The calculator's grammar and parse table:

    Additive       := Additive ("+" | "-") Multiplicative | Multiplicative
    Multiplicative := Multiplicative ("*" | "/") Power | Power
    Power          := Primary "**" Power | Primary
    Primary        := Int | "(" Additive ")"
-/
namespace ShiftReduce.Calculator

def operandsText (args : List Expr) : String :=
  (if args.length = 3 then "Ok(" else "Err(") ++ inspect args ++ ")"

def counted : Option Expr → Except (Fault Expr) Expr
  | some node => .ok node
  | none => .error (.overflow .add)

def operation (op : Operator) : Callback Expr where
  apply
    | [left, .punct, right] => counted (Expr.binary? op left right)
    | _ => .ok .error
  remarks
    | [_, .punct, _] => []
    | args => ["unexpected operands for " ++ op.sign ++ " args=" ++ operandsText args]

def parentheses : Callback Expr where
  apply
    | [.punct, inner, .punct] => counted inner.paren?
    | _ => .ok .error
  remarks
    | [.punct, _, .punct] => []
    | args => ["unexpected contents of parentheses args=" ++ operandsText args]

def grammar : Grammar Symbol Expr where
  rules := [
    ⟨⟨.additive, [.additive, .plus, .multiplicative]⟩, 1, some (operation .add)⟩,
    ⟨⟨.additive, [.additive, .minus, .multiplicative]⟩, 2, some (operation .sub)⟩,
    ⟨⟨.additive, [.multiplicative]⟩, 3, none⟩,
    ⟨⟨.multiplicative, [.multiplicative, .star, .power]⟩, 4, some (operation .mul)⟩,
    ⟨⟨.multiplicative, [.multiplicative, .slash, .power]⟩, 5, some (operation .div)⟩,
    ⟨⟨.multiplicative, [.power]⟩, 6, none⟩,
    ⟨⟨.power, [.primary, .starStar, .power]⟩, 7, some (operation .pow)⟩,
    ⟨⟨.power, [.primary]⟩, 8, none⟩,
    ⟨⟨.primary, [.int]⟩, 9, none⟩,
    ⟨⟨.primary, [.leftParen, .additive, .rightParen]⟩, 10, some parentheses⟩]
  start := .additive
  numbered := rfl
  distinct := by simp
  start_mem := by simp

def operandStates : List Nat := [0, 2, 8, 9, 10, 15, 16]

/-- The symbols that may follow a power, and a primary that is no base. -/
def afterPower : List Symbol := [.rightParen, .plus, .minus, .star, .slash, .endOfInput]

def afterPrimary : List Symbol :=
  [.rightParen, .plus, .minus, .star, .slash, .starStar, .endOfInput]

/-- A state after a multiplicative goes on with `*` and `/` and reduces on all else. -/
def multiplicativeState (state rule : Nat) : List (Setting Symbol) := [
  .reduce state .rightParen rule, .reduce state .plus rule, .reduce state .minus rule,
  .shift state .star 9, .shift state .slash 16, .reduce state .endOfInput rule]

def table : Table Symbol := .ofSettings <|
  (operandStates.flatMap fun state => [.shift state .int 1, .shift state .leftParen 2] :
    List (Setting Symbol)) ++
  ([.goto 0 .additive 3, .goto 0 .multiplicative 4, .goto 0 .power 5, .goto 0 .primary 6,
    .goto 2 .additive 7, .goto 2 .multiplicative 4, .goto 2 .power 5, .goto 2 .primary 6,
    .goto 8 .multiplicative 12, .goto 8 .power 5, .goto 8 .primary 6,
    .goto 15 .multiplicative 17, .goto 15 .power 5, .goto 15 .primary 6,
    .goto 9 .power 13, .goto 9 .primary 6,
    .goto 16 .power 18, .goto 16 .primary 6,
    .goto 10 .power 14, .goto 10 .primary 6] : List (Setting Symbol)) ++
  (afterPrimary.flatMap fun symbol => [.reduce 1 symbol 9, .reduce 11 symbol 10] :
    List (Setting Symbol)) ++
  ([.shift 3 .plus 8, .shift 3 .minus 15, .accept 3 .endOfInput,
    .shift 7 .rightParen 11, .shift 7 .plus 8, .shift 7 .minus 15] : List (Setting Symbol)) ++
  multiplicativeState 4 3 ++ multiplicativeState 12 1 ++ multiplicativeState 17 2 ++
  (afterPower.flatMap fun symbol =>
    [.reduce 5 symbol 6, .reduce 13 symbol 4, .reduce 18 symbol 5, .reduce 14 symbol 7] :
    List (Setting Symbol)) ++
  ([.reduce 6 .rightParen 8, .reduce 6 .plus 8, .reduce 6 .minus 8, .reduce 6 .star 8,
    .reduce 6 .slash 8, .shift 6 .starStar 10, .reduce 6 .endOfInput 8] : List (Setting Symbol))

def parser : Parser Symbol Expr := { grammar, table, endOfInput := some .endOfInput }

/-- The parser as the program builds it: its grammar is defined clause by clause, and the table is
checked against that grammar. A failure is told by its message. -/
def build : Except String (Parser Symbol Expr) := do
  let grammar ← (Grammar.define grammar.clauses).mapError DefinitionError.message
  (table.check grammar).mapError TableError.message
  return { grammar, table, endOfInput := some .endOfInput }

/-- Under any lookahead the parser makes at most four reductions for each token before it. -/
def parseItems {E : Type} (items : List (Except E (Token Symbol Expr))) : Run Symbol Expr E :=
  parser.run (4 * items.length + 1) items

def parse (text : String) : Run Symbol Expr LexError := parseItems (tokens text)

def parseWith (parser : Parser Symbol Expr) (text : String) : Run Symbol Expr LexError :=
  parser.run (4 * (tokens text).length + 1) (tokens text)

def transcript (text : String) : List String :=
  let run := parse text
  let parsed := match run.outcome with
    | .value tree => ["TRACE parsed: " ++ tree.text]
    | _ => []
  ("span parse input=" ++ inspect text) :: run.transcript ++ parsed

end ShiftReduce.Calculator
