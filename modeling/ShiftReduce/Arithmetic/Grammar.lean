import ShiftReduce.Arithmetic.Lexer
import ShiftReduce.Grammar.Definition
import ShiftReduce.Parser.Run
import ShiftReduce.Signed64
/-!
Arithmetic expressions with `+`, `*`, right-associative `**` and parentheses, computed while they
are parsed:

    Additive       := Additive "+" Multiplicative | Multiplicative
    Multiplicative := Multiplicative "*" Power | Power
    Power          := Primary "**" Power | Primary
    Primary        := INT | "(" Additive ")"

Values are signed 64-bit integers, and a result out of range is a fault. An exponent counts
modulo `2 ^ 32`.
-/
namespace ShiftReduce.Arithmetic

def operand (args : List Int) (index : Nat) : Except (Fault Int) Int :=
  match args[index]? with
  | some n => .ok n
  | none => .error (.missingOperand index args.length)

def operation (name : Overflow) (f : Int → Int → Option Int) : Callback Int where
  apply args := do
    let left ← operand args 0
    let right ← operand args 2
    match f left right with
    | some n => .ok n
    | none => .error (.overflow name)

def add : Callback Int := operation .add fun a b => Signed64.inRange? (a + b)

def multiply : Callback Int := operation .multiply fun a b => Signed64.inRange? (a * b)

def raise : Callback Int := operation .exponentiate fun a b => Signed64.pow? a (Signed64.low32 b)

def contents : Callback Int := { apply := fun args => operand args 1 }

def grammar : Grammar String Int where
  rules := [
    ⟨⟨"Additive", ["Additive", "+", "Multiplicative"]⟩, 1, some add⟩,
    ⟨⟨"Additive", ["Multiplicative"]⟩, 2, none⟩,
    ⟨⟨"Multiplicative", ["Multiplicative", "*", "Power"]⟩, 3, some multiply⟩,
    ⟨⟨"Multiplicative", ["Power"]⟩, 4, none⟩,
    ⟨⟨"Power", ["Primary", "**", "Power"]⟩, 5, some raise⟩,
    ⟨⟨"Power", ["Primary"]⟩, 6, none⟩,
    ⟨⟨"Primary", ["INT"]⟩, 7, none⟩,
    ⟨⟨"Primary", ["(", "Additive", ")"]⟩, 8, some contents⟩]
  start := "Additive"
  numbered := rfl
  distinct := by simp
  start_mem := by simp

def table : Table String := .ofSettings [
  .shift 0 "INT" 1, .shift 0 "(" 2,
  .goto 0 "Additive" 3, .goto 0 "Multiplicative" 4, .goto 0 "Power" 5, .goto 0 "Primary" 6,
  .reduce 1 ")" 7, .reduce 1 "+" 7, .reduce 1 "*" 7, .reduce 1 "**" 7, .reduce 1 "$eof" 7,
  .shift 2 "INT" 1, .shift 2 "(" 2,
  .goto 2 "Additive" 7, .goto 2 "Multiplicative" 4, .goto 2 "Power" 5, .goto 2 "Primary" 6,
  .shift 3 "+" 8, .accept 3 "$eof",
  .reduce 4 ")" 2, .reduce 4 "+" 2, .shift 4 "*" 9, .reduce 4 "$eof" 2,
  .reduce 5 ")" 4, .reduce 5 "+" 4, .reduce 5 "*" 4, .reduce 5 "$eof" 4,
  .reduce 6 ")" 6, .reduce 6 "+" 6, .reduce 6 "*" 6, .shift 6 "**" 10, .reduce 6 "$eof" 6,
  .shift 7 ")" 11, .shift 7 "+" 8,
  .shift 8 "INT" 1, .shift 8 "(" 2,
  .goto 8 "Multiplicative" 12, .goto 8 "Power" 5, .goto 8 "Primary" 6,
  .shift 9 "INT" 1, .shift 9 "(" 2, .goto 9 "Power" 13, .goto 9 "Primary" 6,
  .shift 10 "INT" 1, .shift 10 "(" 2, .goto 10 "Power" 14, .goto 10 "Primary" 6,
  .reduce 11 ")" 8, .reduce 11 "+" 8, .reduce 11 "*" 8, .reduce 11 "**" 8, .reduce 11 "$eof" 8,
  .reduce 12 ")" 1, .reduce 12 "+" 1, .shift 12 "*" 9, .reduce 12 "$eof" 1,
  .reduce 13 ")" 3, .reduce 13 "+" 3, .reduce 13 "*" 3, .reduce 13 "$eof" 3,
  .reduce 14 ")" 5, .reduce 14 "+" 5, .reduce 14 "*" 5, .reduce 14 "$eof" 5]

def parser : Parser String Int := { grammar, table }

/-- Under any lookahead the parser makes at most four reductions for each token before it. -/
def parse {E : Type} (p : Parser String Int) (items : List (Except E (Token String Int))) :
    Run String Int E :=
  p.run (4 * items.length + 1) items

end ShiftReduce.Arithmetic
