import ShiftReduce.Calculator.Eval
import ShiftReduce.Calculator.Grammar
/-!
The command line of the calculator: it evaluates one expression, or lists the grammar and the
parse table. What the arguments ask for is up to a reader, which may answer by itself. The response
is a value, so running the program only prints it.
-/
namespace ShiftReduce.Calculator

structure Options where
  dumpTable : Bool := false
  ast : Bool := false
  input : Option String := none
  deriving DecidableEq, Repr

inductive Request where
  | run (options : Options)
  | shown (text : String)
  | refused (message : String)
  deriving DecidableEq, Repr

structure Response where
  code : Nat
  output : String
  errors : String
  deriving DecidableEq, Repr

def causesText : List String → String
  | [] => ""
  | [cause] => "\nCaused by:\n    " ++ cause ++ "\n"
  | causes => "\nCaused by:\n" ++ String.join (causes.zipIdx.map fun c =>
    "    " ++ inspect c.2 ++ ": " ++ c.1 ++ "\n")

def failure (output message : String) (causes : List String) : Response :=
  ⟨1, output, "Error: " ++ message ++ "\n" ++ causesText causes⟩

def evaluated (ast : Bool) (tree : Expr) : Response :=
  let shown := if ast then "parsed: " ++ tree.text ++ "\n" else ""
  match tree.eval with
  | .ok n => ⟨0, shown ++ inspect n ++ "\n", ""⟩
  | .error e => failure shown "evaluation error" (e.message :: e.causes)

def calculate (parser : Parser Symbol Expr) (ast : Bool) (input : String) : Response :=
  match (parseWith parser input).outcome with
  | .value tree => evaluated ast tree
  | .error e => failure "" "parser error" [e.message]
  -- The program would panic, or not end. The parser that is built comes to neither on any text.
  | .fault f => ⟨101, "", f.message ++ "\n"⟩
  | .unfinished => ⟨101, "", ""⟩

def Options.respond (o : Options) : Response :=
  match build with
  | .error message => failure "" "failed to build the parser" [message]
  | .ok parser =>
    if o.dumpTable then
      ⟨0, parser.grammar.text ++ "\n" ++ parser.table.listing parser.grammar ++ "\n", ""⟩
    else match o.input with
      | none => failure "" "missing input" []
      | some input => calculate parser o.ast input

def respond (read : List String → Request) (args : List String) : Response :=
  match read args with
  | .run o => o.respond
  | .shown text => ⟨0, text, ""⟩
  | .refused message => ⟨2, "", message⟩

end ShiftReduce.Calculator
