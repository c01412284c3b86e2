import ShiftReduce.Calculator.CommandLine
/-!
The reader of the arguments that the program is run with. It goes from left to right and stops at
the first argument that asks for a text or cannot stand where it does. Each flag comes at most once,
without a value, and so does the input. After a double hyphen no argument is a flag.
-/
namespace ShiftReduce.Calculator.Arguments

def help : String :=
  "Usage: lalrun-demo-arithmetic [OPTIONS] [INPUT]\n\n" ++
  "Arguments:\n  [INPUT]  The expression to evaluate\n\n" ++
  "Options:\n" ++
  "      --dump-table  Print the grammar and its parse table, then exit\n" ++
  "      --ast         Print the syntax tree before evaluating it\n" ++
  "  -h, --help        Print help\n" ++
  "  -V, --version     Print version\n"

def version : String := "lalrun-demo-arithmetic 0.0.0\n"

/-- Every complaint ends with this paragraph. What comes before it depends on the argument, with
suggestions for a better one, and is left out. -/
def complaint : Request := .refused "\nFor more information, try \x27--help\x27.\n"

def readInputs (o : Options) : List String → Request
  | [] => .run o
  | arg :: args =>
    match o.input with
    | some _ => complaint
    | none => readInputs { o with input := some arg } args

def readFrom (o : Options) : List String → Request
  | [] => .run o
  | "--" :: args => readInputs o args
  | "--dump-table" :: args =>
    if o.dumpTable then complaint else readFrom { o with dumpTable := true } args
  | "--ast" :: args => if o.ast then complaint else readFrom { o with ast := true } args
  | "--help" :: _ => .shown help
  | "--version" :: _ => .shown version
  | arg :: args =>
    match arg.toList with
    | '-' :: 'h' :: _ => .shown help
    | '-' :: 'V' :: _ => .shown version
    -- A lone hyphen is an input.
    | '-' :: _ :: _ => complaint
    | _ =>
      match o.input with
      | some _ => complaint
      | none => readFrom { o with input := some arg } args

def read (args : List String) : Request := readFrom {} args

end ShiftReduce.Calculator.Arguments
