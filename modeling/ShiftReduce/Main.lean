import ShiftReduce.Calculator.Arguments

def main (args : List String) : IO UInt32 := do
  let response := ShiftReduce.Calculator.respond ShiftReduce.Calculator.Arguments.read args
  IO.print response.output
  IO.eprint response.errors
  return response.code.toUInt32
