import ShiftReduce.Text.Inspect

namespace ShiftReduce

structure Token (S V : Type) where
  symbol : S
  value : V
  line : Option Nat := none
  deriving DecidableEq, Repr

instance {S V : Type} [Inspect S] [Inspect V] : Inspect (Token S V) where
  inspect t := Text.record "CommonToken"
    [("symbol", inspect t.symbol), ("value", inspect t.value), ("line", inspect t.line)]

end ShiftReduce
