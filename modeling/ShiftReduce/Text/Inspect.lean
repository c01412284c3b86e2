import ShiftReduce.Text.Quoted
/-!
The text of a value in messages and listings: strings are quoted, integers are decimal, lists
stand in brackets, an optional value names its case.
-/
namespace ShiftReduce

class Inspect (α : Type) where
  inspect : α → String

export Inspect (inspect)

namespace Text

def joined (items : List String) : String := ", ".intercalate items

def bracketed (items : List String) : String := "[" ++ joined items ++ "]"

def braced (items : List String) : String := "\x7b" ++ joined items ++ "\x7d"

end Text

instance : Inspect String := ⟨Text.quoted⟩

instance : Inspect Int := ⟨Text.integerText⟩

instance : Inspect Nat := ⟨Text.naturalText⟩

instance {α : Type} [Inspect α] : Inspect (Option α) where
  inspect
    | none => "None"
    | some a => "Some(" ++ inspect a ++ ")"

instance {α : Type} [Inspect α] : Inspect (List α) where
  inspect xs := Text.bracketed (xs.map inspect)

def Text.record (name : String) (fields : List (String × String)) : String :=
  name ++ " \x7b " ++ joined (fields.map fun f => f.1 ++ ": " ++ f.2) ++ " \x7d"

end ShiftReduce
