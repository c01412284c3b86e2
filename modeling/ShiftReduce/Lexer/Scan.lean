import ShiftReduce.Signed64
import ShiftReduce.Text.Numeral
/-!
Scanning a text into lexemes. Blanks separate lexemes and belong to none; every other character
belongs to exactly one, recognized or not, and scanning goes on after one that is not.
-/
namespace ShiftReduce

structure Lexeme (K : Type) where
  kind : Option K
  start : Nat
  text : List Char

/-- What starts with a character that is no blank, and how many of the characters after it
belong to it. -/
def Lexicon (K : Type) : Type := Char → List Char → Option K × Nat

def isBlank (c : Char) : Bool := c = ' ' || c = '\t' || c = '\n' || c = '\x0c'

def scanFrom {K : Type} (lexicon : Lexicon K) (start : Nat) : List Char → List (Lexeme K)
  | [] => []
  | c :: rest =>
    if isBlank c then scanFrom lexicon (start + 1) rest
    else
      let found := lexicon c rest
      let text := c :: rest.take found.2
      ⟨found.1, start, text⟩ :: scanFrom lexicon (start + text.length) (rest.drop found.2)
termination_by cs => cs.length
decreasing_by
  all_goals simp only [List.length_cons, List.length_drop]; omega

def scan {K : Type} (lexicon : Lexicon K) (text : List Char) : List (Lexeme K) :=
  scanFrom lexicon 0 text

def integerRun {K : Type} (kind : Int → K) (c : Char) (rest : List Char) : Option K × Nat :=
  let more := rest.takeWhile Char.isDigit
  ((Signed64.inRange? (Text.value 10 (c :: more))).map kind, more.length)

end ShiftReduce
