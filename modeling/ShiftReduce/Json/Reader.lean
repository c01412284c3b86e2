import ShiftReduce.Json.Basic
import ShiftReduce.Json.Escape
/-!
Reading JSON text. Each reader takes what it reads from the front of the text and yields the rest;
a document is one value with blanks around it and nothing else.
-/
namespace ShiftReduce.Json

def isBlank (c : Char) : Bool := c = ' ' || c = '\n' || c = '\r' || c = '\t'

def skipBlanks (cs : List Char) : List Char := cs.dropWhile isBlank

def consAll (front : List Char) (read : List Char × List Char) : List Char × List Char :=
  (front ++ read.1, read.2)

/-- The body of a string whose opening quote has been read. Escapes are checked for their form
only. -/
def body? : List Char → Option (List Char × List Char)
  | [] => none
  | '"' :: rest => some ([], rest)
  | '\\' :: 'u' :: a :: b :: c :: d :: rest =>
    if (codeUnit? a b c d).isSome then (body? rest).map (consAll ['\\', 'u', a, b, c, d]) else none
  | '\\' :: letter :: rest =>
    if (letterMeaning? letter).isSome then (body? rest).map (consAll ['\\', letter]) else none
  | c :: rest =>
    if c = '\\' || c.toNat < 32 then none else (body? rest).map (consAll [c])

def digitRun (cs : List Char) : List Char × List Char :=
  (cs.takeWhile Char.isDigit, cs.dropWhile Char.isDigit)

def nonemptyRun? (cs : List Char) : Option (List Char × List Char) :=
  if (digitRun cs).1.isEmpty then none else some (digitRun cs)

def whole? : List Char → Option (List Char × List Char)
  | '0' :: rest =>
    match rest with
    | c :: _ => if c.isDigit then none else some (['0'], rest)
    | [] => some (['0'], [])
  | cs => nonemptyRun? cs

def fraction? : List Char → Option (List Char × List Char)
  | '.' :: rest => (nonemptyRun? rest).map (consAll ['.'])
  | cs => some ([], cs)

def exponent? : List Char → Option (List Char × List Char)
  | e :: rest =>
    if e = 'e' || e = 'E' then
      match rest with
      | sign :: digits =>
        if sign = '+' || sign = '-' then (nonemptyRun? digits).map (consAll [e, sign])
        else (nonemptyRun? rest).map (consAll [e])
      | [] => none
    else some ([], e :: rest)
  | [] => some ([], [])

def unsigned? (cs : List Char) : Option (List Char × List Char) := do
  let (whole, cs) ← whole? cs
  let (fraction, cs) ← fraction? cs
  let (exponent, cs) ← exponent? cs
  some (whole ++ fraction ++ exponent, cs)

def number? : List Char → Option (List Char × List Char)
  | '-' :: rest => (unsigned? rest).map (consAll ['-'])
  | cs => unsigned? cs

mutual

/-- Reads one value. Every call costs one unit of fuel, and a text of length `n` needs no more
than `2 * n + 2` units. -/
def value? : Nat → List Char → Option (Json × List Char)
  | 0, _ => none
  | fuel + 1, cs =>
    match skipBlanks cs with
    | 'n' :: 'u' :: 'l' :: 'l' :: rest => some (.null, rest)
    | 't' :: 'r' :: 'u' :: 'e' :: rest => some (.bool true, rest)
    | 'f' :: 'a' :: 'l' :: 's' :: 'e' :: rest => some (.bool false, rest)
    | '"' :: rest => (body? rest).map fun read => (.string read.1, read.2)
    | '[' :: rest =>
      match skipBlanks rest with
      | ']' :: rest => some (.array [], rest)
      | rest => (items? fuel rest).map fun read => (.array read.1, read.2)
    | '\x7b' :: rest =>
      match skipBlanks rest with
      | '\x7d' :: rest => some (.object [], rest)
      | rest => (members? fuel rest).map fun read => (.object read.1, read.2)
    | rest => (number? rest).map fun read => (.number read.1, read.2)

def items? : Nat → List Char → Option (List Json × List Char)
  | 0, _ => none
  | fuel + 1, cs => do
    let (item, cs) ← value? fuel cs
    match skipBlanks cs with
    | ',' :: rest => (items? fuel rest).map fun read => (item :: read.1, read.2)
    | ']' :: rest => some ([item], rest)
    | _ => none

def members? : Nat → List Char → Option (List (List Char × Json) × List Char)
  | 0, _ => none
  | fuel + 1, cs =>
    match skipBlanks cs with
    | '"' :: rest => do
      let (name, cs) ← body? rest
      match skipBlanks cs with
      | ':' :: rest => do
        let (value, cs) ← value? fuel rest
        match skipBlanks cs with
        | ',' :: rest => (members? fuel rest).map fun read => ((name, value) :: read.1, read.2)
        | '\x7d' :: rest => some ([(name, value)], rest)
        | _ => none
      | _ => none
    | _ => none

end

def document? (cs : List Char) : Option Json := do
  let (value, rest) ← value? (2 * cs.length + 2) cs
  if (skipBlanks rest).isEmpty then some value else none

end ShiftReduce.Json
