import Mathlib.Data.List.Nodup
import ShiftReduce.Arithmetic.Grammar
import ShiftReduce.Proofs.Forest
import ShiftReduce.Proofs.Readability
import ShiftReduce.Table.Listing
/-!
The listing of a table over a grammar determines the table. Symbols are quoted, so nothing in them
is taken for the text around them; every entry stands on a line of its own, and every number is
followed by something that is no digit. A reduction shows its rule and not the number of the rule,
but no two rules of a grammar have the same text.
-/
namespace ShiftReduce

open Text

variable {V : Type}

def componentsText (components : List String) : String :=
  if components.isEmpty then " @empty"
  else String.join (components.map fun s => " " ++ inspect s)

def Grammar.reductionText (g : Grammar String V) (id : Nat) : String :=
  match g.rule? id with
  | some rule => rule.text
  | none => "<unknown " ++ ruleNumber id ++ ">"

theorem toList_inspectNat (n : Nat) : (inspect n).toList = decimal n := String.toList_ofList

theorem symbol_prefixFree : PrefixFree fun x : String => (inspect x).toList := quoted_prefixFree

theorem head?_inspect_append (x : String) (s : List Char) :
    ((inspect x).toList ++ s).head? = some '"' := by
  rw [show inspect x = quoted x from rfl, toList_quoted]
  rfl

section Productions

theorem components_unique :
    UniqueBefore (fun s => s.head? ≠ some ' ') fun cs => (componentsText cs).toList := by
  have item : PrefixFree fun x : String => (" " ++ inspect x).toList := by
    constructor
    intro x y s t same
    simp only [String.toList_append, List.append_assoc] at same
    exact symbol_prefixFree.parts (List.append_cancel_left same)
  have listed : UniqueBefore (fun s => s.head? ≠ some ' ')
      fun cs : List String => cs.flatMap fun x => (" " ++ inspect x).toList :=
    (item.before fun _ => True).flatMap (fun _ _ => trivial) (fun _ _ => trivial) (by simp)
  have text (c : String) (cs : List String) : (componentsText (c :: cs)).toList =
      (c :: cs).flatMap fun x => (" " ++ inspect x).toList := by
    simp only [componentsText, List.isEmpty_cons, Bool.false_eq_true, if_false,
      String.toList_join, List.flatMap_map]
  -- the mark of an empty right-hand side is not a quote
  have other (c : String) (cs : List String) (s t : List Char) :
      (componentsText []).toList ++ s ≠ (componentsText (c :: cs)).toList ++ t := by
    intro same
    have empty : (componentsText []).toList = " ".toList ++ "@empty".toList := rfl
    rw [text, empty] at same
    simp only [List.flatMap_cons, String.toList_append, List.append_assoc] at same
    have quote := head?_inspect_append c
      (cs.flatMap (fun x => " ".toList ++ (inspect x).toList) ++ t)
    rw [← List.append_cancel_left same] at quote
    cases quote
  constructor
  intro cs ds s t after after' same
  cases cs with
  | nil =>
    cases ds with
    | nil => exact ⟨rfl, List.append_cancel_left same⟩
    | cons d ds => exact absurd same (other d ds s t)
  | cons c cs =>
    cases ds with
    | nil => exact absurd same.symm (other c cs t s)
    | cons d ds =>
      simp only [text] at same
      exact listed.parts after after' same

theorem production_unique :
    UniqueBefore (fun s => s.head? ≠ some ' ') fun p : Production String => p.text.toList := by
  constructor
  intro p q s t after after' same
  have text (p : Production String) :
      p.text = inspect p.name ++ " :=" ++ componentsText p.components := rfl
  simp only [text, String.toList_append, List.append_assoc] at same
  obtain ⟨name, same⟩ := symbol_prefixFree.parts same
  obtain ⟨components, rest⟩ := components_unique.parts after after' (List.append_cancel_left same)
  cases p
  cases q
  exact ⟨congrArg₂ _ name components, rest⟩

theorem head?_rule_text_append (r : Rule String V) (s : List Char) :
    (r.text.toList ++ s).head? = some '"' := by
  simp only [Rule.text, Production.text, String.toList_append, List.append_assoc]
  exact head?_inspect_append _ _

end Productions

section Entries

variable (g : Grammar String V)

theorem Grammar.id_injective {i j : Nat} {r r' : Rule String V} (first : g.rule? i = some r)
    (second : g.rule? j = some r') (same : r.toProduction = r'.toProduction) : i = j := by
  have rules := List.inj_on_of_nodup_map g.distinct (mem_of_rule? first) (mem_of_rule? second) same
  rw [← id_of_rule? first, ← id_of_rule? second, rules]

theorem reduction_unique :
    UniqueBefore (fun s => s.head? = some ')') fun id => (g.reductionText id).toList := by
  have unknown (i : Nat) : ("<unknown " ++ ruleNumber i ++ ">").toList =
      "<unknown #".toList ++ (decimal i ++ ['>']) := by
    simp [ruleNumber, toList_inspectNat]
  have other (r : Rule String V) (i : Nat) (s t : List Char) :
      r.text.toList ++ s ≠ ("<unknown " ++ ruleNumber i ++ ">").toList ++ t := by
    intro same
    have quote := head?_rule_text_append r s
    rw [same, unknown] at quote
    cases quote
  have spaced {s : List Char} (closed : s.head? = some ')') : s.head? ≠ some ' ' := by simp [closed]
  constructor
  intro i j s t after after' same
  unfold Grammar.reductionText at same
  split at same
  next r first =>
    split at same
    next r' second =>
      obtain ⟨production, rest⟩ := production_unique.parts (spaced after) (spaced after') same
      exact ⟨g.id_injective first second production, rest⟩
    · exact absurd same (other r j s t)
  · split at same
    next r' second => exact absurd same.symm (other r' i t s)
    · rw [unknown, unknown] at same
      exact (numeral_prefixFree _ ['>'] fun _ => by simp [NoDigitNext]).parts same

theorem toList_call (word : String) (n : Nat) :
    (word ++ inspect n ++ ")").toList = word.toList ++ (decimal n ++ [')']) := by
  simp [toList_inspectNat]

theorem call_prefixFree (word : String) :
    PrefixFree fun n : Nat => (word ++ inspect n ++ ")").toList := by
  simp only [toList_call]
  exact numeral_prefixFree word.toList [')'] fun _ => by simp [NoDigitNext]

theorem action_prefixFree : PrefixFree fun a : Action => (a.text g).toList := by
  have reduces := (reduction_unique g).closed "reduce(".toList [')'] fun _ => rfl
  have shift (n : Nat) : ((Action.shift n).text g).toList =
      "shift(".toList ++ (decimal n ++ [')']) := toList_call "shift(" n
  have reduce (id : Nat) : ((Action.reduce id).text g).toList =
      "reduce(".toList ++ ((g.reductionText id).toList ++ [')']) := by
    simp only [Action.text, Grammar.reductionText]
    cases g.rule? id with
    | none => simp
    | some rule => simp
  have accept : (Action.accept.text g).toList = "accept".toList := rfl
  constructor
  intro a b s t same
  -- the first letter tells the kind of action
  cases a with
  | shift n =>
    cases b with
    | shift m =>
      obtain ⟨next, rest⟩ := (call_prefixFree "shift(").parts same
      exact ⟨congrArg _ next, rest⟩
    | reduce id => simp [shift, reduce] at same
    | accept => simp [shift, accept] at same
  | reduce id =>
    cases b with
    | shift m => simp [shift, reduce] at same
    | reduce id' =>
      rw [reduce, reduce] at same
      obtain ⟨rule, rest⟩ := reduces.parts same
      exact ⟨congrArg _ rule, rest⟩
    | accept => simp [reduce, accept] at same
  | accept =>
    cases b with
    | shift m => simp [shift, accept] at same
    | reduce id => simp [reduce, accept] at same
    | accept => exact ⟨rfl, List.append_cancel_left same⟩

end Entries

section Lines

variable {β : Type} {entry : β → String}

theorem toList_listed (x : String) (line : String) :
    (listed x line).toList =
      "- ".toList ++ ((inspect x).toList ++ (" => ".toList ++ (line.toList ++ ['\n']))) := by
  simp [listed]

theorem listed_prefixFree (entries : PrefixFree fun b => (entry b).toList) :
    PrefixFree fun e : String × β => (listed e.1 (entry e.2)).toList := by
  constructor
  intro e f s t same
  simp only [toList_listed, List.append_assoc] at same
  obtain ⟨symbol, same⟩ := symbol_prefixFree.parts (List.append_cancel_left same)
  obtain ⟨value, same⟩ := entries.parts (List.append_cancel_left same)
  exact ⟨Prod.ext symbol value, List.append_cancel_left same⟩

theorem lines_unique (entries : PrefixFree fun b => (entry b).toList) :
    UniqueBefore (fun s => s.head? ≠ some '-')
      fun es : List (String × β) => es.flatMap fun e => (listed e.1 (entry e.2)).toList := by
  apply ((listed_prefixFree entries).before fun _ => True).flatMap
  · exact fun _ _ => trivial
  · exact fun _ _ => trivial
  · intro e s dash
    rw [toList_listed] at dash
    exact dash rfl

end Lines

section Rows

theorem Row.eq_of_entries {r r' : Row String} (actions : r.actions.entries = r'.actions.entries)
    (gotos : r.gotos.entries = r'.gotos.entries) : r = r' := by
  cases r
  cases r'
  rw [Row.mk.injEq]
  exact ⟨OrderedMap.eq_of_entries_eq actions, OrderedMap.eq_of_entries_eq gotos⟩

variable (g : Grammar String V)

theorem toList_rowListing (state : Nat) (row : Row String) :
    (row.listing g state).toList =
      "#### State ".toList ++ (decimal state ++ ("\n## actions\n".toList ++
        ((row.actions.entries.flatMap fun e => (listed e.1 (e.2.text g)).toList) ++
          ("## gotos\n".toList ++ row.gotos.entries.flatMap fun e =>
            (listed e.1 ("goto(" ++ inspect e.2 ++ ")")).toList)))) := by
  simp [Row.listing, toList_inspectNat, List.flatMap_map]

theorem row_unique :
    UniqueBefore (fun s => s.head? ≠ some '-')
      fun e : Nat × Row String => (e.2.listing g e.1).toList := by
  constructor
  intro e f s t after after' same
  simp only [toList_rowListing, List.append_assoc] at same
  have heading (rest : List Char) : NoDigitNext ("\n## actions\n".toList ++ rest) := by
    simp [NoDigitNext]
  have between (rest : List Char) : ("## gotos\n".toList ++ rest).head? ≠ some '-' := by simp
  obtain ⟨state, same⟩ := decimal_unique.parts (heading _) (heading _)
    (List.append_cancel_left same)
  obtain ⟨actions, same⟩ := (lines_unique (action_prefixFree g)).parts (between _) (between _)
    (List.append_cancel_left same)
  obtain ⟨gotos, same⟩ := (lines_unique (call_prefixFree "goto(")).parts after after'
    (List.append_cancel_left same)
  exact ⟨Prod.ext state (Row.eq_of_entries actions gotos), same⟩

theorem laterRows_unique :
    UniqueBefore (fun s => s = []) fun es : List (Nat × Row String) =>
      es.flatMap fun e => '\n' :: (e.2.listing g e.1).toList := by
  have row : UniqueBefore (fun s => s.head? ≠ some '-')
      fun e : Nat × Row String => '\n' :: (e.2.listing g e.1).toList := by
    constructor
    intro e f s t after after' same
    exact (row_unique g).parts after after' (List.cons.inj same).2
  apply row.flatMap
  · rintro _ rfl
    simp
  · simp
  · simp

def rowsText : List (Nat × Row String) → List Char
  | [] => []
  | e :: es => (e.2.listing g e.1).toList ++ es.flatMap fun e => '\n' :: (e.2.listing g e.1).toList

theorem toList_listing (t : Table String) : (t.listing g).toList = rowsText g t.rows.entries := by
  have joined (x : String) (xs : List String) : ("\n".intercalate (x :: xs)).toList =
      x.toList ++ xs.flatMap fun y => '\n' :: y.toList := by
    induction xs generalizing x with
    | nil => simp
    | cons y ys ih =>
      rw [String.intercalate_cons_cons, String.toList_append, ih]
      simp
  unfold Table.listing
  cases t.rows.entries with
  | nil => rfl
  | cons e es =>
    rw [List.map_cons, joined, List.flatMap_map]
    rfl

theorem rowsText_injective : Function.Injective (rowsText g) := by
  have nonempty (e : Nat × Row String) (es : List (Nat × Row String)) :
      [] ≠ rowsText g (e :: es) := by
    simp [rowsText, toList_rowListing]
  have follows (es : List (Nat × Row String)) :
      (es.flatMap fun e => '\n' :: (e.2.listing g e.1).toList).head? ≠ some '-' := by
    cases es with
    | nil => simp
    | cons e es => simp
  intro es fs same
  cases es with
  | nil =>
    cases fs with
    | nil => rfl
    | cons f fs => exact absurd same (nonempty f fs)
  | cons e es =>
    cases fs with
    | nil => exact absurd same.symm (nonempty e es)
    | cons f fs =>
      obtain ⟨first, later⟩ := (row_unique g).parts (follows es) (follows fs) same
      rw [first, (laterRows_unique g).injective rfl later]

/-- Tables with the same listing over a grammar are the same: they have the same rows in the same
order, with the same actions and the same gotos in the same order, whether or not the grammar has
the rules by which they reduce. -/
theorem listing_determines_table {t u : Table String} (same : t.listing g = u.listing g) :
    t = u := by
  have rows : t.rows = u.rows := by
    apply OrderedMap.eq_of_entries_eq
    apply rowsText_injective g
    rw [← toList_listing, ← toList_listing, same]
  cases t
  cases u
  exact congrArg _ rows

end Rows

def forged : Table String :=
  .ofSettings [.accept 0 "a\" => accept\n- \"b", .reduce 0 "a\" => accept\n- \"b" 99]

theorem forged_determined :
    let t := Table.ofSettings [.reduce 0 "a\" => accept\n- \"b" 99]
    let u := Table.ofSettings [.accept 0 "a", .reduce 0 "b" 99]
    forged.listing Arithmetic.grammar = t.listing Arithmetic.grammar ∧ forged = t ∧
      forged.listing Arithmetic.grammar ≠ u.listing Arithmetic.grammar := by
  intro t u
  have same : forged.listing Arithmetic.grammar = t.listing Arithmetic.grammar := rfl
  refine ⟨same, listing_determines_table Arithmetic.grammar same, ?_⟩
  intro forged_u
  have symbols := congrArg (·.expected 0) (listing_determines_table Arithmetic.grammar forged_u)
  exact absurd symbols (by decide)

end ShiftReduce
