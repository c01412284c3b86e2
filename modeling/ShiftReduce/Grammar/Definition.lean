import ShiftReduce.Grammar.Basic
/-!
Grammars under construction. Clauses are added one at a time; a clause that repeats a production,
or for which there is no number left, is refused and leaves the definition as it was. A finished
definition is a grammar when its start symbol, the last one asked for or else the first left-hand
side, is the left-hand side of a rule.
-/
namespace ShiftReduce

inductive DefinitionError where
  | empty
  | duplicateRule (existing : Nat)
  | unproductiveStart
  | tooManyRules
  deriving DecidableEq, Repr

def DefinitionError.message : DefinitionError → String
  | .empty => "empty grammar"
  | .duplicateRule existing =>
    "duplicate production rule detected (same as rule " ++ ruleNumber existing ++ ")"
  | .unproductiveStart => "the start symbol has no associated production rule"
  | .tooManyRules => "too many production rules"

inductive Clause (S V : Type) where
  | rule (production : Production S) (callback : Option (Callback V))
  | start (symbol : S)

def Grammar.clauses {S V : Type} (g : Grammar S V) : List (Clause S V) :=
  g.rules.map (fun r => .rule r.toProduction r.callback) ++ [.start g.start]

structure Definition (S V : Type) where
  rules : List (Rule S V)
  start : Option S
  numbered : rules.map Rule.id = List.range' 1 rules.length
  distinct : (rules.map Rule.toProduction).Nodup
  few : rules.length < idLimit

namespace Definition

variable {S V : Type}

def empty : Definition S V := ⟨[], none, rfl, .nil, Nat.zero_lt_succ _⟩

def setStart (d : Definition S V) (symbol : S) : Definition S V :=
  { d with start := some symbol }

variable [DecidableEq S]

def existing? (d : Definition S V) (p : Production S) : Option (Rule S V) :=
  d.rules.find? fun r => r.toProduction = p

theorem not_mem_of_existing?_eq_none {d : Definition S V} {p : Production S}
    (h : d.existing? p = none) : p ∉ d.rules.map Rule.toProduction := by
  simp only [existing?, List.find?_eq_none, decide_eq_true_eq] at h
  rw [List.mem_map]
  rintro ⟨r, member, same⟩
  exact h r member same

def addRule (d : Definition S V) (p : Production S) (callback : Option (Callback V)) :
    Except DefinitionError Nat × Definition S V :=
  match h : d.existing? p with
  | some r => (.error (.duplicateRule r.id), d)
  | none =>
    let id := d.rules.length + 1
    if room : id < idLimit then
      (.ok id,
        { rules := d.rules ++ [⟨p, id, callback⟩]
          start := d.start
          numbered := by
            simp only [List.map_append, d.numbered, List.map_cons, List.map_nil,
              List.length_append, List.length_singleton, List.range'_concat, Nat.one_mul]
            rw [Nat.add_comm 1]
          distinct := by
            rw [List.map_append, List.nodup_append]
            refine ⟨d.distinct, by simp, ?_⟩
            rintro a member b last rfl
            simp only [List.map_cons, List.map_nil, List.mem_singleton] at last
            exact not_mem_of_existing?_eq_none h (last ▸ member)
          few := by rwa [List.length_append, List.length_singleton] })
    else (.error .tooManyRules, d)

def add (d : Definition S V) :
    Clause S V → Except DefinitionError (Option Nat) × Definition S V
  | .rule p callback =>
    let (outcome, d) := d.addRule p callback
    (outcome.map some, d)
  | .start symbol => (.ok none, d.setStart symbol)

def addAll (d : Definition S V) :
    List (Clause S V) → List (Except DefinitionError (Option Nat)) × Definition S V
  | [] => ([], d)
  | c :: cs =>
    let (outcome, d) := d.add c
    let (outcomes, d) := d.addAll cs
    (outcome :: outcomes, d)

def addUntilRefused (d : Definition S V) :
    List (Clause S V) → List (Option Nat) × Except DefinitionError (Definition S V)
  | [] => ([], .ok d)
  | c :: cs =>
    match d.add c with
    | (.error e, _) => ([], .error e)
    | (.ok id, d) =>
      let (ids, result) := d.addUntilRefused cs
      (id :: ids, result)

def finish (d : Definition S V) : Except DefinitionError (Grammar S V) :=
  match d.start.or (d.rules.head?.map (·.name)) with
  | none => .error .empty
  | some start =>
    if h : start ∈ d.rules.map (·.name) then
      .ok { d with start, start_mem := h }
    else .error .unproductiveStart

end Definition

def Grammar.define {S V : Type} [DecidableEq S] (clauses : List (Clause S V)) :
    Except DefinitionError (Grammar S V) :=
  (Definition.empty.addUntilRefused clauses).2.bind Definition.finish

end ShiftReduce
