import ShiftReduce.Grammar.Callback
/-!
Context-free grammars with numbered rules. Rule numbers count from one in the order of
definition, no two rules have the same left-hand side and components, and the start symbol is
the left-hand side of some rule.
-/
namespace ShiftReduce

/-- Numbers of rules and of states have 32 bits. -/
def idLimit : Nat := 0x100000000

structure Production (S : Type) where
  name : S
  components : List S
  deriving DecidableEq, Repr

structure Rule (S V : Type) extends Production S where
  id : Nat
  callback : Option (Callback V)

namespace Rule

variable {S V : Type}

def arity (r : Rule S V) : Nat := r.components.length

/-- A reduction by this rule has a value: either the callback gives it, or the only component
passes its own on. -/
def Evaluable (r : Rule S V) : Prop := r.callback.isSome ∨ r.arity = 1

instance (r : Rule S V) : Decidable r.Evaluable :=
  inferInstanceAs (Decidable (r.callback.isSome ∨ r.arity = 1))

end Rule

structure Grammar (S V : Type) where
  rules : List (Rule S V)
  start : S
  numbered : rules.map Rule.id = List.range' 1 rules.length
  distinct : (rules.map Rule.toProduction).Nodup
  start_mem : start ∈ rules.map (·.name)

namespace Grammar

variable {S V : Type}

def rule? (g : Grammar S V) (id : Nat) : Option (Rule S V) :=
  if id = 0 then none else g.rules[id - 1]?

def nonterminals [DecidableEq S] (g : Grammar S V) : List S :=
  (g.rules.map (·.name)).eraseDups

theorem rule?_zero (g : Grammar S V) : g.rule? 0 = none := rfl

theorem rule?_succ (g : Grammar S V) (n : Nat) : g.rule? (n + 1) = g.rules[n]? := rfl

theorem id_of_rule? {g : Grammar S V} {id : Nat} {r : Rule S V} (h : g.rule? id = some r) :
    r.id = id := by
  cases id with
  | zero => simp [rule?_zero] at h
  | succ n =>
    rw [rule?_succ] at h
    have named : (g.rules.map Rule.id)[n]? = some r.id := by simp [h]
    have bound : n < g.rules.length := (List.getElem?_eq_some_iff.1 h).1
    rw [g.numbered, List.getElem?_range' bound] at named
    simp only [Option.some.injEq] at named
    omega

end Grammar

variable {S V : Type} [Inspect S]

def ruleNumber (id : Nat) : String := "#" ++ inspect id

def Production.text (p : Production S) : String :=
  inspect p.name ++ " :=" ++
    if p.components.isEmpty then " @empty"
    else String.join (p.components.map fun s => " " ++ inspect s)

def Rule.text (r : Rule S V) : String := r.toProduction.text

def Grammar.text (g : Grammar S V) : String :=
  "## start: " ++ inspect g.start ++ "\n## rules:\n" ++
    String.join (g.rules.map fun r =>
      ruleNumber r.id ++ " " ++ r.text ++ (if r.callback.isSome then " (callback)" else "") ++ "\n")

instance : Inspect (Callback V) := ⟨fun _ => "Callback(..)"⟩

def inspectRuleId (id : Nat) : String := Text.record "RuleID" [("raw", inspect id)]

instance : Inspect (Rule S V) where
  inspect r := Text.record "Rule"
    [("id", inspectRuleId r.id), ("name", inspect r.name), ("components", inspect r.components),
      ("callback", inspect r.callback)]

instance : Inspect (Grammar S V) where
  inspect g := Text.record "Grammar"
    [("rules", inspect g.rules), ("start_symbol", inspect g.start)]

end ShiftReduce
