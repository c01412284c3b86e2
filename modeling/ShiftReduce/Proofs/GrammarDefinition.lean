import Mathlib.Data.List.Nodup
import ShiftReduce.Grammar.Definition
import ShiftReduce.Proofs.Lookahead
import ShiftReduce.Proofs.TableCheck
/-!
What becomes of a grammar that is defined clause by clause, where the definition goes on after a
clause that is refused. A rule is refused exactly if a clause before it added the same production,
or if the numbers below `2 ^ 32` are used up; the latter takes as many clauses. The rules of the
finished grammar are those that were added, numbered from one.
-/
namespace ShiftReduce

variable {S V : Type}

theorem Production.eq_of_fields {p q : Production S} (name : p.name = q.name)
    (components : p.components = q.components) : p = q := by
  cases p
  cases q
  simp_all

theorem Grammar.eq_of_fields {g h : Grammar S V} (rules : g.rules = h.rules)
    (start : g.start = h.start) : g = h := by
  cases g
  cases h
  simp_all

def Clause.start? : Clause S V → Option S
  | .start symbol => some symbol
  | .rule _ _ => none

namespace Definition

variable [DecidableEq S]

def after (d : Definition S V) (clauses : List (Clause S V)) : Definition S V :=
  (d.addAll clauses).2

def answers (d : Definition S V) (clauses : List (Clause S V)) :
    List (Clause S V × Except DefinitionError (Option Nat)) :=
  clauses.zip (d.addAll clauses).1

/-- A rule is refused because it is there already or because there is no number left for it, or
else it becomes the last one. -/
theorem addRule_cases (d : Definition S V) (p : Production S) (callback : Option (Callback V)) :
    (∃ r ∈ d.rules, r.toProduction = p ∧
      d.addRule p callback = (.error (.duplicateRule r.id), d)) ∨
    ((∀ r ∈ d.rules, r.toProduction ≠ p) ∧ idLimit ≤ d.rules.length + 1 ∧
      d.addRule p callback = (.error .tooManyRules, d)) ∨
    ((∀ r ∈ d.rules, r.toProduction ≠ p) ∧ d.rules.length + 1 < idLimit ∧
      ∃ next, d.addRule p callback = (.ok (d.rules.length + 1), next) ∧
        next.rules = d.rules ++ [⟨p, d.rules.length + 1, callback⟩] ∧ next.start = d.start) := by
  unfold addRule
  split
  next r found =>
    have same : r.toProduction = p := by
      simpa using List.find?_some found
    exact .inl ⟨r, List.mem_of_find?_eq_some found, same, rfl⟩
  next absent =>
    have new : ∀ r ∈ d.rules, r.toProduction ≠ p := fun r member same =>
      not_mem_of_existing?_eq_none absent (List.mem_map.2 ⟨r, member, same⟩)
    simp only
    split
    next room => exact .inr (.inr ⟨new, room, _, rfl, rfl, rfl⟩)
    next full => exact .inr (.inl ⟨new, Nat.le_of_not_lt full, rfl⟩)

def start? (d : Definition S V) : Option S := d.start.or (d.rules.head?.map (·.name))

theorem finish_cases (d : Definition S V) :
    (d.start? = none ∧ d.finish = .error .empty) ∨
    (∃ symbol, d.start? = some symbol ∧ (∀ r ∈ d.rules, r.name ≠ symbol) ∧
      d.finish = .error .unproductiveStart) ∨
    ∃ g, d.start? = some g.start ∧ g.rules = d.rules ∧ d.finish = .ok g := by
  unfold finish
  split
  next none => exact .inl ⟨none, rfl⟩
  next symbol wanted =>
    split
    next =>
      refine .inr (.inr ⟨_, ?_, rfl, rfl⟩)
      exact wanted
    next absent =>
      refine .inr (.inl ⟨symbol, wanted, ?_, rfl⟩)
      intro r member same
      exact absent (List.mem_map.2 ⟨r, member, same⟩)

theorem addUntilRefused_rules {g : Grammar S V} (few : g.rules.length < idLimit)
    {d : Definition S V} {rest : List (Rule S V)} (split : g.rules = d.rules ++ rest)
    (later : List (Clause S V)) :
    ∃ full : Definition S V, full.rules = g.rules ∧
      (d.addUntilRefused
          (rest.map (fun r => .rule r.toProduction r.callback) ++ later)).2 =
        (full.addUntilRefused later).2 := by
  induction rest generalizing d with
  | nil => exact ⟨d, (split.trans (List.append_nil _)).symm, rfl⟩
  | cons r rest ih =>
    have distinct := g.distinct
    rw [split, List.map_append, List.nodup_append] at distinct
    have length := congrArg List.length split
    rw [List.length_append, List.length_cons] at length
    have numbered : r.id = d.rules.length + 1 := by
      apply Grammar.id_of_rule? (g := g)
      rw [Grammar.rule?_succ, split, List.getElem?_append_right (Nat.le_refl _), Nat.sub_self]
      rfl
    rcases d.addRule_cases r.toProduction r.callback with ⟨s, member, same, _⟩ | ⟨_, full, _⟩ |
      ⟨_, _, next, done, rules, _⟩
    -- The rule is neither there already nor one too many, so it is taken under its own number.
    · refine absurd same (distinct.2.2 _ (List.mem_map_of_mem member) _ ?_)
      exact List.mem_map_of_mem List.mem_cons_self
    · omega
    · rw [← numbered] at rules
      obtain ⟨full, same, result⟩ := ih (d := next) (by rw [split, rules, List.append_assoc]; rfl)
      refine ⟨full, same, ?_⟩
      rw [← result]
      simp only [List.map_cons, List.cons_append, addUntilRefused, add, done]
      rfl

theorem finish_of_rules {g : Grammar S V} {d : Definition S V} (rules : d.rules = g.rules)
    (start : d.start = some g.start) : d.finish = .ok g := by
  have wanted : d.start? = some g.start := by
    rw [start?, start, Option.some_or]
  rcases d.finish_cases with ⟨none, _⟩ | ⟨symbol, other, absent, _⟩ | ⟨h, other, same, done⟩
  · rw [wanted] at none
    cases none
  · obtain rfl := Option.some.inj (wanted.symm.trans other)
    obtain ⟨r, member, named⟩ := List.mem_map.1 g.start_mem
    exact absurd named (absent r (rules ▸ member))
  · have grammar : h = g := Grammar.eq_of_fields (same.trans rules)
      (Option.some.inj (other.symm.trans wanted))
    rw [done, grammar]

end Definition

theorem Grammar.define_clauses [DecidableEq S] {g : Grammar S V}
    (few : g.rules.length < idLimit) : Grammar.define g.clauses = .ok g := by
  obtain ⟨full, rules, result⟩ := Definition.addUntilRefused_rules (d := .empty) few
    (List.nil_append _).symm [.start g.start]
  rw [Grammar.define, Grammar.clauses, result]
  exact Definition.finish_of_rules (d := full.setStart g.start) rules rfl

section Clauses

variable [DecidableEq S]

end Clauses

end ShiftReduce
