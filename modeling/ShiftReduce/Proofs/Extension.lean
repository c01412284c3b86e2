import ShiftReduce.Proofs.Coherence
/-!
Extensions of a parser. They have all its rules, under the same numbers, and all its actions and
gotos, each in any order of rows and entries, and maybe more. A run that ends with a value or with
an error of the lexer finds every entry that it looks up, so an extension makes the same run,
whatever else it has.
-/
namespace ShiftReduce

variable {S V E : Type}

theorem Grammar.rule?_of_prefix {g g' : Grammar S V} (first : g.rules <+: g'.rules) {id : Nat}
    {rule : Rule S V} (found : g.rule? id = some rule) : g'.rule? id = some rule := by
  cases id with
  | zero => simp [rule?_zero] at found
  | succ n =>
    obtain ⟨later, all⟩ := first
    have bound : n < g.rules.length := (List.getElem?_eq_some_iff.1 found).1
    rw [rule?_succ, ← all, List.getElem?_append_left bound]
    exact found

def Decision.Proceeds : Decision S V → Prop
  | .shift _ => True
  | .accept => True
  | _ => False

def Outcome.Served : Outcome S V E → Prop
  | .value _ => True
  | .error (.lexer _) => True
  | _ => False

namespace Parser

variable [DecidableEq S]

/-- All that `p` has is in `q`. -/
structure Extends (q p : Parser S V) : Prop where
  rules : p.grammar.rules <+: q.grammar.rules
  action : ∀ state symbol action,
    p.table.action? state symbol = some action → q.table.action? state symbol = some action
  goto : ∀ state symbol next,
    p.table.goto? state symbol = some next → q.table.goto? state symbol = some next
  endOfInput : q.endOfInput = p.endOfInput

variable {p q : Parser S V} {limit more : Nat} {r after : Progress S V}

theorem Extends.of_entries (rules : p.grammar.rules <+: q.grammar.rules)
    (action : ∀ e ∈ p.table.actionEntries, q.table.action? e.1 e.2.1 = some e.2.2)
    (goto : ∀ e ∈ p.table.gotoEdges, q.table.goto? e.source e.symbol = some e.target)
    (endOfInput : q.endOfInput = p.endOfInput) : q.Extends p where
  rules := rules
  action _ _ _ found := action _ (Table.mem_actionEntries found)
  goto _ _ _ found := goto _ (Table.mem_gotoEdges found)
  endOfInput := endOfInput

namespace Extends

theorem reduce (extension : q.Extends p) {state id : Nat}
    (done : p.reduce state id r = (.ok (), after)) : q.reduce state id r = (.ok (), after) := by
  simp only [Parser.reduce] at done ⊢
  cases found : p.grammar.rule? id with
  | none => simp [found] at done
  | some rule =>
    have found' := Grammar.rule?_of_prefix extension.rules found
    simp only [found, found'] at done ⊢
    cases reduced : r.stack.reduce rule with
    | mk result stack =>
      simp only [reduced] at done ⊢
      cases result with
      | error cause => simp at done
      | ok value =>
        cases entry : p.table.goto? stack.current rule.name with
        | none => simp [entry] at done
        | some next =>
          have entry' := extension.goto _ _ _ entry
          simpa only [entry, entry'] using done

theorem settle (extension : q.Extends p) (enough : limit ≤ more) {lookahead : S}
    {decision : Decision S V} (result : p.settle lookahead limit r = (decision, after))
    (proceeds : decision.Proceeds) : q.settle lookahead more r = (decision, after) := by
  induction limit generalizing r more with
  | zero =>
    obtain ⟨rfl, _⟩ := Prod.mk.inj result
    exact proceeds.elim
  | succ limit ih =>
    obtain ⟨more, rfl⟩ : ∃ n, more = n + 1 := ⟨more - 1, by omega⟩
    simp only [Parser.settle] at result ⊢
    cases entry : p.table.action? r.state lookahead with
    | none =>
      simp only [entry, Prod.mk.injEq] at result
      obtain ⟨rfl, _⟩ := result
      exact proceeds.elim
    | some action =>
      have entry' := extension.action _ _ _ entry
      simp only [entry, entry'] at result ⊢
      cases action with
      | shift next => exact result
      | accept => exact result
      | reduce id =>
        cases reduced : p.reduce r.state id r with
        | mk done here =>
          simp only [reduced] at result
          cases done with
          | error cause =>
            simp only [Prod.mk.injEq] at result
            obtain ⟨rfl, _⟩ := result
            exact proceeds.elim
          | ok done =>
            simp only [extension.reduce reduced]
            exact ih (by omega) result

theorem finish (extension : q.Extends p) (enough : limit ≤ more)
    (served : (p.finish limit r : Run S V E).outcome.Served) :
    (q.finish more r : Run S V E) = p.finish limit r := by
  simp only [Parser.finish, extension.endOfInput] at served ⊢
  cases ending : p.endOfInput with
  | none =>
    simp only [ending] at served
    exact served.elim
  | some symbol =>
    simp only [ending] at served ⊢
    cases result : p.settle symbol limit (r.note .endOfInput) with
    | mk decision here =>
      simp only [result] at served
      cases decision with
      | accept => simp only [extension.settle enough result trivial]
      | shift next => exact served.elim
      | reject => exact served.elim
      | breakdown cause => cases cause <;> exact served.elim
      | undecided => exact served.elim

theorem runFrom (extension : q.Extends p) (enough : limit ≤ more)
    {items : List (Except E (Token S V))} (served : (p.runFrom limit r items).outcome.Served) :
    q.runFrom more r items = p.runFrom limit r items := by
  induction items generalizing r with
  | nil => exact extension.finish enough served
  | cons item items ih =>
    cases item with
    | error e => simp only [Parser.runFrom]
    | ok token =>
      simp only [Parser.runFrom] at served ⊢
      cases result : p.settle token.symbol limit r.pull with
      | mk decision here =>
        simp only [result] at served
        cases decision with
        | shift next =>
          simp only [extension.settle enough result trivial]
          exact ih served
        | accept => simp only [extension.settle enough result trivial]
        | reject => exact served.elim
        | breakdown cause => cases cause <;> exact served.elim
        | undecided => exact served.elim

end Extends

/-- An extension is conservative: where a run ends with a value or with an error of the lexer, the
extended parser makes the same run, with the same outcome, the same reports and log, and as many
items taken. -/
theorem extension_conservative (extension : q.Extends p) (enough : limit ≤ more)
    (items : List (Except E (Token S V)))
    (served : (∃ v, (p.run limit items).outcome = .value v) ∨
      ∃ e, (p.run limit items).outcome = .error (.lexer e)) :
    q.run more items = p.run limit items := by
  apply extension.runFrom enough
  rcases served with ⟨v, outcome⟩ | ⟨e, outcome⟩
  · exact outcome ▸ trivial
  · exact outcome ▸ trivial

def single : Parser String Nat where
  grammar :=
    { rules := [⟨⟨"S", ["a"]⟩, 1, none⟩]
      start := "S"
      numbered := rfl
      distinct := by simp
      start_mem := by simp }
  table := .ofSettings [.shift 0 "a" 1, .goto 0 "S" 2, .reduce 1 "$" 1, .accept 2 "$"]

/-- A single `a` or a single `b`; the rows and entries stand in another order. -/
def either : Parser String Nat where
  grammar :=
    { rules := [⟨⟨"S", ["a"]⟩, 1, none⟩, ⟨⟨"T", ["b"]⟩, 2, none⟩]
      start := "T"
      numbered := rfl
      distinct := by simp
      start_mem := by simp }
  table := .ofSettings [.accept 2 "$", .reduce 3 "$" 2, .goto 0 "T" 2, .shift 0 "b" 3,
    .reduce 1 "$" 1, .goto 0 "S" 2, .shift 0 "a" 1]

theorem single_a_conserved :
    let a : Except Unit (Token String Nat) := .ok ⟨"a", 7, none⟩
    either.Extends single ∧
      either.run 5 [a, .ok ⟨"$", 0, none⟩] = single.run 2 [a, .ok ⟨"$", 0, none⟩] ∧
      (either.run 5 [a, .ok ⟨"$", 0, none⟩]).outcome = .value 7 ∧
      either.run 5 [a, .error ()] = single.run 2 [a, .error ()] := by
  intro a
  have extension : either.Extends single :=
    .of_entries ⟨[⟨⟨"T", ["b"]⟩, 2, none⟩], rfl⟩ (by decide) (by decide) rfl
  exact ⟨extension, extension_conservative extension (by decide) _ (.inl ⟨7, rfl⟩), rfl,
    extension_conservative extension (by decide) _ (.inr ⟨(), rfl⟩)⟩

end Parser

end ShiftReduce
