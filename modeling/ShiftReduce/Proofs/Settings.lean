import Mathlib.Data.List.Nodup
import ShiftReduce.Arithmetic.Grammar
import ShiftReduce.Proofs.Lookups
/-!
Tables set entry by entry. The last setting of an entry is the one that is found, while the first
setting under a state or a symbol gives it its place. So settings that come in another order, but
with the same last one for each entry, make tables that differ in the order of their entries only,
and of that order a run shows no more than the order of the symbols it expected.
-/
namespace ShiftReduce

theorem eraseDups_concat {α : Type} [DecidableEq α] (xs : List α) (x : α) :
    (xs ++ [x]).eraseDups = if x ∈ xs then xs.eraseDups else xs.eraseDups ++ [x] := by
  have alone : [x].eraseDups = [x] := by simp [List.eraseDups_cons]
  rw [List.eraseDups_append]
  by_cases member : x ∈ xs
  · simp [List.removeAll, member]
  · simp [List.removeAll, member, alone]

def adjoin {α : Type} [DecidableEq α] (xs : List α) : Option α → List α
  | none => xs
  | some x => if x ∈ xs then xs else xs ++ [x]

variable {S V E : Type}

namespace Setting

def state : Setting S → Nat
  | .action state _ _ => state
  | .goto state _ _ => state

def actionSymbol? (state : Nat) : Setting S → Option S
  | .action s symbol _ => if s = state then some symbol else none
  | .goto _ _ _ => none

variable [DecidableEq S]

def actionFor? (state : Nat) (symbol : S) : Setting S → Option Action
  | .action s a entry => if s = state ∧ a = symbol then some entry else none
  | .goto _ _ _ => none

def gotoFor? (state : Nat) (symbol : S) : Setting S → Option Nat
  | .action _ _ _ => none
  | .goto s a next => if s = state ∧ a = symbol then some next else none

end Setting

section Last

variable [DecidableEq S] (settings : List (Setting S)) (state : Nat) (symbol : S)

def lastAction? : Option Action :=
  (settings.filterMap (Setting.actionFor? state symbol)).getLast?

def lastGoto? : Option Nat := (settings.filterMap (Setting.gotoFor? state symbol)).getLast?

def actionSymbols : List S := (settings.filterMap (Setting.actionSymbol? state)).eraseDups

end Last

namespace Table

def row (t : Table S) (state : Nat) : Row S := (t.row? state).getD .empty

theorem row_updateRow (t : Table S) (state s : Nat) (change : Row S → Row S) :
    (t.updateRow state change).row s = if state = s then change (t.row s) else t.row s := by
  unfold row row? updateRow
  rw [OrderedMap.get?_insert]
  by_cases here : state = s
  · rw [if_pos here, if_pos here, here]
    rfl
  · rw [if_neg here, if_neg here]

theorem expected_eq (t : Table S) (state : Nat) :
    t.expected state = (t.row state).actions.keys := by
  unfold expected row
  cases t.row? state with
  | none => rfl
  | some row => rfl

variable [DecidableEq S]

theorem action?_eq (t : Table S) (state : Nat) (symbol : S) :
    t.action? state symbol = (t.row state).actions.get? symbol := by
  unfold action? row
  cases t.row? state with
  | none => rfl
  | some row => rfl

theorem goto?_eq (t : Table S) (state : Nat) (symbol : S) :
    t.goto? state symbol = (t.row state).gotos.get? symbol := by
  unfold goto? row
  cases t.row? state with
  | none => rfl
  | some row => rfl

section Step

variable (t : Table S) (state s : Nat) (symbol a : S)

theorem action?_setAction (entry : Action) :
    (t.setAction state symbol entry).action? s a =
      if state = s ∧ symbol = a then some entry else t.action? s a := by
  rw [action?_eq, action?_eq, setAction, row_updateRow]
  by_cases here : state = s
  · simp [here, OrderedMap.get?_insert]
  · simp [here]

theorem action?_setGoto (next : Nat) :
    (t.setGoto state symbol next).action? s a = t.action? s a := by
  rw [action?_eq, action?_eq, setGoto, row_updateRow]
  split <;> rfl

theorem goto?_setGoto (next : Nat) :
    (t.setGoto state symbol next).goto? s a =
      if state = s ∧ symbol = a then some next else t.goto? s a := by
  rw [goto?_eq, goto?_eq, setGoto, row_updateRow]
  by_cases here : state = s
  · simp [here, OrderedMap.get?_insert]
  · simp [here]

theorem goto?_setAction (entry : Action) :
    (t.setAction state symbol entry).goto? s a = t.goto? s a := by
  rw [goto?_eq, goto?_eq, setAction, row_updateRow]
  split <;> rfl

end Step

section Set

variable (t : Table S) (c : Setting S) (state : Nat) (symbol : S)

theorem action?_set :
    (t.set c).action? state symbol = (c.actionFor? state symbol).or (t.action? state symbol) := by
  cases c with
  | action s a entry =>
    rw [set, action?_setAction, Setting.actionFor?]
    split <;> rfl
  | goto s a next => exact action?_setGoto t s state a symbol next

theorem goto?_set :
    (t.set c).goto? state symbol = (c.gotoFor? state symbol).or (t.goto? state symbol) := by
  cases c with
  | action s a entry => exact goto?_setAction t s state a symbol entry
  | goto s a next =>
    rw [set, goto?_setGoto, Setting.gotoFor?]
    split <;> rfl

theorem expected_set :
    (t.set c).expected state = adjoin (t.expected state) (c.actionSymbol? state) := by
  cases c with
  | action s a entry =>
    rw [expected_eq, expected_eq, set, setAction, row_updateRow, Setting.actionSymbol?]
    by_cases here : s = state
    · simp only [here, if_true, adjoin, OrderedMap.keys_insert]
    · simp only [here, if_false, adjoin]
  | goto s a next =>
    rw [expected_eq, expected_eq, set, setGoto, row_updateRow]
    split <;> rfl

theorem keys_set : (t.set c).rows.keys = adjoin t.rows.keys (some c.state) := by
  cases c with
  | action s a entry => exact OrderedMap.keys_insert t.rows s _
  | goto s a next => exact OrderedMap.keys_insert t.rows s _

end Set

theorem expected_perm {t u : Table S}
    (action : ∀ state symbol, u.action? state symbol = t.action? state symbol) (state : Nat) :
    (u.expected state).Perm (t.expected state) := by
  rw [List.perm_ext_iff_of_nodup (expected_nodup u state) (expected_nodup t state)]
  intro symbol
  rw [← not_iff_not, ← action?_eq_none_iff, ← action?_eq_none_iff, action]

section Settings

variable (settings : List (Setting S)) (c : Setting S)

theorem ofSettings_concat : ofSettings (settings ++ [c]) = (ofSettings settings).set c :=
  List.foldl_concat set empty c settings

/-- What settings give is found as the last of them gave it. -/
theorem last_ofSettings {β : Type} (look : Table S → Option β) (given : Setting S → Option β)
    (nothing : look empty = none) (step : ∀ t c, look (set t c) = (given c).or (look t)) :
    look (ofSettings settings) = (settings.filterMap given).getLast? := by
  induction settings using List.reverseRecOn with
  | nil => exact nothing
  | append_singleton settings c ih =>
    rw [ofSettings_concat, step, ih, List.filterMap_append, List.getLast?_append]
    cases found : given c with
    | none => simp [found]
    | some x => simp [found]

theorem first_ofSettings {β : Type} [DecidableEq β] (places : Table S → List β)
    (placed : Setting S → Option β) (nothing : places empty = [])
    (step : ∀ t c, places (set t c) = adjoin (places t) (placed c)) :
    places (ofSettings settings) = (settings.filterMap placed).eraseDups := by
  induction settings using List.reverseRecOn with
  | nil => exact nothing
  | append_singleton settings c ih =>
    rw [ofSettings_concat, step, ih, List.filterMap_append]
    cases found : placed c with
    | none => simp [adjoin, found]
    | some x => simp [adjoin, found, eraseDups_concat]

theorem action?_ofSettings (state : Nat) (symbol : S) :
    (ofSettings settings).action? state symbol = lastAction? settings state symbol :=
  last_ofSettings settings (·.action? state symbol) (Setting.actionFor? state symbol) rfl
    fun t c => action?_set t c state symbol

theorem goto?_ofSettings (state : Nat) (symbol : S) :
    (ofSettings settings).goto? state symbol = lastGoto? settings state symbol :=
  last_ofSettings settings (·.goto? state symbol) (Setting.gotoFor? state symbol) rfl
    fun t c => goto?_set t c state symbol

theorem expected_ofSettings (state : Nat) :
    (ofSettings settings).expected state = actionSymbols settings state :=
  first_ofSettings settings (·.expected state) (Setting.actionSymbol? state) rfl
    fun t c => expected_set t c state

theorem keys_ofSettings :
    (ofSettings settings).rows.keys = (settings.map Setting.state).eraseDups := by
  have keys := first_ofSettings settings (·.rows.keys) (fun c => some c.state) rfl keys_set
  rw [List.filterMap_eq_map'] at keys
  exact keys

theorem size_ofSettings :
    (ofSettings settings).size = ((settings.map Setting.state).eraseDups).length := by
  rw [← keys_ofSettings]
  exact (List.length_map _).symm

end Settings

end Table

/-- The same outcome, but for the order of the symbols it names as expected. -/
inductive Outcome.SameButOrder : Outcome S V E → Outcome S V E → Prop where
  | same (o : Outcome S V E) : SameButOrder o o
  | unexpectedToken (token : Token S V) (state : Nat) {xs ys : List S} (symbols : xs.Perm ys) :
    SameButOrder (.error (.unexpectedToken token state xs))
      (.error (.unexpectedToken token state ys))
  | unexpectedEnd (state : Nat) {xs ys : List S} (symbols : xs.Perm ys) :
    SameButOrder (.error (.unexpectedEnd state xs)) (.error (.unexpectedEnd state ys))

structure Run.SameButOrder (r q : Run S V E) : Prop where
  outcome : r.outcome.SameButOrder q.outcome
  pulled : r.pulled = q.pulled
  reports : r.reports = q.reports
  log : r.log = q.log

theorem Run.SameButOrder.refl (r : Run S V E) : r.SameButOrder r := ⟨.same _, rfl, rfl, rfl⟩

namespace Parser

variable [DecidableEq S] {p : Parser S V} {u : Table S} (agree : p.table.Agrees p.grammar u)
include agree

theorem finish_reordered (limit : Nat) (r : Progress S V) :
    (({ p with table := u } : Parser S V).finish limit r : Run S V E).SameButOrder
      (p.finish limit r) := by
  simp only [finish, settle_agreeing agree]
  cases p.endOfInput with
  | none => exact ⟨.unexpectedEnd _ (Table.expected_perm agree.action _), rfl, rfl, rfl⟩
  | some symbol =>
    dsimp only
    cases p.settle symbol limit (r.note .endOfInput) with
    | mk decision r =>
      cases decision with
      | reject => exact ⟨.unexpectedEnd _ (Table.expected_perm agree.action _), rfl, rfl, rfl⟩
      | shift next => exact .refl _
      | accept => exact .refl _
      | breakdown cause => exact .refl _
      | undecided => exact .refl _

theorem runFrom_reordered (limit : Nat) (r : Progress S V) (items : List (Except E (Token S V))) :
    (({ p with table := u } : Parser S V).runFrom limit r items).SameButOrder
      (p.runFrom limit r items) := by
  induction items generalizing r with
  | nil => exact finish_reordered agree limit r
  | cons item items ih =>
    cases item with
    | error e => exact .refl _
    | ok token =>
      simp only [runFrom, settle_agreeing agree]
      cases p.settle token.symbol limit r.pull with
      | mk decision r =>
        cases decision with
        | shift next => exact ih _
        | reject => exact ⟨.unexpectedToken _ _ (Table.expected_perm agree.action _), rfl, rfl, rfl⟩
        | accept => exact .refl _
        | breakdown cause => exact .refl _
        | undecided => exact .refl _

end Parser

/-- The entries that are set last are the same, whatever the order of the settings. -/
structure SameLast [DecidableEq S] (settings others : List (Setting S)) : Prop where
  action : ∀ state symbol, lastAction? others state symbol = lastAction? settings state symbol
  goto : ∀ state symbol, lastGoto? others state symbol = lastGoto? settings state symbol

theorem size_eq_of_perm [DecidableEq S] {settings others : List (Setting S)}
    (reordered : others.Perm settings) :
    (Table.ofSettings others).size = (Table.ofSettings settings).size := by
  have states : (Table.ofSettings others).rows.keys.Perm (Table.ofSettings settings).rows.keys := by
    apply (List.perm_ext_iff_of_nodup (OrderedMap.distinct _) (OrderedMap.distinct _)).2
    intro state
    change state ∈ (Table.ofSettings others).rows.keys ↔
      state ∈ (Table.ofSettings settings).rows.keys
    rw [Table.keys_ofSettings, Table.keys_ofSettings, List.mem_eraseDups, List.mem_eraseDups]
    exact (reordered.map _).mem_iff
  rw [Table.size_ofSettings, Table.size_ofSettings, ← Table.keys_ofSettings,
    ← Table.keys_ofSettings]
  exact states.length_eq

/-- Last settings are what is found, first settings are what comes first, and runs show no more than
what is found and the order of the symbols expected. -/
theorem table_of_settings [DecidableEq S] (settings : List (Setting S)) :
    let t := Table.ofSettings settings
    (∀ state symbol, t.action? state symbol = lastAction? settings state symbol) ∧
    (∀ state symbol, t.goto? state symbol = lastGoto? settings state symbol) ∧
    (∀ state symbol next s a, (t.setGoto state symbol next).action? s a = t.action? s a) ∧
    (∀ state symbol entry s a, (t.setAction state symbol entry).goto? s a = t.goto? s a) ∧
    (∀ state symbol entry, t.exchangeAction state symbol entry =
      (t.action? state symbol, Table.ofSettings (settings ++ [.action state symbol entry]))) ∧
    (∀ state, t.expected state = actionSymbols settings state) ∧
    t.rows.keys = (settings.map Setting.state).eraseDups ∧
    t.size = (settings.map Setting.state).eraseDups.length ∧
    ∀ others : List (Setting S), others.Perm settings → SameLast settings others →
      let u := Table.ofSettings others
      (∀ state symbol, u.action? state symbol = t.action? state symbol) ∧
      (∀ state symbol, u.goto? state symbol = t.goto? state symbol) ∧
      u.size = t.size ∧
      (∀ state, (u.expected state).Perm (t.expected state)) ∧
      ∀ {V E : Type} (grammar : Grammar S V) (endOfInput : Option S) (limit : Nat)
        (items : List (Except E (Token S V))),
        (Parser.run ⟨grammar, u, endOfInput⟩ limit items).SameButOrder
          (Parser.run ⟨grammar, t, endOfInput⟩ limit items) := by
  intro t
  refine ⟨Table.action?_ofSettings settings, Table.goto?_ofSettings settings, ?_, ?_, ?_,
    Table.expected_ofSettings settings, Table.keys_ofSettings settings,
    Table.size_ofSettings settings, ?_⟩
  · intro state symbol next s a
    exact Table.action?_setGoto t state s symbol a next
  · intro state symbol entry s a
    exact Table.goto?_setAction t state s symbol a entry
  · intro state symbol entry
    rw [Table.exchangeAction_eq, Table.ofSettings_concat]
    rfl
  · intro others reordered last u
    have action (state : Nat) (symbol : S) : u.action? state symbol = t.action? state symbol := by
      rw [Table.action?_ofSettings, Table.action?_ofSettings, last.action]
    have goto (state : Nat) (symbol : S) : u.goto? state symbol = t.goto? state symbol := by
      rw [Table.goto?_ofSettings, Table.goto?_ofSettings, last.goto]
    have agree {V : Type} (grammar : Grammar S V) : t.Agrees grammar u :=
      ⟨action, fun state rule _ => goto state rule.name⟩
    refine ⟨action, goto, size_eq_of_perm reordered, ?_, ?_⟩
    · intro state
      exact Table.expected_perm action state
    · intro V E grammar endOfInput limit items
      exact Parser.runFrom_reordered (p := ⟨grammar, t, endOfInput⟩) (agree grammar) limit
        .initial items

def twiceShifted : List (Setting String) :=
  [.shift 0 "a" 1, .shift 0 "b" 1, .shift 0 "a" 2, .goto 0 "S" 3]

def otherwiseShifted : List (Setting String) :=
  [.shift 0 "b" 1, .goto 0 "S" 3, .shift 0 "a" 1, .shift 0 "a" 2]

theorem same_last_shifted : SameLast twiceShifted otherwiseShifted := by
  constructor
  · intro state symbol
    by_cases a : 0 = state ∧ "a" = symbol
    · obtain ⟨rfl, rfl⟩ := a
      rfl
    · simp [lastAction?, twiceShifted, otherwiseShifted, Setting.shift, List.filterMap_cons,
        Setting.actionFor?, a]
  · intro state symbol
    rfl

theorem shifted_reordered :
    let t := Table.ofSettings twiceShifted
    let u := Table.ofSettings otherwiseShifted
    let run (table : Table String) (items : List (Except String (Token String Int))) :=
      Parser.run ⟨Arithmetic.grammar, table, some "$eof"⟩ 9 items
    t.expected 0 = ["a", "b"] ∧ u.expected 0 = ["b", "a"] ∧ t ≠ u ∧
      (∀ symbol, u.action? 0 symbol = t.action? 0 symbol) ∧
      (run u [.ok ⟨"a", 0, none⟩]).SameButOrder (run t [.ok ⟨"a", 0, none⟩]) := by
  intro t u run
  have reordered : otherwiseShifted.Perm twiceShifted := by decide
  obtain ⟨_, _, _, _, _, _, _, _, permuted⟩ := table_of_settings twiceShifted
  obtain ⟨action, _, _, _, runs⟩ := permuted otherwiseShifted reordered same_last_shifted
  have order : t.expected 0 = ["a", "b"] ∧ u.expected 0 = ["b", "a"] := by decide
  refine ⟨order.1, order.2, ?_, action 0, runs Arithmetic.grammar (some "$eof") 9 _⟩
  intro same
  have both : ["a", "b"] = ["b", "a"] := order.1.symm.trans (same ▸ order.2)
  exact absurd both (by decide)

end ShiftReduce
