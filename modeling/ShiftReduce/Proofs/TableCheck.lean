import ShiftReduce.Proofs.Lookups
/-!
The check of a table against its grammar. It succeeds if every goto is keyed by a left-hand side and
every reduction has a rule with a value, and otherwise names the first entry that is at fault. What
it looks for is what stops a run: the parser of a sound table meets no unknown rule and no missing
callback, and a run that looks up a faulty reduction has no value. The gotos at fault, on the other
hand, are never looked up.
-/
namespace ShiftReduce

variable {S V E : Type}

def Grammar.Defines (g : Grammar S V) (symbol : S) : Prop := ∃ rule ∈ g.rules, rule.name = symbol

/-- If the action is a reduction, then by a rule that has a callback or one component. -/
def Grammar.Supports (g : Grammar S V) (action : Action) : Prop :=
  ∀ id, action = .reduce id →
    ∃ rule, g.rule? id = some rule ∧ (rule.callback.isSome ∨ rule.components.length = 1)

structure Row.Sound (g : Grammar S V) (row : Row S) : Prop where
  gotos : ∀ symbol ∈ row.gotos.keys, g.Defines symbol
  actions : ∀ action ∈ row.actions.values, g.Supports action

inductive Action.Fault (g : Grammar S V) (state : Nat) : Action → TableError S → Prop where
  | unknown {id : Nat} (absent : g.rule? id = none) :
      Fault g state (.reduce id) (.unknownRule state id)
  | valueless {id : Nat} {rule : Rule S V} (found : g.rule? id = some rule)
      (plain : rule.callback = none) (several : rule.components.length ≠ 1) :
      Fault g state (.reduce id) (.missingCallback id rule.components.length)

inductive Row.Fault (g : Grammar S V) (state : Nat) (row : Row S) : TableError S → Prop where
  | goto {before after : List S} {symbol : S} (split : row.gotos.keys = before ++ symbol :: after)
      (sound : ∀ s ∈ before, g.Defines s) (undefined : ¬ g.Defines symbol) :
      Fault g state row (.unknownNonterminal state symbol)
  | action {before after : List Action} {action : Action} {error : TableError S}
      (gotos : ∀ symbol ∈ row.gotos.keys, g.Defines symbol)
      (split : row.actions.values = before ++ action :: after)
      (sound : ∀ a ∈ before, g.Supports a) (fault : action.Fault g state error) :
      Fault g state row error

variable {g : Grammar S V}

theorem Rule.evaluable_or_plain (rule : Rule S V) :
    rule.Evaluable ∨ rule.callback = none ∧ rule.components.length ≠ 1 := by
  unfold Evaluable arity
  cases rule.callback with
  | some callback => exact .inl (.inl rfl)
  | none =>
    by_cases unit : rule.components.length = 1
    · exact .inl (.inr unit)
    · exact .inr ⟨rfl, unit⟩

namespace Table

theorem actionDefect?_eq_some_iff {state : Nat} {action : Action} {error : TableError S} :
    actionDefect? g state action = some error ↔ action.Fault g state error := by
  constructor
  · intro defect
    unfold actionDefect? at defect
    split at defect
    next id =>
      split at defect
      next absent =>
        cases defect
        exact .unknown absent
      next rule found =>
        split at defect
        · cases defect
        next stuck =>
          cases defect
          obtain ⟨plain, several⟩ := rule.evaluable_or_plain.resolve_left stuck
          exact .valueless found plain several
    · cases defect
  · intro fault
    cases fault with
    | unknown absent => simp only [actionDefect?, absent]
    | @valueless id rule found plain several =>
      have stuck : ¬ rule.Evaluable := by
        rintro (called | unit)
        · rw [plain] at called
          cases called
        · exact several unit
      simp only [actionDefect?, found, if_neg stuck]
      rfl

theorem actionDefect?_eq_none_iff {state : Nat} {action : Action} :
    actionDefect? g state action = none ↔ g.Supports action := by
  constructor
  · rintro none id rfl
    simp only [actionDefect?] at none
    split at none
    · cases none
    next rule found =>
      split at none
      next evaluable => exact ⟨rule, found, evaluable⟩
      · cases none
  · intro supported
    cases action with
    | reduce id =>
      obtain ⟨rule, found, evaluable⟩ := supported id rfl
      simp only [actionDefect?, found]
      exact if_pos evaluable
    | shift next => rfl
    | accept => rfl

variable [DecidableEq S]

theorem mem_nonterminals_iff {symbol : S} : symbol ∈ g.nonterminals ↔ g.Defines symbol := by
  rw [Grammar.nonterminals, List.mem_eraseDups, List.mem_map]
  rfl

theorem stray?_eq_none_iff {row : Row S} :
    row.gotos.keys.find? (fun s => s ∉ g.nonterminals) = none ↔
      ∀ symbol ∈ row.gotos.keys, g.Defines symbol := by
  simp [List.find?_eq_none, mem_nonterminals_iff]

theorem rowDefect?_eq_none_iff {state : Nat} {row : Row S} :
    rowDefect? g state row = none ↔ row.Sound g := by
  have actions : row.actions.values.findSome? (actionDefect? g state) = none ↔
      ∀ action ∈ row.actions.values, g.Supports action := by
    simp [List.findSome?_eq_none_iff, actionDefect?_eq_none_iff]
  unfold rowDefect?
  constructor
  · intro none
    split at none
    · cases none
    next clean => exact ⟨stray?_eq_none_iff.1 clean, actions.1 none⟩
  · intro sound
    rw [stray?_eq_none_iff.2 sound.gotos]
    exact actions.2 sound.actions

theorem rowDefect?_eq_some_iff {state : Nat} {row : Row S} {error : TableError S} :
    rowDefect? g state row = some error ↔ row.Fault g state error := by
  unfold rowDefect?
  constructor
  · intro defect
    split at defect
    next symbol found =>
      cases defect
      obtain ⟨undefined, before, after, split, sound⟩ := List.find?_eq_some_iff_append.1 found
      simp only [mem_nonterminals_iff, decide_eq_true_eq] at undefined
      refine .goto split ?_ undefined
      intro s member
      simpa [mem_nonterminals_iff] using sound s member
    next clean =>
      obtain ⟨before, action, after, split, found, sound⟩ :=
        List.findSome?_eq_some_iff.1 defect
      refine .action (stray?_eq_none_iff.1 clean) split ?_ (actionDefect?_eq_some_iff.1 found)
      intro a member
      exact actionDefect?_eq_none_iff.1 (sound a member)
  · intro fault
    cases fault with
    | @goto before after symbol split sound undefined =>
      have found : row.gotos.keys.find? (fun s => s ∉ g.nonterminals) = some symbol := by
        refine List.find?_eq_some_iff_append.2 ⟨?_, before, after, split, ?_⟩
        · simpa [mem_nonterminals_iff] using undefined
        · intro s member
          simpa [mem_nonterminals_iff] using sound s member
      rw [found]
    | @action before after action error clean split sound fault =>
      rw [stray?_eq_none_iff.2 clean]
      refine List.findSome?_eq_some_iff.2 ⟨before, action, after, split, ?_, ?_⟩
      · exact actionDefect?_eq_some_iff.2 fault
      · intro a member
        exact actionDefect?_eq_none_iff.2 (sound a member)

variable {t : Table S}

theorem check_eq_ok_iff :
    t.check g = .ok () ↔ ∀ state row, (state, row) ∈ t.rows.entries → row.Sound g := by
  have clean : (t.rows.entries.findSome? fun e => rowDefect? g e.1 e.2) = none ↔
      ∀ state row, (state, row) ∈ t.rows.entries → row.Sound g := by
    simp [List.findSome?_eq_none_iff, rowDefect?_eq_none_iff]
  unfold check
  constructor
  · intro passed
    split at passed
    · cases passed
    next none => exact clean.1 none
  · intro sound
    rw [clean.2 sound]

theorem check_eq_error_iff {error : TableError S} :
    t.check g = .error error ↔ ∃ before state row after,
      t.rows.entries = before ++ (state, row) :: after ∧ (∀ e ∈ before, e.2.Sound g) ∧
        row.Fault g state error := by
  have found : (t.rows.entries.findSome? fun e => rowDefect? g e.1 e.2) = some error ↔
      ∃ before state row after, t.rows.entries = before ++ (state, row) :: after ∧
        (∀ e ∈ before, e.2.Sound g) ∧ row.Fault g state error := by
    rw [List.findSome?_eq_some_iff]
    constructor
    · rintro ⟨before, ⟨state, row⟩, after, split, fault, sound⟩
      refine ⟨before, state, row, after, split, ?_, rowDefect?_eq_some_iff.1 fault⟩
      intro e member
      exact rowDefect?_eq_none_iff.1 (sound e member)
    · rintro ⟨before, state, row, after, split, sound, fault⟩
      refine ⟨before, (state, row), after, split, rowDefect?_eq_some_iff.2 fault, ?_⟩
      intro e member
      exact rowDefect?_eq_none_iff.2 (sound e member)
  unfold check
  constructor
  · intro failed
    split at failed
    next error' first =>
      cases failed
      exact found.1 first
    · cases failed
  · intro first
    rw [found.2 first]

end Table

namespace OrderedMap

variable {K A B : Type}

def keep (m : OrderedMap K A) (kept : K → Bool) : OrderedMap K A where
  entries := m.entries.filter fun e => kept e.1
  distinct := m.distinct.sublist (List.filter_sublist.map _)

def mapEntries (m : OrderedMap K A) (f : K → A → B) : OrderedMap K B where
  entries := m.entries.map fun e => (e.1, f e.1 e.2)
  distinct := by
    rw [List.map_map]
    exact m.distinct

variable [DecidableEq K]

theorem find?_filter (k : K) (kept : K → Bool) (es : List (K × A)) :
    find? k (es.filter fun e => kept e.1) = if kept k then find? k es else none := by
  induction es with
  | nil => simp [find?]
  | cons e es ih =>
    obtain ⟨key, v⟩ := e
    by_cases same : key = k
    · subst same
      by_cases wanted : kept key = true
      · simp [find?, wanted]
      · simp [wanted, ih]
    · by_cases wanted : kept key = true
      · simp [find?, wanted, same, ih]
      · simp [find?, wanted, same, ih]

theorem get?_keep (m : OrderedMap K A) (kept : K → Bool) (k : K) :
    (m.keep kept).get? k = if kept k then m.get? k else none :=
  find?_filter k kept m.entries

theorem find?_map (f : K → A → B) (k : K) (es : List (K × A)) :
    find? k (es.map fun e => (e.1, f e.1 e.2)) = (find? k es).map (f k) := by
  induction es with
  | nil => rfl
  | cons e es ih =>
    obtain ⟨key, v⟩ := e
    by_cases same : key = k
    · subst same
      simp [find?]
    · simp [find?, same, ih]

theorem get?_mapEntries (m : OrderedMap K A) (f : K → A → B) (k : K) :
    (m.mapEntries f).get? k = (m.get? k).map (f k) :=
  find?_map f k m.entries

end OrderedMap

namespace Table

variable (t : Table S) (removed : Nat → S → Bool)

def withoutGotos : Table S :=
  ⟨t.rows.mapEntries fun state row =>
    { row with gotos := row.gotos.keep fun symbol => !removed state symbol }⟩

theorem row?_withoutGotos (state : Nat) : (t.withoutGotos removed).row? state =
    (t.row? state).map fun row =>
      { row with gotos := row.gotos.keep fun symbol => !removed state symbol } :=
  OrderedMap.get?_mapEntries _ _ state

theorem expected_withoutGotos (state : Nat) :
    (t.withoutGotos removed).expected state = t.expected state := by
  unfold expected
  rw [row?_withoutGotos]
  cases t.row? state with
  | none => rfl
  | some row => rfl

variable [DecidableEq S]

theorem action?_withoutGotos (state : Nat) (symbol : S) :
    (t.withoutGotos removed).action? state symbol = t.action? state symbol := by
  unfold action?
  rw [row?_withoutGotos]
  cases t.row? state with
  | none => rfl
  | some row => rfl

theorem goto?_withoutGotos (state : Nat) (symbol : S) :
    (t.withoutGotos removed).goto? state symbol =
      if removed state symbol then none else t.goto? state symbol := by
  unfold goto?
  rw [row?_withoutGotos]
  cases t.row? state with
  | none => simp
  | some row =>
    simp only [Option.map_some, Option.bind_some, OrderedMap.get?_keep]
    by_cases gone : removed state symbol = true
    · simp [gone]
    · simp [gone]

theorem agrees_withoutGotos
    (stray : ∀ state symbol, removed state symbol = true → ¬ g.Defines symbol) :
    t.Agrees g (t.withoutGotos removed) where
  action := t.action?_withoutGotos removed
  goto := by
    intro state rule member
    have kept : ¬ removed state rule.name = true := by
      intro gone
      exact stray state rule.name gone ⟨rule, member, rfl⟩
    rw [goto?_withoutGotos, if_neg kept]

variable {t} in
theorem supports_of_check (passed : t.check g = .ok ()) {state : Nat} {symbol : S} {action : Action}
    (found : t.action? state symbol = some action) : g.Supports action := by
  obtain ⟨row, inRow, entry⟩ := Option.bind_eq_some_iff.1 found
  have sound := check_eq_ok_iff.1 passed state row (OrderedMap.mem_of_get? inRow)
  exact sound.actions action (List.mem_map_of_mem (OrderedMap.mem_of_get? entry))

end Table

theorem Action.Fault.not_supported {state : Nat} {action : Action} {error : TableError S}
    (fault : action.Fault g state error) : ¬ g.Supports action := by
  intro supported
  have defect := Table.actionDefect?_eq_some_iff.2 fault
  rw [Table.actionDefect?_eq_none_iff.2 supported] at defect
  cases defect

namespace Parser

variable [DecidableEq S] {p : Parser S V} {stack : Stack V} {id : Nat} {error : TableError S}

theorem reduction_of_fault (fault : (Action.reduce id).Fault p.grammar stack.current error) :
    p.reduction stack id = .error (.table error) ∨
      ∃ arity available, available < arity ∧
        p.reduction stack id = .error (.table (.stackUnderflow id arity available)) := by
  cases fault with
  | unknown absent =>
    left
    simp only [reduction, absent]
  | @valueless _ rule found plain several =>
    have named := Grammar.id_of_rule? found
    subst named
    by_cases short : stack.values.length < rule.arity
    · right
      refine ⟨rule.arity, stack.values.length, short, ?_⟩
      simp only [reduction, found, if_pos short]
    · left
      have count := Stack.length_operands (Nat.not_lt.1 short)
      simp only [reduction, found, if_neg short, Rule.combine_of_several plain several count]
      rfl

theorem fault_of_reduction (failed : p.reduction stack id = .error (.table error)) :
    (Action.reduce id).Fault p.grammar stack.current error ∨
      (∃ rule arity available, error = .stackUnderflow rule arity available) ∨
        ∃ state symbol, error = .missingGoto state symbol := by
  rcases reduction_error_cases failed with
    ⟨absent, cause⟩ | ⟨rule, found, ⟨_, cause⟩ | ⟨enough, combined | ⟨_, _, _, cause⟩⟩⟩
  · cases cause
    exact .inl (.unknown absent)
  · cases cause
    exact .inr (.inl ⟨_, _, _, rfl⟩)
  · rcases Rule.combine_error_cases (Stack.length_operands enough) combined with
      ⟨_, _, _, _, cause⟩ | ⟨plain, several, cause⟩
    · cases cause
    · cases cause
      rw [Grammar.id_of_rule? found]
      exact .inl (.valueless found plain several)
  · cases cause
    exact .inr (.inr ⟨_, _, rfl⟩)

theorem hopeless_of_fault {state : Nat} (fault : (Action.reduce id).Fault p.grammar state error) :
    p.Hopeless state id := by
  rintro stack rfl
  rcases reduction_of_fault fault with same | ⟨arity, available, _, short⟩
  · exact ⟨_, same⟩
  · exact ⟨_, short⟩

section Run

variable {limit : Nat} {items : List (Except E (Token S V))}

theorem run_of_fault {state : Nat} {symbol : S}
    (looked : (state, symbol) ∈ p.lookups limit items)
    (entry : p.table.action? state symbol = some (.reduce id))
    (fault : (Action.reduce id).Fault p.grammar state error) :
    (p.run limit items).outcome = .error (.table error) ∨
      ∃ arity available, available < arity ∧
        (p.run limit items).outcome = .error (.table (.stackUnderflow id arity available)) := by
  obtain ⟨stack, cause, rfl, failed, ended⟩ :=
    runFrom_of_hopeless (hopeless_of_fault fault) entry looked
  rcases reduction_of_fault fault with same | ⟨arity, available, short, same⟩
  · rw [same] at failed
    cases failed
    exact .inl ended
  · rw [same] at failed
    cases failed
    exact .inr ⟨arity, available, short, ended⟩

theorem fault_of_run (ended : (p.run limit items).outcome = .error (.table error))
    (static : (∃ state rule, error = .unknownRule state rule) ∨
      ∃ rule arity, error = .missingCallback rule arity) :
    ∃ state symbol id, (state, symbol) ∈ p.lookups limit items ∧
      p.table.action? state symbol = some (.reduce id) ∧
      (Action.reduce id).Fault p.grammar state error := by
  rcases stuck_of_runFrom ended with ⟨symbol, stack, id, stuck⟩ | ⟨_, rfl⟩ | ⟨_, rfl⟩
  · rcases fault_of_reduction stuck.failed with fault | ⟨_, _, _, rfl⟩ | ⟨_, _, rfl⟩
    · exact ⟨stack.current, symbol, id, stuck.member, stuck.entry, fault⟩
    · simp at static
    · simp at static
  · simp at static
  · simp at static

end Run

/-- The check names the first fault in row order, and a fault stops every run that looks it up.
Gotos on symbols that no rule defines make no difference to any run. -/
theorem check_guards_runs (g : Grammar S V) (t : Table S) :
    (t.check g = .ok () ↔ ∀ state row, (state, row) ∈ t.rows.entries → row.Sound g) ∧
    (∀ error, t.check g = .error error ↔ ∃ before state row after,
      t.rows.entries = before ++ (state, row) :: after ∧ (∀ e ∈ before, e.2.Sound g) ∧
        row.Fault g state error) ∧
    ∀ (ending : Option S) (limit : Nat) (items : List (Except E (Token S V))),
      let p : Parser S V := ⟨g, t, ending⟩
      (t.check g = .ok () →
        (∀ state rule, (p.run limit items).outcome ≠ .error (.table (.unknownRule state rule))) ∧
        ∀ rule arity, (p.run limit items).outcome ≠ .error (.table (.missingCallback rule arity))) ∧
      (∀ state symbol id error, (state, symbol) ∈ p.lookups limit items →
        t.action? state symbol = some (.reduce id) → (Action.reduce id).Fault g state error →
          (p.run limit items).outcome = .error (.table error) ∨
          ∃ arity available, available < arity ∧
            (p.run limit items).outcome = .error (.table (.stackUnderflow id arity available))) ∧
      ∀ removed : Nat → S → Bool,
        (∀ state symbol, removed state symbol = true → ¬ g.Defines symbol) →
        (⟨g, t.withoutGotos removed, ending⟩ : Parser S V).run limit items = p.run limit items := by
  refine ⟨Table.check_eq_ok_iff, fun error => Table.check_eq_error_iff, ?_⟩
  intro ending limit items p
  refine ⟨?_, ?_, ?_⟩
  · intro passed
    have sound {error : TableError S} (ended : (p.run limit items).outcome = .error (.table error))
        (static : (∃ state rule, error = .unknownRule state rule) ∨
          ∃ rule arity, error = .missingCallback rule arity) : False := by
      obtain ⟨state, symbol, id, _, entry, fault⟩ := fault_of_run ended static
      exact fault.not_supported (Table.supports_of_check passed entry)
    constructor
    · intro state rule ended
      exact sound ended (.inl ⟨state, rule, rfl⟩)
    · intro rule arity ended
      exact sound ended (.inr ⟨rule, arity, rfl⟩)
  · intro state symbol id error looked entry fault
    exact run_of_fault (p := p) looked entry fault
  · intro removed stray
    exact run_agreeing (p := p) (t.agrees_withoutGotos removed stray)
      (t.expected_withoutGotos removed) limit items

end Parser

/-- `E := x | ( E )`, where nothing gives the second rule a value. -/
def parentheses : Grammar String Int where
  rules := [⟨⟨"E", ["x"]⟩, 1, none⟩, ⟨⟨"E", ["(", "E", ")"]⟩, 2, none⟩]
  start := "E"
  numbered := rfl
  distinct := by simp
  start_mem := by simp

/-- A table for `(x)` with a goto on `x`. -/
def parenthesesTable : Table String := .ofSettings [
  .shift 0 "(" 1, .shift 1 "x" 2, .reduce 2 ")" 1, .goto 1 "E" 3, .shift 3 ")" 4,
  .reduce 4 "$" 2, .goto 4 "x" 0]

def parenthesized : List (Except Unit (Token String Int)) :=
  [.ok ⟨"(", 0, none⟩, .ok ⟨"x", 1, none⟩, .ok ⟨")", 0, none⟩]

/-- The goto on `x` comes first in the check. It makes no difference to the run, which ends with
what is wrong with the reduction beside it. -/
theorem parentheses_guarded :
    let p : Parser String Int := ⟨parentheses, parenthesesTable, some "$"⟩
    let removed := fun (_ : Nat) (symbol : String) => decide (symbol = "x")
    parenthesesTable.check parentheses = .error (.unknownNonterminal 4 "x") ∧
      (4, "$") ∈ p.lookups 9 parenthesized ∧
      (p.run 9 parenthesized).outcome = .error (.table (.missingCallback 2 3)) ∧
      (⟨parentheses, parenthesesTable.withoutGotos removed, some "$"⟩ : Parser String Int).run 9
        parenthesized = p.run 9 parenthesized := by
  intro p removed
  obtain ⟨_, _, runs⟩ := Parser.check_guards_runs parentheses parenthesesTable
  obtain ⟨_, faults, strays⟩ := runs (some "$") 9 parenthesized
  have looked : (4, "$") ∈ p.lookups 9 parenthesized := by decide
  have found : parentheses.rule? 2 = some ⟨⟨"E", ["(", "E", ")"]⟩, 2, none⟩ := rfl
  have fault : (Action.reduce 2).Fault parentheses 4 (.missingCallback 2 3) :=
    .valueless found rfl (by decide)
  have undefined : ∀ (state : Nat) symbol, removed state symbol = true →
      ¬ parentheses.Defines symbol := by
    intro state symbol gone
    rw [of_decide_eq_true gone]
    rintro ⟨rule, member, named⟩
    simp [parentheses] at member
    rcases member with rfl | rfl <;> simp at named
  refine ⟨rfl, looked, ?_, strays removed undefined⟩
  rcases faults 4 "$" 2 _ looked rfl fault with ended | ⟨arity, available, _, ended⟩
  · exact ended
  · cases ended

end ShiftReduce
