import ShiftReduce.Grammar.Basic
import ShiftReduce.OrderedMap
/-!
Parse tables: for each state the actions by lookahead and the gotos by nonterminal. Rows and
entries keep the order in which they were first set, so listings and the symbols expected in a
state come out in that order; setting an entry again replaces it in its place.
-/
namespace ShiftReduce

inductive Action where
  | shift (next : Nat)
  | reduce (rule : Nat)
  | accept
  deriving DecidableEq, Repr

structure Row (S : Type) where
  actions : OrderedMap S Action
  gotos : OrderedMap S Nat

def Row.empty {S : Type} : Row S := ⟨.empty, .empty⟩

structure Table (S : Type) where
  rows : OrderedMap Nat (Row S)

inductive Setting (S : Type) where
  | action (state : Nat) (symbol : S) (action : Action)
  | goto (state : Nat) (symbol : S) (next : Nat)
  deriving DecidableEq, Repr

def Setting.shift {S : Type} (state : Nat) (symbol : S) (next : Nat) : Setting S :=
  .action state symbol (.shift next)

def Setting.reduce {S : Type} (state : Nat) (symbol : S) (rule : Nat) : Setting S :=
  .action state symbol (.reduce rule)

def Setting.accept {S : Type} (state : Nat) (symbol : S) : Setting S :=
  .action state symbol .accept

namespace Table

variable {S : Type}

def empty : Table S := ⟨.empty⟩

def size (t : Table S) : Nat := t.rows.size

def row? (t : Table S) (state : Nat) : Option (Row S) := t.rows.get? state

def expected (t : Table S) (state : Nat) : List S :=
  match t.row? state with
  | some row => row.actions.keys
  | none => []

theorem expected_nodup (t : Table S) (state : Nat) : (t.expected state).Nodup := by
  unfold expected
  cases t.row? state with
  | none => exact .nil
  | some row => exact row.actions.distinct

variable [DecidableEq S]

def action? (t : Table S) (state : Nat) (symbol : S) : Option Action :=
  (t.row? state).bind fun row => row.actions.get? symbol

theorem action?_eq_none_iff {t : Table S} {state : Nat} {symbol : S} :
    t.action? state symbol = none ↔ symbol ∉ t.expected state := by
  unfold action? expected
  cases t.row? state with
  | none => simp
  | some row => exact OrderedMap.get?_eq_none_iff row.actions symbol

def goto? (t : Table S) (state : Nat) (symbol : S) : Option Nat :=
  (t.row? state).bind fun row => row.gotos.get? symbol

def updateRow (t : Table S) (state : Nat) (change : Row S → Row S) : Table S :=
  ⟨t.rows.insert state (change ((t.row? state).getD .empty))⟩

def setAction (t : Table S) (state : Nat) (symbol : S) (action : Action) : Table S :=
  t.updateRow state fun row => { row with actions := row.actions.insert symbol action }

def setGoto (t : Table S) (state : Nat) (symbol : S) (next : Nat) : Table S :=
  t.updateRow state fun row => { row with gotos := row.gotos.insert symbol next }

def exchangeAction (t : Table S) (state : Nat) (symbol : S) (action : Action) :
    Option Action × Table S :=
  let row := (t.row? state).getD .empty
  let (replaced, actions) := row.actions.exchange symbol action
  (replaced, ⟨t.rows.insert state { row with actions }⟩)

theorem exchangeAction_eq (t : Table S) (state : Nat) (symbol : S) (action : Action) :
    t.exchangeAction state symbol action =
      (t.action? state symbol, t.setAction state symbol action) := by
  simp only [exchangeAction, OrderedMap.exchange_eq, action?, setAction, updateRow]
  cases t.row? state with
  | none => rfl
  | some row => rfl

def set (t : Table S) : Setting S → Table S
  | .action state symbol action => t.setAction state symbol action
  | .goto state symbol next => t.setGoto state symbol next

def setAll (t : Table S) (settings : List (Setting S)) : Table S := settings.foldl set t

def ofSettings (settings : List (Setting S)) : Table S := empty.setAll settings

end Table

end ShiftReduce
