import ShiftReduce.Proofs.Arithmetic
import ShiftReduce.Proofs.Operands
import ShiftReduce.Proofs.SExpression
/-!
The conduct of the three ready parsers on all inputs, whether the end of the input is a token or is
put in. Their runs end, never in a table error, with a number of reductions that is linear in the
number of shifts, and the faults of their callbacks are overflows only.
-/
namespace ShiftReduce

namespace Arithmetic

theorem steady : parser.Steady certificate endSymbol (fun _ => 0) 0 where
  certified := certified
  evaluable := by decide
  floor :=
    { root := by decide
      edge := by decide +kernel }
  ends := by
    intro e some
    cases some

theorem interruption?_fault {checks : List Check} {i : Interruption String Int}
    (broken : interruption? checks = some i) :
    ∃ operation, i.cause = .fault (.overflow operation) := by
  induction checks generalizing i with
  | nil => cases broken
  | cons check checks ih =>
    obtain ⟨rule, overflow⟩ := check
    cases overflow with
    | some operation =>
      cases broken
      exact ⟨operation, rfl⟩
    | none =>
      obtain ⟨later, found, rfl⟩ := Option.map_eq_some_iff.1 broken
      exact @ih later found

theorem exists_level {r : Rule String Int} (member : r ∈ grammar.rules) :
    ∃ level : Level, r.name = level.symbol := by
  obtain ⟨index, rfl⟩ : ∃ index, rule index = r := List.mem_iff_get.1 member
  match index with
  | 0 | 1 => exact ⟨.additive, rfl⟩
  | 2 | 3 => exact ⟨.multiplicative, rfl⟩
  | 4 | 5 => exact ⟨.power, rfl⟩
  | 6 | 7 => exact ⟨.primary, rfl⟩

theorem faulty_overflow {r : Rule String Int} {children : List (Tree String Int)} {args : List Int}
    {f : Fault Int} (faulty : Tree.Faulty grammar r children args f) :
    ∃ operation, f = .overflow operation := by
  obtain ⟨level, named⟩ := exists_level faulty.member
  obtain ⟨d, tree⟩ := exists_derivation faulty.derived named
  have evaluated := faulty.eval
  rw [← tree, d.checked_tree.eval] at evaluated
  unfold evaluation at evaluated
  split at evaluated
  · cases evaluated
  next i broken =>
    obtain ⟨operation, cause⟩ := interruption?_fault broken
    rw [Except.error.inj evaluated] at cause
    exact ⟨operation, Breakdown.fault.inj cause⟩

end Arithmetic

namespace SExpression

/-- The least weight that the symbols below a state can have. -/
def floor (state : Nat) : Int := [0, -1, 1, 1, 0, 0, 1].getD state 0

theorem steady : parser.Steady certificate endSymbol floor 1 where
  certified := certified
  evaluable := by decide
  floor :=
    { root := by decide
      edge := by decide +kernel }
  ends := by
    intro e some
    cases some

theorem not_faulty {r : Rule String SExpression} {children : List (Tree String SExpression)}
    {args : List SExpression} {f : Fault SExpression} :
    ¬ Tree.Faulty grammar r children args f := by
  intro faulty
  have nonterminal : ¬ grammar.Terminal (Tree.node r children).symbol := by
    intro terminal
    exact terminal (List.mem_map_of_mem faulty.member)
  have evaluated := faulty.eval
  rcases stands_of_derived faulty.derived nonterminal with ⟨xs, items⟩ | ⟨x, item⟩
  · rw [items.eval] at evaluated
    cases evaluated
  · rw [item.eval] at evaluated
    cases evaluated

end SExpression

namespace Calculator

theorem steady : parser.Steady certificate .endOfInput (fun _ => 0) 0 where
  certified := certified
  evaluable := by decide
  floor :=
    { root := by decide
      edge := by decide +kernel }
  ends := by
    intro e some
    cases some
    rfl

end Calculator

/-- On all items the three parsers are orderly. The faults of their callbacks are overflows: of
integers in the first, of none in the second, and of the depth over that of a token in the third. -/
theorem ready_parsers_orderly (E : Type) :
    (∀ p ∈ Arithmetic.parser.modes Arithmetic.endSymbol,
      ∀ items : List (Except E (Token String Int)),
        (p.run (4 * items.length + 1) items).Orderly 4 0 fun f =>
          ∃ operation, f = .overflow operation) ∧
    (∀ p ∈ SExpression.parser.modes SExpression.endSymbol,
      ∀ items : List (Except E (Token String SExpression)),
        (p.run (2 * items.length + 2) items).Orderly 2 1 fun _ => False) ∧
    (∀ p ∈ Calculator.parser.modes .endOfInput,
      ∀ items : List (Except E (Token Calculator.Symbol Calculator.Expr)),
        (p.run (4 * items.length + 1) items).Orderly 4 0 fun f =>
          f = .overflow .add ∧ ∃ token, .ok token ∈ items ∧ ¬ token.value.Countable) ∧
    ∀ p ∈ Calculator.parser.modes .endOfInput, ∀ text limit,
      (p.run limit (Calculator.tokens text)).remarks = [] ∧
      (∀ callback args, p.Calls (.initial (Calculator.tokens text)) callback args →
        callback.apply args ≠ .ok .error) ∧
      ∀ tree, (p.run limit (Calculator.tokens text)).outcome = .value tree → tree.Regular := by
  refine ⟨?_, ?_, ?_, ?_⟩
  · intro p mode items
    apply (Arithmetic.steady.orderly_of_mem_modes mode items (Nat.lt_succ_self _)).mono
    rintro f ⟨r, children, args, faulty, _⟩
    exact Arithmetic.faulty_overflow faulty
  · intro p mode items
    apply (SExpression.steady.orderly_of_mem_modes mode items (Nat.lt_succ_self _)).mono
    rintro f ⟨r, children, args, faulty, _⟩
    exact SExpression.not_faulty faulty
  · intro p mode items
    apply (Calculator.steady.orderly_of_mem_modes mode items (Nat.lt_succ_self _)).mono
    rintro f ⟨r, children, args, faulty, inside⟩
    obtain ⟨overflow, token, leaf, deep⟩ := Calculator.faulty_depth faulty
    exact ⟨overflow, token, inside token leaf, deep⟩
  · intro p mode text limit
    have certified := (Calculator.steady.of_mem_modes mode).certified
    have calculator := Parser.grammar_of_mem_modes mode
    have lexed := Calculator.tokens_lexed text
    have quiet := Calculator.quiet_of_lexed calculator certified.coherent lexed
    refine ⟨Parser.run_remarks limit quiet, ?_, ?_⟩
    · intro callback args calls
      exact Calculator.Quiet.no_error calculator quiet calls
    · intro tree accepted
      exact Calculator.regular_of_run calculator certified lexed accepted

namespace Arithmetic

def greatestPlusOne : List (Except Unit (Token String Int)) :=
  [.ok ⟨"INT", 0x7FFFFFFFFFFFFFFF, none⟩, .ok ⟨"+", 0, none⟩, .ok ⟨"INT", 1, none⟩]

theorem greatest_plus_one_orderly :
    parser.endingWith endSymbol ∈ parser.modes endSymbol ∧
      ((parser.endingWith endSymbol).run 13 greatestPlusOne).outcome = .fault (.overflow .add) ∧
      ((parser.endingWith endSymbol).run 13 greatestPlusOne).Orderly 4 0 fun f =>
        ∃ operation, f = .overflow operation := by
  have mode : parser.endingWith endSymbol ∈ parser.modes endSymbol :=
    List.mem_cons_of_mem _ List.mem_cons_self
  exact ⟨mode, rfl, (ready_parsers_orderly Unit).1 _ mode greatestPlusOne⟩

end Arithmetic

namespace Calculator

/-- A token that stores the greatest depth is an operand over which no node can be built. -/
def deepest : List (Except LexError (Token Symbol Expr)) :=
  [.ok ⟨.int, .group (.num 1) 0xFFFFFFFFFFFFFFFF, none⟩, .ok ⟨.plus, .punct, none⟩,
    .ok ⟨.int, .num 1, none⟩]

theorem deepest_faults : (parseItems deepest).outcome = .fault (.overflow .add) := by
  rfl

end Calculator

end ShiftReduce
