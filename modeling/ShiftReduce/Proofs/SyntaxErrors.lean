import ShiftReduce.Proofs.Conduct
import ShiftReduce.Proofs.Viability
/-!
Syntax errors of the three ready parsers. Every state of their tables has an exit, so they report
an error at the first token with which the input cannot be continued to a sentence.
-/
namespace ShiftReduce

namespace Arithmetic

/-- Falls wherever a rule is completed. -/
def rank : String → Nat
  | "INT" => 5
  | "(" => 5
  | "Primary" => 4
  | "Power" => 3
  | "Multiplicative" => 2
  | _ => 1

theorem derivation_of_level (level : Level) : Nonempty (Derivation level) := by
  have primary : Derivation .primary := .integer ⟨⟨"INT", 0, none⟩, rfl⟩
  cases level with
  | primary => exact ⟨primary⟩
  | power => exact ⟨.primary primary⟩
  | multiplicative => exact ⟨.power (.primary primary)⟩
  | additive => exact ⟨.multiplicative (.power (.primary primary))⟩

theorem completable : parser.Completable certificate.kernel endSymbol rank where
  productive := by
    apply Parser.productive_of_rules 0
    intro r member
    obtain ⟨level, named⟩ := exists_level member
    obtain ⟨d⟩ := derivation_of_level level
    exact ⟨d.tree, d.derived_tree, d.symbol_tree.trans named.symm⟩
  exit := by decide +kernel

end Arithmetic

namespace SExpression

def rank : String → Nat
  | "ATOM" => 3
  | "(" => 3
  | "Item" => 2
  | _ => 1

theorem completable : parser.Completable certificate.kernel endSymbol rank where
  productive := by
    apply Parser.productive_of_rules .punct
    intro r member
    have items := Phrase.empty
    have item := @Phrase.atom ⟨"ATOM", .punct, none⟩ rfl
    obtain ⟨index, rfl⟩ : ∃ index, rule index = r := List.mem_iff_get.1 member
    match index with
    | 0 => exact ⟨_, items.derived, items.root⟩
    | 1 => exact ⟨_, items.derived, items.root⟩
    | 2 => exact ⟨_, item.derived, item.root⟩
    | 3 => exact ⟨_, item.derived, item.root⟩
  exit := by decide +kernel

end SExpression

namespace Calculator

def rank : Symbol → Nat
  | .int => 5
  | .leftParen => 5
  | .primary => 4
  | .power => 3
  | .multiplicative => 2
  | _ => 1

theorem shaped_of_level (level : Level) : Shaped level (.leaf (.num 0)) := by
  cases level with
  | primary => exact .num 0
  | power => exact .primary (.num 0)
  | multiplicative => exact .power (.primary (.num 0))
  | additive => exact .multiplicative (.power (.primary (.num 0)))

theorem exists_level {r : Rule Symbol Expr} (member : r ∈ grammar.rules) :
    ∃ level : Level, r.name = level.symbol := by
  obtain ⟨index, rfl⟩ : ∃ index, rule index = r := List.mem_iff_get.1 member
  match index with
  | 0 | 1 | 2 => exact ⟨.additive, rfl⟩
  | 3 | 4 | 5 => exact ⟨.multiplicative, rfl⟩
  | 6 | 7 => exact ⟨.power, rfl⟩
  | 8 | 9 => exact ⟨.primary, rfl⟩

theorem completable : parser.Completable certificate.kernel .endOfInput rank where
  productive := by
    apply Parser.productive_of_rules .punct
    intro r member
    obtain ⟨level, named⟩ := exists_level member
    obtain ⟨w, spells⟩ := exists_tokens (Term.leaf (.num 0)).spelling
    obtain ⟨t, phrase, _⟩ := exists_derivation (shaped_of_level level) spells
    exact ⟨t, phrase.derived, phrase.root.trans named.symm⟩
  exit := by decide +kernel

end Calculator

/-- The three parsers refuse the first token with which no sentence begins, and call the end of the
input unexpected where a sentence has to go on, as long as no callback breaks down. -/
theorem errors_at_earliest_token (E : Type) :
    (∀ p ∈ Arithmetic.parser.modes Arithmetic.endSymbol, ∀ ts : List (Token String Int),
      let r : Run String Int E := p.run (4 * ts.length + 1) (ts.map .ok)
      (∀ f, r.outcome ≠ .fault f) → p.Earliest Arithmetic.endSymbol ts r) ∧
    (∀ p ∈ SExpression.parser.modes SExpression.endSymbol,
      ∀ ts : List (Token String SExpression),
      let r : Run String SExpression E := p.run (2 * ts.length + 2) (ts.map .ok)
      p.Earliest SExpression.endSymbol ts r) ∧
    ∀ p ∈ Calculator.parser.modes .endOfInput,
      ∀ ts : List (Token Calculator.Symbol Calculator.Expr),
      let r : Run Calculator.Symbol Calculator.Expr E := p.run (4 * ts.length + 1) (ts.map .ok)
      (∀ f, r.outcome ≠ .fault f) → p.Earliest .endOfInput ts r := by
  refine ⟨?_, ?_, ?_⟩
  · intro p mode ts r sound
    have steady := Arithmetic.steady.of_mem_modes mode
    exact steady.earliest (Arithmetic.completable.of_mem_modes mode) ts (Nat.lt_succ_self _) sound
  · intro p mode ts r
    have steady := SExpression.steady.of_mem_modes mode
    have room : 2 * ts.length + 1 < 2 * ts.length + 2 := Nat.lt_succ_self _
    refine steady.earliest (SExpression.completable.of_mem_modes mode) ts room ?_
    intro f fault
    have orderly := SExpression.steady.orderly_of_mem_modes mode (ts.map (.ok (ε := E)))
      (by rw [List.length_map]; exact room)
    obtain ⟨_, _, _, faulty, _⟩ := orderly.fault f fault
    exact SExpression.not_faulty faulty
  · intro p mode ts r sound
    have steady := Calculator.steady.of_mem_modes mode
    exact steady.earliest (Calculator.completable.of_mem_modes mode) ts (Nat.lt_succ_self _) sound

namespace Calculator

def closedSum (first : Expr) : List (Token Symbol Expr) :=
  [⟨.int, first, none⟩, ⟨.plus, .punct, none⟩, ⟨.int, .num 1, none⟩, ⟨.rightParen, .punct, none⟩]

theorem closed_sum_refused :
    parser ∈ parser.modes .endOfInput ∧
      (∀ f, (parser.run 17 ((closedSum (.num 1)).map (.ok (ε := LexError)))).outcome ≠ .fault f) ∧
      parser.Earliest .endOfInput (closedSum (.num 1))
        (parser.run 17 ((closedSum (.num 1)).map (.ok (ε := LexError)))) := by
  have mode : parser ∈ parser.modes .endOfInput := List.mem_cons_of_mem _ List.mem_cons_self
  have sound (f : Fault Expr) :
      (parser.run 17 ((closedSum (.num 1)).map (.ok (ε := LexError)))).outcome ≠ .fault f := by
    intro fault
    cases fault
  exact ⟨mode, sound, (errors_at_earliest_token LexError).2.2 parser mode _ sound⟩

/-- An operand whose depth cannot be counted hides the error. -/
theorem deepest_hides_error :
    ¬ parser.Earliest .endOfInput (closedSum (.group (.num 1) 0xFFFFFFFFFFFFFFFF))
      (parseItems (E := LexError) ((closedSum (.group (.num 1) 0xFFFFFFFFFFFFFFFF)).map .ok)) := by
  intro earliest
  -- with another operand the parenthesis is refused
  have shallow : parser.Earliest .endOfInput (closedSum (.num 1))
      (parseItems (E := LexError) ((closedSum (.num 1)).map .ok)) := by
    refine steady.earliest completable _ (Nat.lt_succ_self _) ?_
    intro f fault
    cases fault
  have breaks := (shallow.token 3).1 ⟨_, _, _, rfl, rfl, rfl⟩
  obtain ⟨_, _, _, refused, _⟩ := (earliest.token 3).2 breaks
  cases refused

end Calculator

end ShiftReduce
