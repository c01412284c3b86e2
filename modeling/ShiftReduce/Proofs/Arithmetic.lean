import ShiftReduce.Arithmetic.Grammar
import ShiftReduce.Proofs.Recognition
/-!
Arithmetic expressions: the parser accepts exactly the sentences of its grammar, computes the value
of the derivation tree, and stops at the first overflow in post-order. A derivation has its tokens
at its leaves and exact integers as values; where a value leaves the range of signed 64-bit
integers, the check of that node fails.
-/
namespace ShiftReduce.Arithmetic

inductive Level where
  | additive
  | multiplicative
  | power
  | primary

def Level.symbol : Level → String
  | .additive => "Additive"
  | .multiplicative => "Multiplicative"
  | .power => "Power"
  | .primary => "Primary"

abbrev Terminal (symbol : String) := { token : Token String Int // token.symbol = symbol }

/-- The derivations of the documented grammar, one constructor for each rule. -/
inductive Derivation : Level → Type where
  | sum (left : Derivation .additive) (sign : Terminal "+") (right : Derivation .multiplicative) :
      Derivation .additive
  | multiplicative (inner : Derivation .multiplicative) : Derivation .additive
  | product (left : Derivation .multiplicative) (sign : Terminal "*") (right : Derivation .power) :
      Derivation .multiplicative
  | power (inner : Derivation .power) : Derivation .multiplicative
  | raised (base : Derivation .primary) (sign : Terminal "**") (exponent : Derivation .power) :
      Derivation .power
  | primary (inner : Derivation .primary) : Derivation .power
  | integer (literal : Terminal "INT") : Derivation .primary
  | grouped (opening : Terminal "(") (inner : Derivation .additive) (closing : Terminal ")") :
      Derivation .primary

/-- The rule of a node, and the operation that leaves the range there, if one does. -/
structure Check where
  rule : Nat
  overflow : Option Overflow

def overflow? (operation : Overflow) (exact : Int) : Option Overflow :=
  if Signed64.InRange exact then none else some operation

namespace Derivation

variable {level : Level}

def tokens : {level : Level} → Derivation level → List (Token String Int)
  | _, sum left sign right => left.tokens ++ sign.1 :: right.tokens
  | _, multiplicative inner => inner.tokens
  | _, product left sign right => left.tokens ++ sign.1 :: right.tokens
  | _, power inner => inner.tokens
  | _, raised base sign exponent => base.tokens ++ sign.1 :: exponent.tokens
  | _, primary inner => inner.tokens
  | _, integer literal => [literal.1]
  | _, grouped opening inner closing => opening.1 :: inner.tokens ++ [closing.1]

/-- An exponent counts modulo `2 ^ 32`. -/
def value : {level : Level} → Derivation level → Int
  | _, sum left _ right => left.value + right.value
  | _, multiplicative inner => inner.value
  | _, product left _ right => left.value * right.value
  | _, power inner => inner.value
  | _, raised base _ exponent => base.value ^ Signed64.low32 exponent.value
  | _, primary inner => inner.value
  | _, integer literal => literal.1.value
  | _, grouped _ inner _ => inner.value

def checks : {level : Level} → Derivation level → List Check
  | _, sum left sign right =>
    left.checks ++ right.checks ++ [⟨1, overflow? .add (sum left sign right).value⟩]
  | _, multiplicative inner => inner.checks ++ [⟨2, none⟩]
  | _, product left sign right =>
    left.checks ++ right.checks ++ [⟨3, overflow? .multiply (product left sign right).value⟩]
  | _, power inner => inner.checks ++ [⟨4, none⟩]
  | _, raised base sign exponent =>
    base.checks ++ exponent.checks ++
      [⟨5, overflow? .exponentiate (raised base sign exponent).value⟩]
  | _, primary inner => inner.checks ++ [⟨6, none⟩]
  | _, integer _ => [⟨7, none⟩]
  | _, grouped _ inner _ => inner.checks ++ [⟨8, none⟩]

end Derivation

def WithinRange (checks : List Check) : Prop := ∀ check ∈ checks, check.overflow = none

theorem overflow?_eq_none_iff {operation : Overflow} {n : Int} :
    overflow? operation n = none ↔ Signed64.InRange n := by
  unfold overflow?
  by_cases inside : Signed64.InRange n
  · rw [if_pos inside]
    exact iff_of_true rfl inside
  · rw [if_neg inside]
    exact iff_of_false (Option.some_ne_none operation) inside

theorem withinRange_unit_iff {xs : List Check} {rule : Nat} {overflow : Option Overflow} :
    WithinRange (xs ++ [⟨rule, overflow⟩]) ↔ WithinRange xs ∧ overflow = none := by
  unfold WithinRange
  rw [List.forall_mem_append, List.forall_mem_singleton]

theorem withinRange_operation_iff {xs ys : List Check} {A B : Prop} (left : WithinRange xs ↔ A)
    (right : WithinRange ys ↔ B) {rule : Nat} {operation : Overflow} {n : Int} :
    WithinRange (xs ++ ys ++ [⟨rule, overflow? operation n⟩]) ↔ (A ∧ B) ∧ Signed64.InRange n := by
  rw [withinRange_unit_iff, overflow?_eq_none_iff, ← left, ← right]
  exact and_congr_left' List.forall_mem_append

def interruption? : List Check → Option (Interruption String Int)
  | [] => none
  | ⟨_, some operation⟩ :: _ => some ⟨[], .fault (.overflow operation)⟩
  | ⟨rule, none⟩ :: checks =>
    (interruption? checks).map fun i => ⟨rule :: i.reduced, i.cause⟩

theorem interruption?_append (first later : List Check) :
    interruption? (first ++ later) =
      match interruption? first with
      | some i => some i
      | none =>
        (interruption? later).map fun i => ⟨first.map Check.rule ++ i.reduced, i.cause⟩ := by
  induction first with
  | nil =>
    simp only [List.nil_append, interruption?, List.map_nil]
    cases interruption? later <;> rfl
  | cons check first ih =>
    obtain ⟨rule, overflow⟩ := check
    cases overflow with
    | some operation => rfl
    | none =>
      simp only [List.cons_append, interruption?, ih]
      cases interruption? first with
      | some i => rfl
      | none => cases interruption? later <;> rfl

theorem interruption?_eq_none_iff {checks : List Check} : interruption? checks = none ↔ WithinRange checks := by
  induction checks with
  | nil => exact ⟨fun _ => List.forall_mem_nil _, fun _ => rfl⟩
  | cons check checks ih =>
    obtain ⟨rule, overflow⟩ := check
    unfold WithinRange at ih ⊢
    rw [List.forall_mem_cons, ← ih]
    cases overflow with
    | some operation =>
      constructor
      · intro h
        cases h
      · intro h
        cases h.1
    | none =>
      have step : interruption? (⟨rule, none⟩ :: checks) = none ↔ interruption? checks = none :=
        Option.map_eq_none_iff
      rw [step]
      exact (and_iff_right rfl).symm

theorem interruption?_first {before after : List Check} {rule : Nat} {operation : Overflow}
    (within : WithinRange before) :
    interruption? (before ++ ⟨rule, some operation⟩ :: after) =
      some ⟨before.map Check.rule, .fault (.overflow operation)⟩ := by
  rw [interruption?_append, interruption?_eq_none_iff.2 within]
  simp only [interruption?, Option.map_some, List.append_nil]

def evaluation {α : Type} (result : α) (checks : List Check) :
    Except (Interruption String Int) α :=
  match interruption? checks with
  | none => .ok result
  | some i => .error i

structure Checked (t : Tree String Int) (exact : Int) (checks : List Check) : Prop where
  eval : t.eval = evaluation exact checks
  postorder : t.postorder = checks.map Check.rule

structure CheckedAll (ts : List (Tree String Int)) (exact : List Int) (checks : List Check) :
    Prop where
  evalAll : Tree.evalAll ts = evaluation exact checks
  postorderAll : Tree.postorderAll ts = checks.map Check.rule

theorem Checked.leaf (token : Token String Int) : Checked (.leaf token) token.value [] := ⟨rfl, rfl⟩

theorem CheckedAll.nil : CheckedAll [] [] [] := ⟨rfl, rfl⟩

theorem Checked.cons {t : Tree String Int} {ts : List (Tree String Int)} {n : Int} {ns : List Int}
    {first later : List Check} (here : Checked t n first) (others : CheckedAll ts ns later) :
    CheckedAll (t :: ts) (n :: ns) (first ++ later) where
  evalAll := by
    unfold Tree.evalAll
    rw [here.eval, others.evalAll, here.postorder]
    unfold evaluation
    rw [interruption?_append]
    cases interruption? first with
    | some i => rfl
    | none => cases interruption? later <;> rfl
  postorderAll := by
    unfold Tree.postorderAll
    rw [here.postorder, others.postorderAll, List.map_append]

def judged (overflow : Option Overflow) (exact : Int) : Except (Breakdown String Int) Int :=
  match overflow with
  | none => .ok exact
  | some operation => .error (.fault (.overflow operation))

theorem CheckedAll.node {children : List (Tree String Int)} {ns : List Int} {n : Int}
    {checks : List Check} {rule : Rule String Int} {overflow : Option Overflow}
    (all : CheckedAll children ns checks) (combined : rule.combine ns = judged overflow n) :
    Checked (.node rule children) n (checks ++ [⟨rule.id, overflow⟩]) where
  eval := by
    unfold Tree.eval
    rw [all.evalAll, all.postorderAll]
    unfold evaluation
    rw [interruption?_append]
    cases interruption? checks with
    | some i => rfl
    | none =>
      dsimp only
      rw [combined]
      cases overflow with
      | none => rfl
      | some operation =>
        simp only [judged, interruption?, Option.map_some, List.append_nil]
  postorder := by
    unfold Tree.postorder
    rw [all.postorderAll, List.map_append]
    rfl

def rule (index : Fin 8) : Rule String Int := grammar.rules.get index

theorem rule_mem (index : Fin 8) : rule index ∈ grammar.rules := List.get_mem grammar.rules index

theorem operation_judged {name : Overflow} {f : Int → Int → Option Int} {x y sign n : Int}
    (exact : f x y = Signed64.inRange? n) :
    ((operation name f).apply [x, sign, y]).mapError Breakdown.fault =
      (judged (overflow? name n) n : Except (Breakdown String Int) Int) := by
  have result : ∀ r, f x y = r → ((operation name f).apply [x, sign, y]).mapError Breakdown.fault =
      (r.elim (.error (.fault (.overflow name))) .ok : Except (Breakdown String Int) Int) := by
    intro r found
    have first : operand [x, sign, y] 0 = .ok x := rfl
    have third : operand [x, sign, y] 2 = .ok y := rfl
    simp only [operation, first, third, bind, Except.bind, found]
    cases r <;> rfl
  rw [result _ exact]
  unfold Signed64.inRange? overflow?
  by_cases inside : Signed64.InRange n
  · rw [if_pos inside, if_pos inside]
    rfl
  · rw [if_neg inside, if_neg inside]
    rfl

namespace Checked

variable {a b : Tree String Int} {x y n : Int} {xs ys : List Check}

theorem operation (left : Checked a x xs) (index : Fin 8) (right : Checked b y ys)
    {sign : Token String Int} {name : Overflow}
    (combined : (rule index).combine [x, sign.value, y] = judged (overflow? name n) n) :
    Checked (.node (rule index) [a, .leaf sign, b]) n
      (xs ++ ys ++ [⟨(rule index).id, overflow? name n⟩]) := by
  have children := left.cons ((Checked.leaf sign).cons (right.cons .nil))
  rw [List.append_nil, List.nil_append] at children
  exact children.node combined

theorem unit (inner : Checked a x xs) (index : Fin 8) (combined : (rule index).combine [x] = .ok x) :
    Checked (.node (rule index) [a]) x (xs ++ [⟨(rule index).id, none⟩]) := by
  have children := inner.cons .nil
  rw [List.append_nil] at children
  exact children.node combined

theorem grouped (inner : Checked a x xs) (opening closing : Token String Int) :
    Checked (.node (rule 7) [.leaf opening, a, .leaf closing]) x (xs ++ [⟨8, none⟩]) := by
  have children := (Checked.leaf opening).cons (inner.cons ((Checked.leaf closing).cons .nil))
  rw [List.append_nil, List.nil_append, List.append_nil] at children
  have combined : (rule 7).combine [opening.value, x, closing.value] = judged none x := rfl
  exact CheckedAll.node children combined

end Checked

namespace Derivation

variable {level : Level}

def tree : {level : Level} → Derivation level → Tree String Int
  | _, sum left sign right => .node (rule 0) [left.tree, .leaf sign.1, right.tree]
  | _, multiplicative inner => .node (rule 1) [inner.tree]
  | _, product left sign right => .node (rule 2) [left.tree, .leaf sign.1, right.tree]
  | _, power inner => .node (rule 3) [inner.tree]
  | _, raised base sign exponent => .node (rule 4) [base.tree, .leaf sign.1, exponent.tree]
  | _, primary inner => .node (rule 5) [inner.tree]
  | _, integer literal => .node (rule 6) [.leaf literal.1]
  | _, grouped opening inner closing =>
    .node (rule 7) [.leaf opening.1, inner.tree, .leaf closing.1]

theorem symbol_tree (d : Derivation level) : d.tree.symbol = level.symbol := by
  cases d <;> rfl

theorem derived_leaf {symbol : String} (token : Terminal symbol)
    (terminal : grammar.Terminal symbol) :
    (Tree.leaf token.1 : Tree String Int).Derived grammar := by
  refine .leaf ?_
  rw [token.2]
  exact terminal

theorem spelled_operation {left right : Level} {sign : String} {components : List String}
    (a : Derivation left) (token : Terminal sign) (b : Derivation right)
    (h : [left.symbol, sign, right.symbol] = components) :
    [a.tree.symbol, (Tree.leaf token.1 : Tree String Int).symbol, b.tree.symbol] = components := by
  rw [symbol_tree, symbol_tree, ← h]
  exact congrArg (fun x => [left.symbol, x, right.symbol]) token.2

theorem leaves_tree (d : Derivation level) : d.tree.leaves = d.tokens := by
  induction d with
  | integer literal => rfl
  | sum left sign right ihl ihr => simp [tree, tokens, Tree.leaves, Tree.leavesAll, ihl, ihr]
  | product left sign right ihl ihr => simp [tree, tokens, Tree.leaves, Tree.leavesAll, ihl, ihr]
  | raised base sign exponent ihl ihr =>
    simp [tree, tokens, Tree.leaves, Tree.leavesAll, ihl, ihr]
  | grouped opening inner closing ih => simp [tree, tokens, Tree.leaves, Tree.leavesAll, ih]
  | multiplicative inner ih => simp [tree, tokens, Tree.leaves, Tree.leavesAll, ih]
  | power inner ih => simp [tree, tokens, Tree.leaves, Tree.leavesAll, ih]
  | primary inner ih => simp [tree, tokens, Tree.leaves, Tree.leavesAll, ih]

theorem derived_tree (d : Derivation level) : d.tree.Derived grammar := by
  induction d with
  | sum left sign right ihl ihr =>
    exact .three (rule_mem 0) (spelled_operation left sign right rfl) ihl (derived_leaf sign (by decide)) ihr
  | product left sign right ihl ihr =>
    exact .three (rule_mem 2) (spelled_operation left sign right rfl) ihl (derived_leaf sign (by decide)) ihr
  | raised base sign exponent ihl ihr =>
    exact .three (rule_mem 4) (spelled_operation base sign exponent rfl) ihl (derived_leaf sign (by decide)) ihr
  | multiplicative inner ih => exact .one (rule_mem 1) (congrArg (fun x => [x]) inner.symbol_tree) ih
  | power inner ih => exact .one (rule_mem 3) (congrArg (fun x => [x]) inner.symbol_tree) ih
  | primary inner ih => exact .one (rule_mem 5) (congrArg (fun x => [x]) inner.symbol_tree) ih
  | integer literal =>
    exact .one (rule_mem 6) (congrArg (fun x => [x]) literal.2) (derived_leaf literal (by decide))
  | grouped opening inner closing ih =>
    refine .three (rule_mem 7) ?_ (derived_leaf opening (by decide)) ih (derived_leaf closing (by decide))
    rw [inner.symbol_tree, Tree.symbol, Tree.symbol, opening.2, closing.2]
    rfl

theorem checked_tree (d : Derivation level) : Checked d.tree d.value d.checks := by
  induction d with
  | sum left sign right ihl ihr => exact ihl.operation 0 ihr (operation_judged rfl)
  | product left sign right ihl ihr => exact ihl.operation 2 ihr (operation_judged rfl)
  | raised base sign exponent ihl ihr =>
    exact ihl.operation 4 ihr (operation_judged (Signed64.pow?_eq _ _))
  | multiplicative inner ih => exact ih.unit 1 rfl
  | power inner ih => exact ih.unit 3 rfl
  | primary inner ih => exact ih.unit 5 rfl
  | integer literal => exact (Checked.leaf literal.1).unit 6 rfl
  | grouped opening inner closing ih => exact ih.grouped opening.1 closing.1

end Derivation

theorem Level.not_terminal (level : Level) : ¬ grammar.Terminal level.symbol := by
  cases level <;> decide

theorem Level.symbol_injective {a b : Level} (same : a.symbol = b.symbol) : a = b := by
  cases a <;> cases b <;> first | rfl | exact absurd same (by decide)

section Inversion

variable {children : List (Tree String Int)}

theorem terminal_child {t : Tree String Int} (derived : t.Derived grammar) {symbol : String}
    (root : t.symbol = symbol) (terminal : grammar.Terminal symbol) :
    ∃ token : Terminal symbol, t = .leaf token.1 := by
  obtain ⟨token, rfl⟩ := derived.leaf_of_terminal (by rw [root]; exact terminal)
  exact ⟨⟨token, root⟩, rfl⟩

theorem operation_children {left right : Level} {sign : String}
    (spelled : children.map Tree.symbol = [left.symbol, sign, right.symbol])
    (derived : ∀ child ∈ children, child.Derived grammar) (terminal : grammar.Terminal sign)
    (read : ∀ child ∈ children, ∀ {level : Level}, child.symbol = level.symbol →
      ∃ d : Derivation level, d.tree = child) :
    ∃ (a : Derivation left) (token : Terminal sign) (b : Derivation right),
      [a.tree, .leaf token.1, b.tree] = children := by
  obtain ⟨x, y, z, rfl, first, second, third⟩ := Tree.exists_three spelled
  obtain ⟨a, rfl⟩ := read x (by simp) first
  obtain ⟨token, rfl⟩ := terminal_child (derived y (by simp)) second terminal
  obtain ⟨b, rfl⟩ := read z (by simp) third
  exact ⟨a, token, b, rfl⟩

theorem unit_child {inner : Level} (spelled : children.map Tree.symbol = [inner.symbol])
    (read : ∀ child ∈ children, ∀ {level : Level}, child.symbol = level.symbol →
      ∃ d : Derivation level, d.tree = child) :
    ∃ a : Derivation inner, [a.tree] = children := by
  obtain ⟨x, rfl, root⟩ := List.map_eq_singleton_iff.1 spelled
  obtain ⟨a, rfl⟩ := read x (by simp) root
  exact ⟨a, rfl⟩

end Inversion

theorem exists_derivation {t : Tree String Int} (derived : t.Derived grammar) {level : Level}
    (root : t.symbol = level.symbol) : ∃ d : Derivation level, d.tree = t := by
  induction derived generalizing level with
  | leaf terminal => exact absurd (root ▸ terminal) level.not_terminal
  | @node r children member spelled derived ih =>
    obtain ⟨index, rfl⟩ : ∃ index, rule index = r := List.mem_iff_get.1 member
    -- the rule fixes the level and the shape of the children
    match index with
    | 0 =>
      obtain rfl : Level.additive = level := Level.symbol_injective root
      obtain ⟨a, sign, b, rfl⟩ := @operation_children _ .additive .multiplicative _ spelled derived
        (by decide) ih
      exact ⟨.sum a sign b, rfl⟩
    | 1 =>
      obtain rfl : Level.additive = level := Level.symbol_injective root
      obtain ⟨a, rfl⟩ := @unit_child _ .multiplicative spelled ih
      exact ⟨.multiplicative a, rfl⟩
    | 2 =>
      obtain rfl : Level.multiplicative = level := Level.symbol_injective root
      obtain ⟨a, sign, b, rfl⟩ := @operation_children _ .multiplicative .power _ spelled derived
        (by decide) ih
      exact ⟨.product a sign b, rfl⟩
    | 3 =>
      obtain rfl : Level.multiplicative = level := Level.symbol_injective root
      obtain ⟨a, rfl⟩ := @unit_child _ .power spelled ih
      exact ⟨.power a, rfl⟩
    | 4 =>
      obtain rfl : Level.power = level := Level.symbol_injective root
      obtain ⟨a, sign, b, rfl⟩ := @operation_children _ .primary .power _ spelled derived
        (by decide) ih
      exact ⟨.raised a sign b, rfl⟩
    | 5 =>
      obtain rfl : Level.power = level := Level.symbol_injective root
      obtain ⟨a, rfl⟩ := @unit_child _ .primary spelled ih
      exact ⟨.primary a, rfl⟩
    | 6 =>
      obtain rfl : Level.primary = level := Level.symbol_injective root
      obtain ⟨x, rfl, literal⟩ := List.map_eq_singleton_iff.1 spelled
      obtain ⟨token, rfl⟩ := terminal_child (derived x (by simp)) literal (by decide)
      exact ⟨.integer token, rfl⟩
    | 7 =>
      obtain rfl : Level.primary = level := Level.symbol_injective root
      obtain ⟨x, y, z, rfl, left, inner, right⟩ := Tree.exists_three spelled
      obtain ⟨opening, rfl⟩ := terminal_child (derived x (by simp)) left (by decide)
      obtain ⟨a, rfl⟩ := @ih y (by simp) .additive inner
      obtain ⟨closing, rfl⟩ := terminal_child (derived z (by simp)) right (by decide)
      exact ⟨.grouped opening a closing, rfl⟩

theorem node_three_inj {r r' : Rule String Int} {a b c a' b' c' : Tree String Int}
    (same : Tree.node r [a, b, c] = .node r' [a', b', c']) : a = a' ∧ b = b' ∧ c = c' := by
  injection same with _ children
  injection children with first children
  injection children with second children
  injection children with third
  exact ⟨first, second, third⟩

theorem node_one_inj {r r' : Rule String Int} {a a' : Tree String Int}
    (same : Tree.node r [a] = .node r' [a']) : a = a' := by
  injection same with _ children
  injection children

theorem terminal_inj {symbol : String} {a b : Terminal symbol}
    (same : (Tree.leaf a.1 : Tree String Int) = .leaf b.1) : a = b :=
  Subtype.ext (Tree.leaf.inj same)

theorem Derivation.tree_injective {level : Level} {d e : Derivation level}
    (same : d.tree = e.tree) : d = e := by
  induction d with
  | sum left sign right ihl ihr =>
    cases e with
    | sum =>
      obtain ⟨first, token, second⟩ := node_three_inj same
      rw [ihl first, terminal_inj token, ihr second]
    | multiplicative => simp [tree] at same
  | multiplicative inner ih =>
    cases e with
    | sum => simp [tree] at same
    | multiplicative => rw [ih (node_one_inj same)]
  | product left sign right ihl ihr =>
    cases e with
    | product =>
      obtain ⟨first, token, second⟩ := node_three_inj same
      rw [ihl first, terminal_inj token, ihr second]
    | power => simp [tree] at same
  | power inner ih =>
    cases e with
    | product => simp [tree] at same
    | power => rw [ih (node_one_inj same)]
  | raised base sign exponent ihl ihr =>
    cases e with
    | raised =>
      obtain ⟨first, token, second⟩ := node_three_inj same
      rw [ihl first, terminal_inj token, ihr second]
    | primary => simp [tree] at same
  | primary inner ih =>
    cases e with
    | raised => simp [tree] at same
    | primary => rw [ih (node_one_inj same)]
  | integer literal =>
    cases e with
    | integer => rw [terminal_inj (node_one_inj same)]
    | grouped => simp [tree] at same
  | grouped opening inner closing ih =>
    cases e with
    | integer => simp [tree] at same
    | grouped =>
      obtain ⟨left, contents, right⟩ := node_three_inj same
      rw [terminal_inj left, ih contents, terminal_inj right]

def certificate : Certificate String where
  kernel state :=
    [[], [(7, 1)], [(8, 1)], [(1, 1)], [(2, 1), (3, 1)], [(4, 1)], [(5, 1), (6, 1)],
      [(8, 2), (1, 1)], [(1, 2)], [(3, 2)], [(5, 2)], [(8, 3)], [(1, 3), (3, 1)], [(3, 3)],
      [(5, 3)]].getD state []
  first _ := [some "INT", some "("]
  follow state
    | "Additive" => if state = 0 then ["$eof", "+"] else [")", "+"]
    | "Primary" => ["$eof", ")", "+", "*", "**"]
    | _ => ["$eof", ")", "+", "*"]
  weight
    | "INT" => 4
    | ")" => 4
    | "Primary" => 3
    | "Power" => 2
    | "Multiplicative" => 1
    | _ => 0
  bound := 4

theorem certified : parser.Certified certificate endSymbol where
  coherent := by decide +kernel
  complete := by decide +kernel
  weighs :=
    { light := by
        intro symbol
        dsimp only [certificate]
        split <;> decide
      rule := by decide }

theorem tokens_injective {d e : Derivation .additive} (same : d.tokens = e.tokens) : d = e := by
  refine Derivation.tree_injective ?_
  refine certified.complete.unambiguous d.derived_tree e.derived_tree d.symbol_tree e.symbol_tree ?_
  rw [d.leaves_tree, e.leaves_tree, same]

theorem eval_tree_eq_ok {level : Level} {d : Derivation level} {v : Int} :
    d.tree.eval = .ok v ↔ WithinRange d.checks ∧ d.value = v := by
  rw [d.checked_tree.eval, ← interruption?_eq_none_iff]
  unfold evaluation
  cases interruption? d.checks with
  | none => simp
  | some i => simp

section Parse

variable {E : Type} {ts : List (Token String Int)} {d : Derivation .additive}

theorem room {w : List (Token String Int)} {items : List (Except E (Token String Int))}
    (fewer : w.length ≤ items.length) :
    (certificate.bound * w.length : Int) <
      (4 * items.length + 1 : Nat) + certificate.weight grammar.start := by
  have light : certificate.weight grammar.start = 0 := rfl
  have four : certificate.bound = 4 := rfl
  rw [light, four]
  omega

theorem parse_value_iff {v : Int} :
    (parse (E := E) parser (ts.map .ok)).outcome = .value v ↔
      (∃ token ∈ ts, token.symbol = endSymbol) ∧ ∃ d : Derivation .additive,
        d.tokens = tokensBefore endSymbol ts ∧ WithinRange d.checks ∧ d.value = v := by
  unfold parse
  rw [certified.run_tokens_iff rfl ts (room (Nat.le_of_eq (List.length_map _).symm))]
  refine and_congr_right fun _ => ?_
  constructor
  · rintro ⟨t, derived, root, leaves, evaluated⟩
    obtain ⟨d, rfl⟩ := @exists_derivation t derived .additive root
    exact ⟨d, d.leaves_tree.symm.trans leaves, eval_tree_eq_ok.1 evaluated⟩
  · rintro ⟨d, tokens, evaluated⟩
    exact ⟨d.tree, d.derived_tree, d.symbol_tree, d.leaves_tree.trans tokens,
      eval_tree_eq_ok.2 evaluated⟩

theorem parse_overflow {before after : List Check} {rule : Nat} {operation : Overflow}
    (ended : ∃ token ∈ ts, token.symbol = endSymbol)
    (tokens : d.tokens = tokensBefore endSymbol ts)
    (split : d.checks = before ++ ⟨rule, some operation⟩ :: after) (within : WithinRange before) :
    (parse (E := E) parser (ts.map .ok)).outcome = .fault (.overflow operation) ∧
      (parse (E := E) parser (ts.map .ok)).reductions = before.map Check.rule := by
  obtain ⟨rest, items, look⟩ := Parser.tokensBefore_split (E := E) parser ended
  have fewer : d.tree.leaves.length ≤ (ts.map .ok : List (Except E (Token String Int))).length := by
    rw [d.leaves_tree, tokens, List.length_map]
    exact Parser.tokensBefore_length_le endSymbol ts
  have run := certified.run_of_derived d.derived_tree d.symbol_tree look (room fewer)
  rw [d.checked_tree.eval, evaluation, split, interruption?_first within] at run
  rw [d.leaves_tree, tokens, ← items] at run
  exact run

/-- The parser accepts exactly the sentences before the end symbol, each of which has one
derivation, with the value of the derivation if no node is out of range; the first node out of
range is where it stops. -/
theorem parse_computes_derivation (ts : List (Token String Int)) :
    (∀ v, (parse (E := E) parser (ts.map .ok)).outcome = .value v ↔
      (∃ token ∈ ts, token.symbol = endSymbol) ∧ ∃ d : Derivation .additive,
        d.tokens = tokensBefore endSymbol ts ∧ WithinRange d.checks ∧ d.value = v) ∧
    (∀ (d : Derivation .additive) before rule operation after,
      (∃ token ∈ ts, token.symbol = endSymbol) → d.tokens = tokensBefore endSymbol ts →
      d.checks = before ++ ⟨rule, some operation⟩ :: after → WithinRange before →
      (parse (E := E) parser (ts.map .ok)).outcome = .fault (.overflow operation) ∧
        (parse (E := E) parser (ts.map .ok)).reductions = before.map Check.rule) ∧
    ∀ d e : Derivation .additive, d.tokens = e.tokens → d = e := by
  refine ⟨fun v => parse_value_iff, ?_, fun d e => tokens_injective⟩
  intro d before rule operation after ended tokens split within
  exact parse_overflow ended tokens split within

end Parse

end ShiftReduce.Arithmetic
