import ShiftReduce.Calculator.Grammar
import ShiftReduce.Proofs.Recognition
import ShiftReduce.Proofs.Term
/-!
The calculator's parser accepts exactly the flattenings of the trees that respect the levels of
its grammar, and rebuilds each of them. A derivation tree stands for such a tree, which can be read
off it, and each such tree has a derivation tree over the tokens that spell it.
-/
namespace ShiftReduce.Calculator

def certificate : Certificate Symbol where
  kernel state :=
    [[], [(9, 1)], [(10, 1)], [(1, 1), (2, 1)], [(3, 1), (4, 1), (5, 1)], [(6, 1)],
      [(7, 1), (8, 1)], [(10, 2), (1, 1), (2, 1)], [(1, 2)], [(4, 2)], [(7, 2)], [(10, 3)],
      [(1, 3), (4, 1), (5, 1)], [(4, 3)], [(7, 3)], [(2, 2)], [(5, 2)],
      [(2, 3), (4, 1), (5, 1)], [(5, 3)]].getD state []
  first _ := [some .int, some .leftParen]
  follow state
    | .additive =>
      if state = 0 then [.endOfInput, .plus, .minus] else [.rightParen, .plus, .minus]
    | .primary => afterPrimary
    | _ => afterPower
  weight
    | .int => 4
    | .rightParen => 4
    | .primary => 3
    | .power => 2
    | .multiplicative => 1
    | _ => 0
  bound := 4

theorem certified : parser.Certified certificate .endOfInput where
  coherent := by decide +kernel
  complete := by decide +kernel
  weighs :=
    { light := by
        intro symbol
        cases symbol <;> decide
      rule := by decide }

inductive Level where
  | additive
  | multiplicative
  | power
  | primary

def Level.symbol : Level → Symbol
  | .additive => .additive
  | .multiplicative => .multiplicative
  | .power => .power
  | .primary => .primary

namespace Operator

def symbol : Operator → Symbol
  | .add => .plus
  | .sub => .minus
  | .mul => .star
  | .div => .slash
  | .pow => .starStar

def level : Operator → Level
  | .add | .sub => .additive
  | .mul | .div => .multiplicative
  | .pow => .power

/-- The levels of the operands: all operators but `**` are left-associative. -/
def left : Operator → Level
  | .pow => .primary
  | op => op.level

def right : Operator → Level
  | .add | .sub => .multiplicative
  | .mul | .div | .pow => .power

def index : Operator → Fin 10
  | .add => 0
  | .sub => 1
  | .mul => 3
  | .div => 4
  | .pow => 6

end Operator

inductive Shaped : Level → Term → Prop where
  | operation {op : Operator} {left right : Term} (leftShaped : Shaped op.left left)
      (rightShaped : Shaped op.right right) : Shaped op.level (.operation op left right)
  | multiplicative {t : Term} (inner : Shaped .multiplicative t) : Shaped .additive t
  | power {t : Term} (inner : Shaped .power t) : Shaped .multiplicative t
  | primary {t : Term} (inner : Shaped .primary t) : Shaped .power t
  | num (n : Int) : Shaped .primary (.leaf (.num n))
  | group {t : Term} (inner : Shaped .additive t) : Shaped .primary (.group t)

def Term.spelling : Term → List (Symbol × Expr)
  | .leaf l => [(.int, l.expr)]
  | .operation op left right => left.spelling ++ (op.symbol, .punct) :: right.spelling
  | .group inner => (.leftParen, .punct) :: inner.spelling ++ [(.rightParen, .punct)]

def spelled (token : Token Symbol Expr) : Symbol × Expr := (token.symbol, token.value)

/-- Integers carry numbers and punctuation carries no value, and there is no end symbol. -/
structure Lexed (token : Token Symbol Expr) : Prop where
  int : token.symbol = .int → ∃ n, token.value = .num n
  punct : token.symbol ∈ [.leftParen, .rightParen, .plus, .minus, .star, .slash, .starStar] →
    token.value = .punct
  proper : token.symbol ≠ .endOfInput

def rule (index : Fin 10) : Rule Symbol Expr := grammar.rules.get index

theorem rule_mem (index : Fin 10) : rule index ∈ grammar.rules := List.get_mem grammar.rules index

theorem rule_index (op : Operator) : rule op.index =
    ⟨⟨op.level.symbol, [op.left.symbol, op.symbol, op.right.symbol]⟩, op.index + 1,
      some (operation op)⟩ := by
  cases op <;> rfl

def operator? (id : Nat) : Option Operator :=
  [Operator.add, .sub, .mul, .div, .pow].find? fun op => op.index + 1 = id

mutual

def termOf : Tree Symbol Expr → Term
  | .leaf token =>
    match token.value with
    | .num n => .leaf (.num n)
    | _ => .leaf .punct
  | .node rule children =>
    match termsOf children with
    | [inner] => inner
    | [left, middle, right] =>
      match operator? rule.id with
      | some op => .operation op left right
      | none => .group middle
    | _ => .leaf .error

def termsOf : List (Tree Symbol Expr) → List Term
  | [] => []
  | child :: children => termOf child :: termsOf children

end

structure Phrase (level : Level) (t : Tree Symbol Expr) (term : Term) : Prop where
  derived : t.Derived grammar
  root : t.symbol = level.symbol
  leaves : t.leaves.map spelled = term.spelling
  shaped : Shaped level term
  eval : t.eval = .ok term.limited
  term : termOf t = term

theorem terminal_symbol (op : Operator) : grammar.Terminal op.symbol := by
  cases op <;> decide

theorem operator?_rule (op : Operator) : operator? (rule op.index).id = some op := by
  cases op <;> rfl

namespace Phrase

variable {level : Level} {t u : Tree Symbol Expr} {a b : Term}

theorem operation {op : Operator} {sign : Token Symbol Expr} (left : Phrase op.left t a)
    (symbol : spelled sign = (op.symbol, .punct)) (right : Phrase op.right u b) :
    Phrase op.level (.node (rule op.index) [t, .leaf sign, u]) (.operation op a b) where
  derived := by
    have named : sign.symbol = op.symbol := congrArg Prod.fst symbol
    refine .three (rule_mem op.index) ?_ left.derived (.leaf ?_) right.derived
    · rw [left.root, right.root, Tree.symbol, named, rule_index]
    · rw [named]
      exact terminal_symbol op
  root := by rw [Tree.symbol, rule_index]
  leaves := by
    simp only [Tree.leaves, Tree.leavesAll, List.map_append, List.map_cons, left.leaves, symbol,
      right.leaves, List.append_nil, List.singleton_append, Term.spelling]
  shaped := .operation left.shaped right.shaped
  eval := by
    have value : sign.value = .punct := congrArg Prod.snd symbol
    have children : Tree.evalAll [t, .leaf sign, u] = .ok [a.limited, .punct, b.limited] := by
      simp only [Tree.evalAll, Tree.eval, left.eval, right.eval, value]
    refine Tree.eval_node children ?_
    have built : counted (Expr.binary? op a.limited b.limited) =
        .ok (Term.operation op a b).limited := by
      rw [Term.binary?_limited]
      rfl
    rw [rule_index]
    exact congrArg (Except.mapError Breakdown.fault) built
  term := by
    simp only [termOf, termsOf, left.term, right.term, operator?_rule]

theorem unit {inner : Level} (index : Fin 10) (phrase : Phrase inner t a)
    (shape : rule index = ⟨⟨level.symbol, [inner.symbol]⟩, index + 1, none⟩)
    (shaped : Shaped level a) : Phrase level (.node (rule index) [t]) a where
  derived := by
    refine .one (rule_mem index) ?_ phrase.derived
    rw [phrase.root, shape]
  root := by rw [Tree.symbol, shape]
  leaves := by
    rw [Tree.leaves, Tree.leavesAll_singleton]
    exact phrase.leaves
  shaped := shaped
  eval := by
    have children : Tree.evalAll [t] = .ok [a.limited] := by
      simp only [Tree.evalAll, phrase.eval]
    refine Tree.eval_node children ?_
    rw [shape]
    rfl
  term := by
    simp only [termOf, termsOf, phrase.term]

theorem num {token : Token Symbol Expr} {n : Int} (int : spelled token = (.int, .num n)) :
    Phrase .primary (.node (rule 8) [.leaf token]) (.leaf (.num n)) where
  derived := by
    have symbol : token.symbol = .int := congrArg Prod.fst int
    refine .one (rule_mem 8) (congrArg (fun x => [x]) symbol) (.leaf ?_)
    rw [symbol]
    decide
  root := rfl
  leaves := congrArg (fun x => [x]) int
  shaped := .num n
  eval := by
    have value : token.value = .num n := congrArg Prod.snd int
    exact congrArg Except.ok value
  term := by
    have value : token.value = .num n := congrArg Prod.snd int
    simp only [termOf, termsOf, value]

theorem group {opening closing : Token Symbol Expr} (left : spelled opening = (.leftParen, .punct))
    (inner : Phrase .additive t a) (right : spelled closing = (.rightParen, .punct)) :
    Phrase .primary (.node (rule 9) [.leaf opening, t, .leaf closing]) (.group a) where
  derived := by
    have first : opening.symbol = .leftParen := congrArg Prod.fst left
    have last : closing.symbol = .rightParen := congrArg Prod.fst right
    refine .three (rule_mem 9) ?_ (.leaf ?_) inner.derived (.leaf ?_)
    · rw [Tree.symbol, Tree.symbol, first, inner.root, last]
      rfl
    · rw [first]
      decide
    · rw [last]
      decide
  root := rfl
  leaves := by
    simp [Tree.leaves, Tree.leavesAll, inner.leaves, left, right, Term.spelling]
  shaped := .group inner.shaped
  eval := by
    have first : opening.value = .punct := congrArg Prod.snd left
    have last : closing.value = .punct := congrArg Prod.snd right
    have children : Tree.evalAll [.leaf opening, t, .leaf closing] =
        .ok [.punct, a.limited, .punct] := by
      simp only [Tree.evalAll, Tree.eval, inner.eval, first, last]
    have built : counted a.limited.paren? = .ok (Term.group a).limited := by
      rw [Term.paren?_limited]
      rfl
    exact Tree.eval_node children (congrArg (Except.mapError Breakdown.fault) built)
  term := by
    have none : operator? (rule 9).id = none := rfl
    simp only [termOf, termsOf, inner.term, none]

end Phrase

theorem Level.symbol_injective {a b : Level} (same : a.symbol = b.symbol) : a = b := by
  cases a <;> cases b <;> first | rfl | exact absurd same (by decide)

theorem Level.not_terminal (level : Level) : ¬ grammar.Terminal level.symbol := by
  cases level <;> decide

theorem Lexed.spelled_punct {token : Token Symbol Expr} (lexed : Lexed token) {symbol : Symbol}
    (named : token.symbol = symbol)
    (punct : symbol ∈ [.leftParen, .rightParen, .plus, .minus, .star, .slash, .starStar]) :
    spelled token = (symbol, .punct) := by
  have value := lexed.punct (by rw [named]; exact punct)
  rw [spelled, named, value]

theorem Operator.symbol_punct (op : Operator) :
    op.symbol ∈ [.leftParen, .rightParen, .plus, .minus, .star, .slash, .starStar] := by
  cases op <;> decide

section Reading

variable {children : List (Tree Symbol Expr)}

theorem exists_operation (op : Operator)
    (components : children.map Tree.symbol = [op.left.symbol, op.symbol, op.right.symbol])
    (derived : ∀ child ∈ children, child.Derived grammar)
    (lexed : ∀ token ∈ Tree.leavesAll children, Lexed token)
    (read : ∀ child ∈ children, ∀ {level : Level}, (∀ token ∈ child.leaves, Lexed token) →
      child.symbol = level.symbol → ∃ term, Phrase level child term) :
    ∃ term, Phrase op.level (.node (rule op.index) children) term := by
  obtain ⟨x, y, z, rfl, first, second, third⟩ := Tree.exists_three components
  obtain ⟨sign, rfl⟩ := (derived y (by simp)).leaf_of_terminal
    (by rw [second]; exact terminal_symbol op)
  obtain ⟨a, left⟩ := read x (by simp)
    (fun token member => lexed token (by simp [Tree.leavesAll, member])) first
  obtain ⟨b, right⟩ := read z (by simp)
    (fun token member => lexed token (by simp [Tree.leavesAll, member])) third
  have symbol := (lexed sign (by simp [Tree.leavesAll, Tree.leaves])).spelled_punct second
    op.symbol_punct
  exact ⟨_, left.operation symbol right⟩

theorem exists_unit {inner : Level}
    (components : children.map Tree.symbol = [inner.symbol])
    (lexed : ∀ token ∈ Tree.leavesAll children, Lexed token)
    (read : ∀ child ∈ children, ∀ {level : Level}, (∀ token ∈ child.leaves, Lexed token) →
      child.symbol = level.symbol → ∃ term, Phrase level child term) :
    ∃ child term, children = [child] ∧ Phrase inner child term := by
  obtain ⟨x, rfl, root⟩ := List.map_eq_singleton_iff.1 components
  obtain ⟨a, phrase⟩ := read x (by simp)
    (fun token member => lexed token (by simp [Tree.leavesAll, member])) root
  exact ⟨x, a, rfl, phrase⟩

end Reading

theorem exists_phrase {t : Tree Symbol Expr} (derived : t.Derived grammar)
    (lexed : ∀ token ∈ t.leaves, Lexed token) {level : Level} (root : t.symbol = level.symbol) :
    ∃ term, Phrase level t term := by
  induction derived generalizing level with
  | leaf terminal => exact absurd (root ▸ terminal) level.not_terminal
  | @node r children member components derived ih =>
    have read : ∀ child ∈ children, ∀ {level : Level}, (∀ token ∈ child.leaves, Lexed token) →
        child.symbol = level.symbol → ∃ term, Phrase level child term :=
      fun child inside _ lexed root => ih child inside lexed root
    obtain ⟨index, rfl⟩ : ∃ index, rule index = r := List.mem_iff_get.1 member
    -- the rule fixes the level and the shape of the children
    match index with
    | 0 =>
      obtain rfl : Level.additive = level := Level.symbol_injective root
      exact exists_operation .add components derived lexed read
    | 1 =>
      obtain rfl : Level.additive = level := Level.symbol_injective root
      exact exists_operation .sub components derived lexed read
    | 2 =>
      obtain rfl : Level.additive = level := Level.symbol_injective root
      obtain ⟨_, _, rfl, phrase⟩ := @exists_unit _ .multiplicative components lexed read
      exact ⟨_, phrase.unit 2 rfl (.multiplicative phrase.shaped)⟩
    | 3 =>
      obtain rfl : Level.multiplicative = level := Level.symbol_injective root
      exact exists_operation .mul components derived lexed read
    | 4 =>
      obtain rfl : Level.multiplicative = level := Level.symbol_injective root
      exact exists_operation .div components derived lexed read
    | 5 =>
      obtain rfl : Level.multiplicative = level := Level.symbol_injective root
      obtain ⟨_, _, rfl, phrase⟩ := @exists_unit _ .power components lexed read
      exact ⟨_, phrase.unit 5 rfl (.power phrase.shaped)⟩
    | 6 =>
      obtain rfl : Level.power = level := Level.symbol_injective root
      exact exists_operation .pow components derived lexed read
    | 7 =>
      obtain rfl : Level.power = level := Level.symbol_injective root
      obtain ⟨_, _, rfl, phrase⟩ := @exists_unit _ .primary components lexed read
      exact ⟨_, phrase.unit 7 rfl (.primary phrase.shaped)⟩
    | 8 =>
      obtain rfl : Level.primary = level := Level.symbol_injective root
      obtain ⟨x, rfl, symbol⟩ := List.map_eq_singleton_iff.1 components
      obtain ⟨token, rfl⟩ := (derived x (by simp)).leaf_of_terminal (by rw [symbol]; decide)
      obtain ⟨n, value⟩ := (lexed token (by simp [Tree.leaves, Tree.leavesAll])).int symbol
      exact ⟨_, .num (n := n) (Prod.ext symbol value)⟩
    | 9 =>
      obtain rfl : Level.primary = level := Level.symbol_injective root
      obtain ⟨x, y, z, rfl, first, second, third⟩ := Tree.exists_three components
      obtain ⟨opening, rfl⟩ := (derived x (by simp)).leaf_of_terminal (by rw [first]; decide)
      obtain ⟨closing, rfl⟩ := (derived z (by simp)).leaf_of_terminal (by rw [third]; decide)
      have left := (lexed opening (by simp [Tree.leaves, Tree.leavesAll])).spelled_punct first
        (by decide)
      have right := (lexed closing (by simp [Tree.leaves, Tree.leavesAll])).spelled_punct third
        (by decide)
      obtain ⟨a, inner⟩ := @ih y (by simp)
        (fun token member => lexed token (by simp [Tree.leaves, Tree.leavesAll, member]))
        .additive second
      exact ⟨_, .group left inner right⟩

theorem exists_derivation {level : Level} {term : Term} (shaped : Shaped level term)
    {w : List (Token Symbol Expr)} (spells : w.map spelled = term.spelling) :
    ∃ t, Phrase level t term ∧ t.leaves = w := by
  induction shaped generalizing w with
  | @operation op left right _ _ ihl ihr =>
    obtain ⟨u, v, rfl, first, later⟩ := List.map_eq_append_iff.1 spells
    obtain ⟨sign, rest, rfl, symbol, last⟩ := List.map_eq_cons_iff.1 later
    obtain ⟨a, left, readLeft⟩ := ihl first
    obtain ⟨b, right, readRight⟩ := ihr last
    refine ⟨_, left.operation symbol right, ?_⟩
    simp only [Tree.leaves, Tree.leavesAll, readLeft, readRight, List.append_nil,
      List.singleton_append]
  | multiplicative shaped ih =>
    obtain ⟨t, phrase, read⟩ := ih spells
    exact ⟨_, phrase.unit 2 rfl (.multiplicative shaped), by rw [← read]; exact List.append_nil _⟩
  | power shaped ih =>
    obtain ⟨t, phrase, read⟩ := ih spells
    exact ⟨_, phrase.unit 5 rfl (.power shaped), by rw [← read]; exact List.append_nil _⟩
  | primary shaped ih =>
    obtain ⟨t, phrase, read⟩ := ih spells
    exact ⟨_, phrase.unit 7 rfl (.primary shaped), by rw [← read]; exact List.append_nil _⟩
  | num n =>
    obtain ⟨token, rfl, symbol⟩ := List.map_eq_singleton_iff.1 spells
    exact ⟨_, .num symbol, rfl⟩
  | group shaped ih =>
    obtain ⟨u, v, rfl, first, last⟩ := List.map_eq_append_iff.1 spells
    obtain ⟨opening, inside, rfl, left, middle⟩ := List.map_eq_cons_iff.1 first
    obtain ⟨closing, rfl, right⟩ := List.map_eq_singleton_iff.1 last
    obtain ⟨t, phrase, read⟩ := ih middle
    refine ⟨_, .group left phrase right, ?_⟩
    simp only [Tree.leaves, Tree.leavesAll, read, List.append_nil, List.nil_append,
      List.cons_append]

theorem exists_tokens (spelling : List (Symbol × Expr)) :
    ∃ w : List (Token Symbol Expr), w.map spelled = spelling := by
  refine ⟨spelling.map fun s => ⟨s.1, s.2, none⟩, ?_⟩
  rw [List.map_map]
  exact List.map_id spelling

theorem spelling_injective {t u : Term} (left : Shaped .additive t) (right : Shaped .additive u)
    (same : t.spelling = u.spelling) : t = u := by
  obtain ⟨w, spells⟩ := exists_tokens t.spelling
  obtain ⟨x, first, readFirst⟩ := exists_derivation left spells
  obtain ⟨y, second, readSecond⟩ := exists_derivation right (spells.trans same)
  have one := certified.complete.unambiguous first.derived second.derived first.root second.root
    (readFirst.trans readSecond.symm)
  rw [← first.term, ← second.term, one]

section Parse

variable {E : Type} {ts : List (Token Symbol Expr)}

theorem parse_value_iff (lexed : ∀ token ∈ ts, Lexed token) {e : Expr} :
    (parseItems (E := E) (ts.map .ok)).outcome = .value e ↔
      ∃ t, Shaped .additive t ∧ t.spelling = ts.map spelled ∧ t.rebuild = some e := by
  have proper : ∀ token ∈ ts, token.symbol ≠ .endOfInput := fun token member =>
    (lexed token member).proper
  have look : parser.lookahead? ([] : List (Except E (Token Symbol Expr))) = some .endOfInput := rfl
  have room : (certificate.bound * ts.length : Int) <
      (4 * (ts.map .ok : List (Except E (Token Symbol Expr))).length + 1 : Nat) +
        certificate.weight grammar.start := by
    have light : certificate.weight grammar.start = 0 := rfl
    have four : certificate.bound = 4 := rfl
    rw [light, four, List.length_map]
    omega
  have run := @Parser.Certified.run_value_iff _ _ _ _ _ _ _ _ certified _ proper look _ room e
  rw [List.append_nil] at run
  refine run.trans ⟨?_, ?_⟩
  · rintro ⟨t, derived, root, rfl, evaluated⟩
    obtain ⟨term, phrase⟩ := @exists_phrase t derived lexed .additive root
    refine ⟨term, phrase.shaped, phrase.leaves.symm, ?_⟩
    rw [phrase.eval] at evaluated
    rw [term.rebuild_eq_limited, Except.ok.inj evaluated]
  · rintro ⟨term, shaped, spells, built⟩
    obtain ⟨t, phrase, leaves⟩ := exists_derivation shaped spells.symm
    refine ⟨t, phrase.derived, phrase.root, leaves, ?_⟩
    rw [term.rebuild_eq_limited] at built
    rw [phrase.eval, Option.some.inj built]

/-- The parser accepts exactly the flattenings of the trees that respect the levels, each of one
tree only, and rebuilds that tree: the tree itself with its depths, unless it is too deep. -/
theorem parse_rebuilds_tree (ts : List (Token Symbol Expr)) (lexed : ∀ token ∈ ts, Lexed token) :
    (∀ e, (parseItems (E := E) (ts.map .ok)).outcome = .value e ↔
      ∃ t, Shaped .additive t ∧ t.spelling = ts.map spelled ∧ t.rebuild = some e) ∧
    (∀ t : Term, t.rebuild = some (if t.height ≤ maxDepth then t.stored else .tooDeep)) ∧
    ∀ t u, Shaped .additive t → Shaped .additive u → t.spelling = ts.map spelled →
      u.spelling = ts.map spelled → t = u := by
  refine ⟨fun e => parse_value_iff lexed, Term.rebuild_eq_limited, ?_⟩
  intro t u left right first second
  exact spelling_injective left right (first.trans second.symm)

def oneMinusTwo : List (Token Symbol Expr) :=
  [⟨.int, .num 1, none⟩, ⟨.minus, .punct, none⟩, ⟨.int, .num 2, none⟩]

theorem one_minus_two_lexed : ∀ token ∈ oneMinusTwo, Lexed token := by
  intro token member
  simp only [oneMinusTwo, List.mem_cons, List.not_mem_nil, or_false] at member
  rcases member with rfl | rfl | rfl
  · exact ⟨fun _ => ⟨1, rfl⟩, fun punct => absurd punct (by decide), by decide⟩
  · exact ⟨fun int => absurd int (by decide), fun _ => rfl, by decide⟩
  · exact ⟨fun _ => ⟨2, rfl⟩, fun punct => absurd punct (by decide), by decide⟩

theorem one_minus_two_rebuilt : (∀ token ∈ oneMinusTwo, Lexed token) ∧
    (parseItems (E := LexError) (oneMinusTwo.map .ok)).outcome =
      .value (.operation .sub (.num 1) (.num 2) 2) := by
  refine ⟨one_minus_two_lexed, ((parse_rebuilds_tree oneMinusTwo one_minus_two_lexed).1 _).2 ?_⟩
  have one : Shaped .additive (.leaf (.num 1)) := .multiplicative (.power (.primary (.num 1)))
  have two : Shaped .multiplicative (.leaf (.num 2)) := .power (.primary (.num 2))
  exact ⟨.operation .sub (.leaf (.num 1)) (.leaf (.num 2)),
    @Shaped.operation .sub _ _ one two, rfl, rfl⟩

end Parse

end ShiftReduce.Calculator
