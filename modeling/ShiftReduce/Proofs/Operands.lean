import ShiftReduce.Proofs.Calculator
import ShiftReduce.Proofs.Remarks
import ShiftReduce.Proofs.Scanning
import ShiftReduce.Proofs.Totality
/-!
What the calculator's callbacks are called with. A node can be built as long as the depths stored
in its operands can be counted, which then holds for the node as well, so only a token can bring in
a depth that cannot be counted. On the tokens of a text every callback gets the operands that it
expects, and no tree contains punctuation or an error.
-/
namespace ShiftReduce.Calculator

namespace Expr

/-- A node can be put over this tree. -/
def Countable (e : Expr) : Prop := e.depth + 1 < 0x10000000000000000

def Regular : Expr → Prop
  | .operation _ left right _ => left.Regular ∧ right.Regular
  | .group inner _ => inner.Regular
  | .punct => False
  | .error => False
  | .num _ => True
  | .tooDeep => True

theorem capped_countable {depth : Nat} {node : Nat → Expr} (stored : (node depth).depth = depth) :
    (capped depth node).Countable := by
  unfold capped Countable
  by_cases deep : maxDepth < depth
  · rw [if_pos deep]
    decide
  · rw [if_neg deep, stored]
    have limit : maxDepth = 256 := rfl
    omega

theorem depthOver_eq_some {depth : Nat} (small : depth + 1 < 0x10000000000000000) :
    depthOver depth = some (depth + 1) := if_pos small

theorem binary?_countable {left right : Expr} (op : Operator) (leftCountable : left.Countable)
    (rightCountable : right.Countable) :
    ∃ node, binary? op left right = some node ∧ node.Countable := by
  unfold Countable at leftCountable rightCountable
  have small : max left.depth right.depth + 1 < 0x10000000000000000 := by omega
  refine ⟨_, congrArg (Option.map _) (depthOver_eq_some small), ?_⟩
  exact capped_countable rfl

theorem paren?_countable {inner : Expr} (countable : inner.Countable) :
    ∃ node, inner.paren? = some node ∧ node.Countable := by
  refine ⟨_, congrArg (Option.map _) (depthOver_eq_some countable), ?_⟩
  exact capped_countable rfl

end Expr

section Callback

variable {callback : Callback Expr} {args : List Expr}

def Listed (callback : Callback Expr) : Prop :=
  (∃ op, callback = operation op) ∨ callback = parentheses

theorem listed_of_mem {r : Rule Symbol Expr} (member : r ∈ grammar.rules)
    (called : r.callback = some callback) : Listed callback := by
  obtain ⟨index, rfl⟩ : ∃ index, rule index = r := List.mem_iff_get.1 member
  match index with
  | 0 => exact .inl ⟨.add, (Option.some.inj called).symm⟩
  | 1 => exact .inl ⟨.sub, (Option.some.inj called).symm⟩
  | 2 => cases called
  | 3 => exact .inl ⟨.mul, (Option.some.inj called).symm⟩
  | 4 => exact .inl ⟨.div, (Option.some.inj called).symm⟩
  | 5 => cases called
  | 6 => exact .inl ⟨.pow, (Option.some.inj called).symm⟩
  | 7 => cases called
  | 8 => cases called
  | 9 => exact .inr (Option.some.inj called).symm

theorem counted_fault {node : Option Expr} {f : Fault Expr} (failed : counted node = .error f) :
    f = .overflow .add := by
  cases node with
  | some node => cases failed
  | none => exact (Except.error.inj failed).symm

theorem Listed.fault (listed : Listed callback) {f : Fault Expr}
    (failed : callback.apply args = .error f) : f = .overflow .add := by
  rcases listed with ⟨op, rfl⟩ | rfl
  · simp only [operation] at failed
    split at failed
    · exact counted_fault failed
    · cases failed
  · simp only [parentheses] at failed
    split at failed
    · exact counted_fault failed
    · cases failed

theorem Listed.countable (listed : Listed callback) (countable : ∀ arg ∈ args, arg.Countable) :
    ∃ value, callback.apply args = .ok value ∧ value.Countable := by
  have fallback : Expr.error.Countable := by
    unfold Expr.Countable
    decide
  rcases listed with ⟨op, rfl⟩ | rfl
  · simp only [operation]
    split
    next left right =>
      obtain ⟨node, built, counts⟩ := Expr.binary?_countable op (countable left (by simp))
        (countable right (by simp))
      exact ⟨node, congrArg counted built, counts⟩
    next => exact ⟨.error, rfl, fallback⟩
  · simp only [parentheses]
    split
    next inner =>
      obtain ⟨node, built, counts⟩ := Expr.paren?_countable (countable inner (by simp))
      exact ⟨node, congrArg counted built, counts⟩
    next => exact ⟨.error, rfl, fallback⟩

theorem Listed.error_iff (listed : Listed callback) :
    callback.apply args = .ok .error ↔ callback.remarks args ≠ [] := by
  have built {depth : Option Nat} {node : Nat → Expr} (plain : ∀ n, node n ≠ .error) :
      counted (depth.map fun n => Expr.capped n node) ≠ .ok .error := by
    intro same
    cases depth with
    | none => cases same
    | some n =>
      have tree : Expr.capped n node = .error := Except.ok.inj same
      unfold Expr.capped at tree
      split at tree
      · cases tree
      · exact plain n tree
  rcases listed with ⟨op, rfl⟩ | rfl
  · simp only [operation]
    split
    · simp only [ne_eq, not_true, iff_false]
      exact built fun n => by simp
    · simp
  · simp only [parentheses]
    split
    · simp only [ne_eq, not_true, iff_false]
      exact built fun n => by simp
    · simp

end Callback

section Depth

variable {t : Tree Symbol Expr} {children : List (Tree Symbol Expr)}

theorem evalAll_countable (values : ∀ child ∈ children, ∃ v, child.eval = .ok v ∧ v.Countable) :
    ∃ args, Tree.evalAll children = .ok args ∧ ∀ arg ∈ args, arg.Countable := by
  induction children with
  | nil => exact ⟨[], rfl, List.forall_mem_nil _⟩
  | cons child children ih =>
    obtain ⟨here, later⟩ := List.forall_mem_cons.1 values
    obtain ⟨v, evaluated, counts⟩ := here
    obtain ⟨vs, others, count⟩ := ih later
    refine ⟨v :: vs, ?_, List.forall_mem_cons.2 ⟨counts, count⟩⟩
    simp only [Tree.evalAll, evaluated, others]

theorem combine_countable {r : Rule Symbol Expr} (member : r ∈ grammar.rules) {args : List Expr}
    (arity : args.length = r.arity) (countable : ∀ arg ∈ args, arg.Countable) :
    ∃ value, r.combine args = .ok value ∧ value.Countable := by
  have evaluable : ∀ r ∈ grammar.rules, r.Evaluable := by decide
  cases called : r.callback with
  | some callback =>
    obtain ⟨value, applied, counts⟩ := (listed_of_mem member called).countable countable
    refine ⟨value, ?_, counts⟩
    rw [Rule.combine_callback called, applied]
    rfl
  | none =>
    obtain ⟨value, rfl, combined⟩ := Rule.combine_plain called (evaluable r member) arity
    exact ⟨value, combined, countable value (List.mem_singleton_self value)⟩

theorem eval_countable (derived : t.Derived grammar)
    (countable : ∀ token ∈ t.leaves, token.value.Countable) :
    ∃ v, t.eval = .ok v ∧ v.Countable := by
  induction derived with
  | @leaf token _ => exact ⟨token.value, rfl, countable token (by simp [Tree.leaves])⟩
  | @node r children member spelled _ ih =>
    have values : ∀ child ∈ children, ∃ v, child.eval = .ok v ∧ v.Countable := by
      intro child inside
      apply ih child inside
      intro token below
      exact countable token (Tree.mem_leavesAll inside below)
    obtain ⟨args, evaluated, counts⟩ := evalAll_countable values
    have arity : args.length = r.arity := by
      rw [Tree.evalAll_length evaluated, ← List.length_map Tree.symbol, spelled]
      rfl
    obtain ⟨value, combined, count⟩ := combine_countable member arity counts
    exact ⟨value, Tree.eval_node evaluated combined, count⟩

theorem faulty_depth {r : Rule Symbol Expr} {args : List Expr} {f : Fault Expr}
    (faulty : Tree.Faulty grammar r children args f) :
    f = .overflow .add ∧ ∃ token ∈ Tree.leavesAll children, ¬ token.value.Countable := by
  constructor
  · obtain ⟨callback, called, failed⟩ := Rule.callback_of_fault faulty.combined
    exact (listed_of_mem faulty.member called).fault failed
  · by_contra all
    push Not at all
    obtain ⟨v, evaluated, _⟩ := eval_countable faulty.derived all
    rw [faulty.eval] at evaluated
    cases evaluated

end Depth

section Expected

variable {children : List (Tree Symbol Expr)} {args : List Expr}

theorem evalAll_three {a b c : Tree Symbol Expr} (evaluated : Tree.evalAll [a, b, c] = .ok args) :
    ∃ x y z, args = [x, y, z] ∧ a.eval = .ok x ∧ b.eval = .ok y ∧ c.eval = .ok z := by
  simp only [Tree.evalAll] at evaluated
  cases first : a.eval with
  | error i => simp [first] at evaluated
  | ok x =>
    cases second : b.eval with
    | error i => simp [first, second] at evaluated
    | ok y =>
      cases third : c.eval with
      | error i => simp [first, second, third] at evaluated
      | ok z =>
        simp only [first, second, third, Except.ok.injEq] at evaluated
        exact ⟨x, y, z, evaluated.symm, rfl, rfl, rfl⟩

theorem operation_remarks (op : Operator)
    (spelling : children.map Tree.symbol = [op.left.symbol, op.symbol, op.right.symbol])
    (derived : ∀ child ∈ children, child.Derived grammar)
    (lexed : ∀ token ∈ Tree.leavesAll children, Lexed token)
    (evaluated : Tree.evalAll children = .ok args) : (operation op).remarks args = [] := by
  obtain ⟨x, y, z, rfl, _, second, _⟩ := Tree.exists_three spelling
  obtain ⟨sign, rfl⟩ := (derived y (by simp)).leaf_of_terminal
    (by rw [second]; exact terminal_symbol op)
  have symbol := (lexed sign (by simp [Tree.leavesAll, Tree.leaves])).spelled_punct second
    op.symbol_punct
  have value : sign.value = .punct := congrArg Prod.snd symbol
  obtain ⟨left, middle, right, rfl, _, read, _⟩ := evalAll_three evaluated
  cases read
  rw [value]
  rfl

theorem parentheses_remarks
    (spelling : children.map Tree.symbol = [.leftParen, .additive, .rightParen])
    (derived : ∀ child ∈ children, child.Derived grammar)
    (lexed : ∀ token ∈ Tree.leavesAll children, Lexed token)
    (evaluated : Tree.evalAll children = .ok args) : parentheses.remarks args = [] := by
  obtain ⟨x, y, z, rfl, first, _, third⟩ := Tree.exists_three spelling
  obtain ⟨opening, rfl⟩ := (derived x (by simp)).leaf_of_terminal (by rw [first]; decide)
  obtain ⟨closing, rfl⟩ := (derived z (by simp)).leaf_of_terminal (by rw [third]; decide)
  have left : opening.value = .punct := congrArg Prod.snd
    ((lexed opening (by simp [Tree.leavesAll, Tree.leaves])).spelled_punct first (by decide))
  have right : closing.value = .punct := congrArg Prod.snd
    ((lexed closing (by simp [Tree.leavesAll, Tree.leaves])).spelled_punct third (by decide))
  obtain ⟨before, inner, after, rfl, readFirst, _, readLast⟩ := evalAll_three evaluated
  cases readFirst
  cases readLast
  rw [left, right]
  rfl

theorem remarks_of_lexed {r : Rule Symbol Expr} (derived : (Tree.node r children).Derived grammar)
    (lexed : ∀ token ∈ Tree.leavesAll children, Lexed token)
    (evaluated : Tree.evalAll children = .ok args) {callback : Callback Expr}
    (called : r.callback = some callback) : callback.remarks args = [] := by
  cases derived with
  | node member spelling below =>
    obtain ⟨index, rfl⟩ : ∃ index, rule index = r := List.mem_iff_get.1 member
    match index with
    | 0 =>
      cases called
      exact operation_remarks .add spelling below lexed evaluated
    | 1 =>
      cases called
      exact operation_remarks .sub spelling below lexed evaluated
    | 2 => cases called
    | 3 =>
      cases called
      exact operation_remarks .mul spelling below lexed evaluated
    | 4 =>
      cases called
      exact operation_remarks .div spelling below lexed evaluated
    | 5 => cases called
    | 6 =>
      cases called
      exact operation_remarks .pow spelling below lexed evaluated
    | 7 => cases called
    | 8 => cases called
    | 9 =>
      cases called
      exact parentheses_remarks spelling below lexed evaluated

theorem quiet_of_lexed {E : Type} {p : Parser Symbol Expr} (calculator : p.grammar = grammar)
    {kernel : Nat → List (Nat × Nat)} {ending : Symbol} (coherent : p.Coherent kernel ending)
    {items : List (Except E (Token Symbol Expr))}
    (lexed : ∀ token, .ok token ∈ items → Lexed token) : p.Quiet (.initial items) := by
  rintro callback args ⟨ss, d, symbol, id, r, steps, look, entry, found, _, called, rfl⟩
  obtain ⟨forest, grown⟩ := steps.grown
  obtain ⟨r', found', _, derived, _⟩ := grown.reducible coherent entry
  obtain rfl := Option.some.inj (found.symm.trans found')
  rw [calculator] at derived
  apply remarks_of_lexed derived ?_ (grown.operands_evaluated r.arity) called
  intro token member
  exact lexed token (grown.mem_items member)

theorem Quiet.no_error {E : Type} {p : Parser Symbol Expr} (calculator : p.grammar = grammar)
    {c : Config Symbol Expr E} (quiet : p.Quiet c) {callback : Callback Expr} {args : List Expr}
    (calls : p.Calls c callback args) : callback.apply args ≠ .ok .error := by
  have listed : Listed callback := by
    obtain ⟨_, _, _, _, r, _, _, _, found, _, called, _⟩ := calls
    rw [calculator] at found
    exact listed_of_mem (Grammar.mem_of_rule? found) called
  intro failed
  exact listed.error_iff.1 failed (quiet callback args calls)

end Expected

theorem Shaped.stored_regular {level : Level} {t : Term} (shaped : Shaped level t) :
    t.stored.Regular := by
  induction shaped with
  | operation _ _ left right => exact ⟨left, right⟩
  | multiplicative _ ih => exact ih
  | power _ ih => exact ih
  | primary _ ih => exact ih
  | num n => trivial
  | group _ ih => exact ih

theorem Shaped.limited_regular {level : Level} {t : Term} (shaped : Shaped level t) :
    t.limited.Regular := by
  unfold Term.limited
  by_cases low : t.height ≤ maxDepth
  · rw [if_pos low]
    exact shaped.stored_regular
  · rw [if_neg low]
    trivial

theorem lexicon_lexed {c : Char} {rest : List Char} {symbol : Symbol} {value : Expr}
    (found : (lexicon c rest).1 = some (symbol, value)) (line : Option Nat) :
    Lexed ⟨symbol, value, line⟩ := by
  have punct (s : Symbol) (other : s ≠ .int) (proper : s ≠ .endOfInput) :
      Lexed ⟨s, .punct, line⟩ := ⟨fun int => absurd int other, fun _ => rfl, proper⟩
  unfold lexicon at found
  split at found
  · cases found
    exact punct .leftParen (by decide) (by decide)
  · cases found
    exact punct .rightParen (by decide) (by decide)
  · cases found
    exact punct .plus (by decide) (by decide)
  · cases found
    exact punct .minus (by decide) (by decide)
  · cases found
    exact punct .starStar (by decide) (by decide)
  · cases found
    exact punct .star (by decide) (by decide)
  · cases found
    exact punct .slash (by decide) (by decide)
  · split at found
    · obtain ⟨n, _, read⟩ := Option.map_eq_some_iff.1 found
      cases read
      exact ⟨fun _ => ⟨n, rfl⟩, fun punct => absurd punct (by simp), by simp⟩
    · cases found

theorem tokens_lexed (text : String) : ∀ token, .ok token ∈ tokens text → Lexed token := by
  intro t member
  obtain ⟨⟨line, x⟩, inside, read⟩ := List.mem_map.1 member
  obtain ⟨c, rest, kind⟩ := found_of_mem_lexemes inside
  dsimp only at read kind
  unfold token Lexeme.item at read
  rw [kind] at read
  split at read
  next symbol value found =>
    cases read
    exact lexicon_lexed found (some line)
  next => cases read

theorem lexed_of_split {text : String} {ts : List (Token Symbol Expr)}
    (split : tokens text = ts.map .ok) : ∀ token ∈ ts, Lexed token := by
  intro token member
  apply tokens_lexed text token
  rw [split]
  exact List.mem_map_of_mem member

theorem regular_of_run {E : Type} {p : Parser Symbol Expr} (calculator : p.grammar = grammar)
    {c : Certificate Symbol} {ending : Symbol} (certified : p.Certified c ending)
    {items : List (Except E (Token Symbol Expr))}
    (lexed : ∀ token, .ok token ∈ items → Lexed token) {limit : Nat} {e : Expr}
    (accepted : (p.run limit items).outcome = .value e) : e.Regular := by
  obtain ⟨t, rest, split, derived, root, evaluated, _⟩ := certified.derivation_of_run accepted
  rw [calculator] at derived root
  have inside : ∀ token ∈ t.leaves, Lexed token := by
    intro token member
    apply lexed token
    rw [split]
    exact List.mem_append_left _ (List.mem_map_of_mem member)
  obtain ⟨term, phrase⟩ := @exists_phrase t derived inside .additive root
  rw [phrase.eval] at evaluated
  rw [← Except.ok.inj evaluated]
  exact phrase.shaped.limited_regular

end ShiftReduce.Calculator
