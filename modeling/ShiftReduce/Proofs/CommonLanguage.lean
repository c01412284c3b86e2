import ShiftReduce.Proofs.Conduct
import ShiftReduce.Proofs.Evaluation
import ShiftReduce.Proofs.Lockstep
/-!
The language that arithmetic expressions and the calculator have in common: texts without `-` and
`/`. On such a text the two lexers yield the same tokens under other names, the two parsers take the
same steps, and where the calculator's tree has a value, the arithmetic parser computes it.
-/
namespace ShiftReduce.Calculator

open Arithmetic (Kind Derivation WithinRange Check overflow? withinRange_unit_iff
  withinRange_operation_iff)

def counterpart : Kind → Symbol × Expr
  | .leftParen => (.leftParen, .punct)
  | .rightParen => (.rightParen, .punct)
  | .plus => (.plus, .punct)
  | .times => (.star, .punct)
  | .power => (.starStar, .punct)
  | .integer n => (.int, .num n)

def arithmeticName : Symbol → Option String
  | .int => some "INT"
  | .leftParen => some "("
  | .rightParen => some ")"
  | .plus => some "+"
  | .minus => none
  | .star => some "*"
  | .slash => none
  | .starStar => some "**"
  | .endOfInput => some "$eof"
  | .additive => some "Additive"
  | .multiplicative => some "Multiplicative"
  | .power => some "Power"
  | .primary => some "Primary"

def counterpartRule (id : Nat) : Nat := [0, 1, 3, 4, 6, 7, 8, 9, 10].getD id 0

structure SameToken (t : Token String Int) (u : Token Symbol Expr) : Prop where
  kind : ∃ kind : Kind, t.symbol = kind.symbol ∧ t.value = kind.value ∧
    spelled u = counterpart kind
  line : u.line = t.line

structure SameError (e : ShiftReduce.LexError) (f : LexError) : Prop where
  text : f.text = e.text
  line : f.line = e.line

section Lexer

theorem lexicon_follows {c : Char} (plain : c ≠ '-' ∧ c ≠ '/') :
    lexicon.Follows counterpart Arithmetic.lexicon c := by
  intro rest
  obtain ⟨noMinus, noSlash⟩ := plain
  unfold lexicon
  split
  · rfl
  · rfl
  · rfl
  · exact absurd rfl noMinus
  · rfl
  next tail single =>
    rw [Arithmetic.lexicon]
    · rfl
    · exact single
  · exact absurd rfl noSlash
  next opening closing plus _ star _ power =>
    rw [Arithmetic.lexicon]
    · by_cases digit : c.isDigit = true
      · rw [if_pos digit, if_pos digit]
        simp only [integerRun, Option.map_map]
        rfl
      · rw [if_neg digit, if_neg digit]
        rfl
    · exact opening
    · exact closing
    · exact plus
    · exact star
    · exact power

variable {text : String}

theorem token_paired (line : Nat) (x : Lexeme Kind) :
    Paired SameToken SameError (Arithmetic.token line x) (token line (x.map counterpart)) := by
  obtain ⟨kind, start, text⟩ := x
  cases kind with
  | none => exact .error ⟨rfl, rfl⟩
  | some kind => exact .token ⟨⟨kind, rfl, rfl, rfl⟩, rfl⟩

theorem tokens_paired (plain : ∀ c ∈ text.toList, c ≠ '-' ∧ c ≠ '/') :
    List.Forall₂ (Paired SameToken SameError) (Arithmetic.tokens text) (tokens text) := by
  have follows : ∀ c ∈ text.toList, lexicon.Follows counterpart Arithmetic.lexicon c := by
    intro c member
    exact lexicon_follows (plain c member)
  unfold tokens Arithmetic.tokens
  rw [lexemes_map follows, List.map_map, List.forall₂_map_left_iff, List.forall₂_map_right_iff,
    List.forall₂_same]
  intro x _
  exact token_paired x.1 x.2

end Lexer

theorem SameToken.symbol {t : Token String Int} {u : Token Symbol Expr} (h : SameToken t u) :
    arithmeticName u.symbol = some t.symbol := by
  obtain ⟨kind, symbol, _, spells⟩ := h.kind
  have same : u.symbol = (counterpart kind).1 := congrArg Prod.fst spells
  rw [same, symbol]
  cases kind <;> rfl

theorem SameToken.countable {t : Token String Int} {u : Token Symbol Expr} (h : SameToken t u) :
    u.value.Countable := by
  obtain ⟨kind, _, _, spells⟩ := h.kind
  have same : u.value = (counterpart kind).2 := congrArg Prod.snd spells
  have plain : (counterpart kind).2.depth = 1 := by cases kind <;> rfl
  unfold Expr.Countable
  rw [same, plain]
  omega

def symbols : List Symbol :=
  [.int, .leftParen, .rightParen, .plus, .minus, .star, .slash, .starStar, .endOfInput, .additive,
    .multiplicative, .power, .primary]

theorem mem_symbols (symbol : Symbol) : symbol ∈ symbols := by
  cases symbol <;> decide

theorem mirrors : (Arithmetic.parser.endingWith Arithmetic.endSymbol).Mirrors parser arithmeticName
    counterpartRule 15 Expr.Countable where
  root := by decide
  target := by decide +kernel
  action := by
    intro state small x y same
    have table : ∀ state < 15, ∀ y ∈ symbols, ∀ x ∈ arithmeticName y,
        parser.table.action? state y =
          (Arithmetic.parser.table.action? state x).map (Action.renumbered counterpartRule) := by
      decide +kernel
    exact table state small y (mem_symbols y) x same
  goto := by
    intro state small x y same
    have table : ∀ state < 15, ∀ y ∈ symbols, ∀ x ∈ arithmeticName y,
        parser.table.goto? state y = Arithmetic.parser.table.goto? state x := by
      decide +kernel
    exact table state small y (mem_symbols y) x same
  expected := by decide +kernel
  rule := by
    intro id r found
    have numbered := Grammar.id_of_rule? found
    obtain ⟨index, rfl⟩ : ∃ index, Arithmetic.rule index = r :=
      List.mem_iff_get.1 (Grammar.mem_of_rule? found)
    subst numbered
    match index with
    | 0 => exact ⟨rule 0, rfl, rfl, rfl⟩
    | 1 => exact ⟨rule 2, rfl, rfl, rfl⟩
    | 2 => exact ⟨rule 3, rfl, rfl, rfl⟩
    | 3 => exact ⟨rule 5, rfl, rfl, rfl⟩
    | 4 => exact ⟨rule 6, rfl, rfl, rfl⟩
    | 5 => exact ⟨rule 7, rfl, rfl, rfl⟩
    | 6 => exact ⟨rule 8, rfl, rfl, rfl⟩
    | 7 => exact ⟨rule 9, rfl, rfl, rfl⟩
  combine := by
    intro r member args arity countable
    exact combine_countable member arity countable
  ending := ⟨_, _, rfl, rfl, rfl⟩

section Value

def Level.counterpart : Level → Arithmetic.Level
  | .additive => .additive
  | .multiplicative => .multiplicative
  | .power => .power
  | .primary => .primary

def exactResult? : Operator → Int → Int → Option Int
  | .add, l, r => some (l + r)
  | .mul, l, r => some (l * r)
  | .pow, l, r => some (l ^ Signed64.low32 r)
  | _, _, _ => none

theorem low32_of_fits {n : Int} (fits : 0 ≤ n ∧ n < 0x100000000) :
    Signed64.low32 n = n.toNat := by
  unfold Signed64.low32
  rw [Int.emod_eq_of_lt fits.1 fits.2]

theorem apply_exact {op : Operator} {node : Expr} {l r n v : Int}
    (known : exactResult? op l r = some n) (applied : op.apply node l r = .ok v) :
    Signed64.InRange n ∧ n = v := by
  obtain ⟨exact, inside⟩ := apply_eq_ok_iff.1 applied
  have same : n = v := by
    cases op with
    | add =>
      cases known
      exact Option.some.inj exact
    | mul =>
      cases known
      exact Option.some.inj exact
    | pow =>
      cases known
      by_cases fits : 0 ≤ r ∧ r < 0x100000000
      · simp only [Operator.result?, if_pos fits, Option.some.injEq] at exact
        rw [low32_of_fits fits, exact]
      · simp only [Operator.result?, if_neg fits] at exact
        cases exact
    | sub => cases known
    | div => cases known
  subst same
  exact ⟨inside, rfl⟩

def ValueOf (e : Expr) (checks : List Check) (n : Int) : Prop :=
  ∀ v, e.eval = .ok v → WithinRange checks ∧ n = v

theorem ValueOf.operation {op : Operator} {left right : Expr} {xs ys : List Check} {l r n : Int}
    (first : ValueOf left xs l) (second : ValueOf right ys r) (known : exactResult? op l r = some n)
    (depth rule : Nat) (overflow : Overflow) :
    ValueOf (.operation op left right depth) (xs ++ ys ++ [⟨rule, overflow? overflow n⟩]) n := by
  intro v evaluated
  obtain ⟨l', r', evalLeft, evalRight, applied⟩ := eval_operation_iff.1 evaluated
  obtain ⟨withinLeft, rfl⟩ := first l' evalLeft
  obtain ⟨withinRight, rfl⟩ := second r' evalRight
  obtain ⟨inside, rfl⟩ := apply_exact known applied
  exact ⟨(withinRange_operation_iff .rfl .rfl).2 ⟨⟨withinLeft, withinRight⟩, inside⟩, rfl⟩

theorem ValueOf.unit {e : Expr} {xs : List Check} {n : Int} (inner : ValueOf e xs n) (rule : Nat) :
    ValueOf e (xs ++ [⟨rule, none⟩]) n := by
  intro v evaluated
  obtain ⟨within, same⟩ := inner v evaluated
  exact ⟨withinRange_unit_iff.2 ⟨within, rfl⟩, same⟩

theorem split_pairs {R : Token String Int → Token Symbol Expr → Prop} {ws : List (Token String Int)}
    {us vs : List (Token Symbol Expr)} (h : List.Forall₂ R ws (us ++ vs)) :
    ∃ first second, ws = first ++ second ∧ List.Forall₂ R first us ∧ List.Forall₂ R second vs := by
  refine ⟨ws.take us.length, ws.drop us.length, (List.take_append_drop _ _).symm, ?_, ?_⟩
  · exact List.forall₂_take_append _ _ _ h
  · exact List.forall₂_drop_append _ _ _ h

theorem SameToken.named {t : Token String Int} {u : Token Symbol Expr} (h : SameToken t u)
    {symbol : Symbol} {value : Expr} (spells : spelled u = (symbol, value)) {name : String}
    (known : arithmeticName symbol = some name) : t.symbol = name := by
  have same : u.symbol = symbol := congrArg Prod.fst spells
  have symbols := h.symbol
  rw [same, known] at symbols
  exact (Option.some.inj symbols).symm

theorem SameToken.number {t : Token String Int} {u : Token Symbol Expr} (h : SameToken t u)
    {n : Int} (spells : spelled u = (.int, .num n)) : t.value = n := by
  obtain ⟨kind, _, value, same⟩ := h.kind
  rw [spells] at same
  rw [value]
  cases kind with
  | integer m =>
    cases same
    rfl
  | leftParen => cases same
  | rightParen => cases same
  | plus => cases same
  | times => cases same
  | power => cases same

theorem Shaped.exists_derivation {level : Level} {term : Term} (shaped : Shaped level term)
    {ws : List (Token String Int)} {us : List (Token Symbol Expr)}
    (spells : us.map spelled = term.spelling) (same : List.Forall₂ SameToken ws us) :
    ∃ d : Derivation level.counterpart, d.tokens = ws ∧ ValueOf term.stored d.checks d.value := by
  induction shaped generalizing ws us with
  | @operation op left right _ _ ihl ihr =>
    obtain ⟨_, _, rfl, first, later⟩ := List.map_eq_append_iff.1 spells
    obtain ⟨sign, _, rfl, symbol, last⟩ := List.map_eq_cons_iff.1 later
    obtain ⟨_, _, rfl, sameLeft, rest⟩ := split_pairs same
    obtain ⟨t, _, here, sameRight, rfl⟩ := List.forall₂_cons_right_iff.1 rest
    obtain ⟨a, rfl, valueLeft⟩ := ihl first sameLeft
    obtain ⟨b, rfl, valueRight⟩ := ihr last sameRight
    have named := here.symbol
    rw [show sign.symbol = op.symbol from congrArg Prod.fst symbol] at named
    cases op with
    | add =>
      refine ⟨.sum a ⟨t, here.named symbol rfl⟩ b, rfl, ?_⟩
      exact valueLeft.operation valueRight rfl _ 1 .add
    | mul =>
      refine ⟨.product a ⟨t, here.named symbol rfl⟩ b, rfl, ?_⟩
      exact valueLeft.operation valueRight rfl _ 3 .multiply
    | pow =>
      refine ⟨.raised a ⟨t, here.named symbol rfl⟩ b, rfl, ?_⟩
      exact valueLeft.operation valueRight rfl _ 5 .exponentiate
    | sub => cases named
    | div => cases named
  | multiplicative shaped ih =>
    obtain ⟨d, tokens, value⟩ := ih spells same
    exact ⟨.multiplicative d, tokens, value.unit 2⟩
  | power shaped ih =>
    obtain ⟨d, tokens, value⟩ := ih spells same
    exact ⟨.power d, tokens, value.unit 4⟩
  | primary shaped ih =>
    obtain ⟨d, tokens, value⟩ := ih spells same
    exact ⟨.primary d, tokens, value.unit 6⟩
  | num n =>
    obtain ⟨u, rfl, symbol⟩ := List.map_eq_singleton_iff.1 spells
    obtain ⟨t, _, here, nothing, rfl⟩ := List.forall₂_cons_right_iff.1 same
    obtain rfl := List.forall₂_nil_right_iff.1 nothing
    refine ⟨.integer ⟨t, here.named symbol rfl⟩, rfl, ?_⟩
    intro v evaluated
    have evaluated' : n = v := Except.ok.inj evaluated
    constructor
    · intro check member
      rw [List.mem_singleton.1 member]
    · rw [← evaluated']
      exact here.number symbol
  | group shaped ih =>
    obtain ⟨_, _, rfl, first, last⟩ := List.map_eq_append_iff.1 spells
    obtain ⟨opening, inside, rfl, left, middle⟩ := List.map_eq_cons_iff.1 first
    obtain ⟨closing, rfl, right⟩ := List.map_eq_singleton_iff.1 last
    obtain ⟨_, _, rfl, outer, end'⟩ := split_pairs same
    obtain ⟨t, _, here, sameInner, rfl⟩ := List.forall₂_cons_right_iff.1 outer
    obtain ⟨t', _, there, nothing, rfl⟩ := List.forall₂_cons_right_iff.1 end'
    obtain rfl := List.forall₂_nil_right_iff.1 nothing
    obtain ⟨d, rfl, value⟩ := ih middle sameInner
    exact ⟨.grouped ⟨t, here.named left rfl⟩ d ⟨t', there.named right rfl⟩, rfl, value.unit 8⟩

end Value

section Run

variable {text : String}

theorem paired_tokens {items : List (Except ShiftReduce.LexError (Token String Int))}
    {us : List (Token Symbol Expr)}
    (paired : List.Forall₂ (Paired SameToken SameError) items (us.map .ok)) :
    ∃ ws, items = ws.map .ok ∧ List.Forall₂ SameToken ws us := by
  induction us generalizing items with
  | nil =>
    obtain rfl := List.forall₂_nil_right_iff.1 paired
    exact ⟨[], rfl, .nil⟩
  | cons u us ih =>
    obtain ⟨item, later, here, rest, rfl⟩ := List.forall₂_cons_right_iff.1 paired
    obtain ⟨ws, rfl, same⟩ := ih rest
    cases here with
    | @token t _ pair => exact ⟨t :: ws, rfl, .cons pair same⟩

theorem tree_of_parse {tree : Expr} (accepted : (parse text).outcome = .value tree) :
    ∃ (us : List (Token Symbol Expr)) (term : Term), tokens text = us.map .ok ∧
      Shaped .additive term ∧ us.map spelled = term.spelling ∧ tree = term.limited := by
  have lexed := tokens_lexed text
  obtain ⟨t, rest, split, derived, root, evaluated, _, look⟩ :=
    certified.derivation_of_run accepted
  have none : rest = [] := by
    cases rest with
    | nil => rfl
    | cons item rest =>
      cases item with
      | error e => cases look
      | ok token =>
        have inside : .ok token ∈ tokens text := by
          rw [split]
          exact List.mem_append_right _ List.mem_cons_self
        exact absurd (Option.some.inj look) (lexed token inside).proper
  rw [none, List.append_nil] at split
  obtain ⟨term, phrase⟩ := @exists_phrase t derived (lexed_of_split split) .additive root
  rw [phrase.eval] at evaluated
  exact ⟨t.leaves, term, split, phrase.shaped, phrase.leaves, (Except.ok.inj evaluated).symm⟩

theorem eval_limited_iff {term : Term} {v : Int} :
    term.limited.eval = .ok v ↔ term.height ≤ maxDepth ∧ term.stored.eval = .ok v := by
  unfold Term.limited
  by_cases low : term.height ≤ maxDepth
  · rw [if_pos low]
    exact (and_iff_right low).symm
  · rw [if_neg low]
    constructor
    · intro evaluated
      cases evaluated
    · intro h
      exact absurd h.1 low

theorem SameToken.proper {t : Token String Int} {u : Token Symbol Expr} (h : SameToken t u) :
    t.symbol ≠ Arithmetic.endSymbol := by
  obtain ⟨kind, symbol, _⟩ := h.kind
  rw [symbol]
  cases kind <;> simp [Kind.symbol, Arithmetic.endSymbol]

theorem proper_of_same {ws : List (Token String Int)} {us : List (Token Symbol Expr)}
    (same : List.Forall₂ SameToken ws us) : ∀ token ∈ ws, token.symbol ≠ Arithmetic.endSymbol := by
  induction same with
  | nil => exact List.forall_mem_nil _
  | cons here _ ih => exact List.forall_mem_cons.2 ⟨here.proper, ih⟩

theorem arithmetic_value {tree : Expr} {v : Int}
    (plain : ∀ c ∈ text.toList, c ≠ '-' ∧ c ≠ '/')
    (accepted : (parse text).outcome = .value tree) (evaluated : tree.eval = .ok v) :
    (Arithmetic.parse (Arithmetic.parser.endingWith Arithmetic.endSymbol)
      (Arithmetic.tokens text)).outcome = .value v := by
  obtain ⟨us, term, split, shaped, spells, rfl⟩ := tree_of_parse accepted
  have paired := tokens_paired plain
  rw [split] at paired
  obtain ⟨ws, items, same⟩ := paired_tokens paired
  obtain ⟨d, rfl, value⟩ := shaped.exists_derivation spells same
  obtain ⟨within, exact⟩ := value v (eval_limited_iff.1 evaluated).2
  have certified := Arithmetic.certified.setEnd (some Arithmetic.endSymbol)
  have look : (Arithmetic.parser.endingWith Arithmetic.endSymbol).lookahead?
      ([] : List (Except ShiftReduce.LexError (Token String Int))) =
        some Arithmetic.endSymbol := rfl
  have fewer : d.tokens.length ≤
      (d.tokens.map .ok : List (Except ShiftReduce.LexError (Token String Int))).length := by
    rw [List.length_map]
  have room := Arithmetic.room fewer
  have run := certified.run_value_iff (proper_of_same same) look room (v := v)
  rw [List.append_nil] at run
  unfold Arithmetic.parse
  rw [items]
  exact run.2 ⟨d.tree, d.derived_tree, d.symbol_tree, d.leaves_tree,
    Arithmetic.eval_tree_eq_ok.2 ⟨within, exact⟩⟩

/-- On a text without `-` and `/` the lexers yield the same items, and unless an operation of the
arithmetic parser overflows, the two parsers take the same steps and end alike. Whenever the
calculator's tree has a value, the arithmetic parser yields it. -/
theorem common_language_in_lockstep (text : String) (plain : ∀ c ∈ text.toList, c ≠ '-' ∧ c ≠ '/') :
    let a := Arithmetic.parse (Arithmetic.parser.endingWith Arithmetic.endSymbol)
      (Arithmetic.tokens text)
    let b := parse text
    List.Forall₂ (Paired SameToken SameError) (Arithmetic.tokens text) (tokens text) ∧
    ((∀ f, a.outcome ≠ .fault f) →
      b.steps = a.steps.map (Step.renumbered counterpartRule) ∧ b.pulled = a.pulled ∧
        Alike arithmeticName SameToken SameError a.outcome b.outcome) ∧
    ∀ tree v, b.outcome = .value tree → tree.eval = .ok v → a.outcome = .value v := by
  intro a b
  have paired := tokens_paired plain
  refine ⟨paired, ?_, ?_⟩
  · intro sound
    have mode : Arithmetic.parser.endingWith Arithmetic.endSymbol ∈
        Arithmetic.parser.modes Arithmetic.endSymbol := List.mem_cons_of_mem _ List.mem_cons_self
    have steady := Arithmetic.steady.of_mem_modes mode
    have room : Arithmetic.certificate.bound * (Arithmetic.tokens text).length + 0 <
        4 * (Arithmetic.tokens text).length + 1 := Nat.lt_succ_self _
    have orderly := steady.run_orderly (Arithmetic.tokens text) room
    obtain ⟨linear, few⟩ := steady.reductions_le (4 * (Arithmetic.tokens text).length + 1)
      (Arithmetic.tokens text)
    have named : ∀ t u, SameToken t u → arithmeticName u.symbol = some t.symbol ∧
        u.value.Countable := by
      intro t u same
      exact ⟨same.symbol, same.countable⟩
    apply mirrors.run named paired orderly.ended ⟨orderly.table, sound⟩
    have four : Arithmetic.certificate.bound = 4 := rfl
    have same := paired.length_eq
    rw [four] at linear
    omega
  · intro tree v accepted evaluated
    exact arithmetic_value plain accepted evaluated

theorem two_times_three_in_lockstep :
    (∀ c ∈ "2*3".toList, c ≠ '-' ∧ c ≠ '/') ∧
      (Arithmetic.parse (Arithmetic.parser.endingWith Arithmetic.endSymbol)
        (Arithmetic.tokens "2*3")).outcome = .value 6 := by
  have plain : ∀ c ∈ "2*3".toList, c ≠ '-' ∧ c ≠ '/' := by
    have characters : "2*3".toList = ['2', '*', '3'] := rfl
    rw [characters]
    simp
  have read : tokens "2*3" = [.ok ⟨.int, .num 2, some 1⟩, .ok ⟨.star, .punct, some 1⟩,
      .ok ⟨.int, .num 3, some 1⟩] := by
    unfold tokens
    rw [lexemes_eq]
    rfl
  have accepted : (parse "2*3").outcome = .value (.operation .mul (.num 2) (.num 3) 2) := by
    unfold parse
    rw [read]
    rfl
  exact ⟨plain, (common_language_in_lockstep "2*3" plain).2.2 _ 6 accepted rfl⟩

end Run

end ShiftReduce.Calculator
