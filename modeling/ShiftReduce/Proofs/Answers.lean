import ShiftReduce.Calculator.Arguments
import ShiftReduce.Proofs.CommonLanguage
import ShiftReduce.Proofs.GrammarDefinition
import ShiftReduce.Proofs.Printing
import ShiftReduce.Proofs.SyntaxErrors
/-!
What the calculator answers. A text has a value if its tokens have a derivation tree, the tree of
the expression is not too deep, and all operations in it are exact. The program then prints this
value, and in all other cases it fails, for want of a tree or for want of a value. Printing the
tree as well adds a line to the output, and changes nothing else.
-/
namespace ShiftReduce.Calculator

structure Parses (text : String) (d : Tree Symbol Expr) : Prop where
  tokens : tokens text = d.leaves.map .ok
  derived : d.Derived grammar
  root : d.symbol = grammar.start

/-- The text is an expression that is not too deep, and has this exact value. -/
def Computes (text : String) (v : Int) : Prop :=
  ∃ d, Parses text d ∧ (termOf d).height ≤ maxDepth ∧ (termOf d).stored.Evaluates v

section Parse

variable {text : String} {d : Tree Symbol Expr}

theorem exists_parses {ts : List (Token Symbol Expr)} {term : Term}
    (split : tokens text = ts.map .ok) (shaped : Shaped .additive term)
    (spells : ts.map spelled = term.spelling) : ∃ d, Parses text d ∧ termOf d = term := by
  obtain ⟨d, phrase, leaves⟩ := exists_derivation shaped spells
  refine ⟨d, ⟨?_, phrase.derived, phrase.root⟩, phrase.term⟩
  rw [split, leaves]

theorem parses_of_value {tree : Expr} (accepted : (parse text).outcome = .value tree) :
    ∃ d, Parses text d := by
  obtain ⟨ts, term, split, shaped, spells, _⟩ := tree_of_parse accepted
  obtain ⟨d, parses, _⟩ := exists_parses split shaped spells
  exact ⟨d, parses⟩

theorem Parses.outcome (h : Parses text d) :
    (parse text).outcome = .value (termOf d).limited := by
  have lexed := lexed_of_split h.tokens
  obtain ⟨term, phrase⟩ := @exists_phrase d h.derived lexed .additive h.root
  unfold parse
  rw [h.tokens, parse_value_iff lexed, phrase.term]
  exact ⟨term, phrase.shaped, phrase.leaves.symm, term.rebuild_eq_limited⟩

theorem not_faulty_of_lexed {r : Rule Symbol Expr} {children : List (Tree Symbol Expr)}
    {args : List Expr} {f : Fault Expr} (lexed : ∀ token ∈ Tree.leavesAll children, Lexed token) :
    ¬ Tree.Faulty grammar r children args f := by
  intro faulty
  obtain ⟨level, named⟩ := exists_level faulty.member
  obtain ⟨term, phrase⟩ := exists_phrase faulty.derived lexed named
  have evaluated := faulty.eval
  rw [phrase.eval] at evaluated
  cases evaluated

theorem error_of_not_parses (none : ¬ ∃ d, Parses text d) :
    ∃ e, (parse text).outcome = .error e := by
  have orderly := steady.run_orderly (tokens text) (Nat.lt_succ_self _)
  cases outcome : (parse text).outcome with
  | value tree => exact absurd (parses_of_value outcome) none
  | error e => exact ⟨e, rfl⟩
  | fault f =>
    obtain ⟨r, children, args, faulty, inside⟩ := orderly.fault f outcome
    refine absurd faulty (not_faulty_of_lexed ?_)
    intro token member
    exact tokens_lexed text token (inside token member)
  | unfinished => exact absurd outcome orderly.ended

theorem Parses.unique {e : Tree Symbol Expr} (first : Parses text d) (second : Parses text e) :
    d = e := by
  have items := first.tokens.symm.trans second.tokens
  have leaves : d.leaves = e.leaves := List.map_injective_iff.2 (fun _ _ => Except.ok.inj) items
  exact certified.complete.unambiguous first.derived second.derived first.root second.root leaves

theorem Parses.computes_iff (h : Parses text d) {v : Int} :
    Computes text v ↔ (termOf d).limited.eval = .ok v := by
  constructor
  · rintro ⟨e, parses, low, value⟩
    obtain rfl := h.unique parses
    exact eval_limited_iff.2 ⟨low, eval_eq_ok_iff.2 value⟩
  · intro evaluated
    obtain ⟨low, stored⟩ := eval_limited_iff.1 evaluated
    exact ⟨d, h, low, eval_eq_ok_iff.1 stored⟩

end Parse

/-- The program succeeds, and the last line that it prints is this value. -/
def Response.Answers (r : Response) (v : Int) : Prop :=
  r.code = 0 ∧ ∃ lines, Prints r.output (lines ++ [Text.integerText v])

/-- The program fails with this error as the outermost, and no line that it prints is a value. -/
structure Response.Fails (r : Response) (message : String) : Prop where
  code : r.code = 1
  output : ∃ lines, Prints r.output lines ∧ ∀ v, Text.integerText v ∉ lines
  errors : ∃ causes, r.errors = "Error: " ++ message ++ "\n" ++ causesText causes

/-- The second response differs from the first in one more line, before all others. -/
structure Response.Adds (plain full : Response) (line : String) : Prop where
  code : full.code = plain.code
  output : ∃ lines, Prints plain.output lines ∧ Prints full.output (line :: lines)
  errors : full.errors = plain.errors

section Output

theorem newline_not_mem_text (tree : Expr) : '\n' ∉ tree.text.toList := by
  induction tree with
  | num n => exact Text.newline_not_mem_integerText n
  | operation op left right depth ihl ihr =>
    have sign : '\n' ∉ op.sign.toList := fun member =>
      absurd (Operator.mem_sign member) (by decide)
    simp [Expr.text, sign, ihl, ihr]
  | group inner depth ih => simp [Expr.text, ih]
  | punct => decide
  | error => decide
  | tooDeep => decide

def shownLine (tree : Expr) : String := "parsed: " ++ tree.text

theorem prints_shownLine (tree : Expr) : Prints (shownLine tree ++ "\n") [shownLine tree] := by
  apply Prints.single
  have inside := newline_not_mem_text tree
  simp [shownLine, inside]

theorem shownLine_ne_integerText (tree : Expr) (v : Int) :
    Text.integerText v ≠ shownLine tree := by
  intro same
  have first : 'p' ∈ Text.signed v := by
    rw [← Text.toList_integerText, same]
    simp [shownLine]
  rcases Text.sign_or_digit_of_mem_signed first with sign | digit
  · exact absurd sign (by decide)
  · exact absurd digit (by decide)

def shownLines (ast : Bool) (tree : Expr) : List String := if ast then [shownLine tree] else []

theorem integerText_not_mem_shownLines (ast : Bool) (tree : Expr) (v : Int) :
    Text.integerText v ∉ shownLines ast tree := by
  cases ast with
  | false => exact List.not_mem_nil
  | true =>
    intro member
    exact shownLine_ne_integerText tree v (List.mem_singleton.1 member)

theorem prints_shownLines (ast : Bool) (tree : Expr) :
    Prints (if ast then shownLine tree ++ "\n" else "") (shownLines ast tree) := by
  cases ast with
  | false => exact .none
  | true => exact prints_shownLine tree

theorem prints_integerText (n : Int) : Prints (Text.integerText n ++ "\n") [Text.integerText n] :=
  .single (Text.newline_not_mem_integerText n)

structure Response.Reads (r : Response) (code : Nat) (lines : List String) (errors : String) :
    Prop where
  code : r.code = code
  output : Prints r.output lines
  errors : r.errors = errors

theorem Response.Reads.adds {plain full : Response} {code : Nat} {line : String}
    {lines : List String} {errors : String} (first : plain.Reads code lines errors)
    (second : full.Reads code (line :: lines) errors) : plain.Adds full line where
  code := second.code.trans first.code.symm
  output := ⟨lines, first.output, second.output⟩
  errors := second.errors.trans first.errors.symm

variable {tree : Expr}

theorem evaluated_of_ok {v : Int} (value : tree.eval = .ok v) (ast : Bool) :
    (evaluated ast tree).Reads 0 (shownLines ast tree ++ [Text.integerText v]) "" := by
  unfold evaluated
  rw [value]
  refine ⟨rfl, ?_, rfl⟩
  have output := (prints_shownLines ast tree).append (prints_integerText v)
  rw [← String.append_assoc] at output
  exact output

theorem evaluated_of_error {e : EvalError} (failed : tree.eval = .error e) (ast : Bool) :
    (evaluated ast tree).Reads 1 (shownLines ast tree)
      ("Error: evaluation error\n" ++ causesText (e.message :: e.causes)) := by
  unfold evaluated
  rw [failed]
  exact ⟨rfl, prints_shownLines ast tree, rfl⟩

theorem evaluated_answers_iff {ast : Bool} {v : Int} :
    (evaluated ast tree).Answers v ↔ tree.eval = .ok v := by
  constructor
  · rintro ⟨code, lines, prints⟩
    cases value : tree.eval with
    | ok w =>
      have reads := evaluated_of_ok value ast
      obtain ⟨_, last⟩ := List.append_inj' (prints.unique reads.output) rfl
      rw [Text.integerText_injective (List.cons.inj last).1]
    | error e =>
      rw [(evaluated_of_error value ast).code] at code
      cases code
  · intro value
    have reads := evaluated_of_ok value ast
    exact ⟨reads.code, _, reads.output⟩

theorem evaluated_fails {e : EvalError} (failed : tree.eval = .error e) (ast : Bool) :
    (evaluated ast tree).Fails "evaluation error" := by
  have reads := evaluated_of_error failed ast
  refine ⟨reads.code, ⟨_, reads.output, integerText_not_mem_shownLines ast tree⟩, ?_⟩
  exact ⟨e.message :: e.causes, reads.errors⟩

theorem evaluated_adds (tree : Expr) :
    (evaluated false tree).Adds (evaluated true tree) (shownLine tree) := by
  cases value : tree.eval with
  | ok v => exact (evaluated_of_ok value false).adds (evaluated_of_ok value true)
  | error e => exact (evaluated_of_error value false).adds (evaluated_of_error value true)

end Output

section Respond

variable {text : String}

theorem check_table : table.check grammar = .ok () := by
  decide +kernel

theorem build_eq : build = .ok parser := by
  have few : grammar.rules.length < idLimit := by decide
  have defined : Grammar.define grammar.clauses = .ok grammar := Grammar.define_clauses few
  rw [build, defined]
  simp only [Except.mapError, bind, Except.bind, check_table]
  rfl

theorem parseWith_eq (text : String) : parseWith parser text = parse text := rfl

theorem calculate_of_parses {d : Tree Symbol Expr} (parses : Parses text d) (ast : Bool) :
    calculate parser ast text = evaluated ast (termOf d).limited := by
  unfold calculate
  rw [parseWith_eq, parses.outcome]

theorem calculate_of_error {e : ParseError Symbol Expr LexError}
    (failed : (parse text).outcome = .error e) (ast : Bool) :
    calculate parser ast text = failure "" "parser error" [e.message] := by
  unfold calculate
  rw [parseWith_eq, failed]

theorem failure_fails (message : String) (causes : List String) :
    (failure "" message causes).Fails message :=
  ⟨rfl, ⟨[], .none, fun _ => List.not_mem_nil⟩, causes, rfl⟩

theorem calculate_answers_iff {ast : Bool} {v : Int} :
    (calculate parser ast text).Answers v ↔ Computes text v := by
  by_cases parsed : ∃ d, Parses text d
  · obtain ⟨d, parses⟩ := parsed
    rw [calculate_of_parses parses, evaluated_answers_iff, parses.computes_iff]
  · obtain ⟨e, failed⟩ := error_of_not_parses parsed
    rw [calculate_of_error failed]
    constructor
    · intro answers
      cases answers.1
    · rintro ⟨d, parses, _⟩
      exact absurd ⟨d, parses⟩ parsed

end Respond

/-- The calculator is correct on every text, whatever reads its arguments: it answers the value of
the text if there is one, and otherwise fails for want of a tree or for want of a value. -/
theorem calculator_answers (read : List String → Request) (text : String)
    (args : Bool → List String)
    (given : ∀ ast, read (args ast) = .run { ast, input := some text }) :
    (∀ ast v, (respond read (args ast)).Answers v ↔ Computes text v) ∧
    (∀ d, Parses text d →
      (∀ e, Parses text e → e = d) ∧
      (parse text).outcome = .value (termOf d).limited ∧
      (respond read (args false)).Adds (respond read (args true))
        ("parsed: " ++ (termOf d).limited.text) ∧
      ((¬ ∃ v, Computes text v) → ∀ ast, (respond read (args ast)).Fails "evaluation error")) ∧
    ((¬ ∃ d, Parses text d) →
      (∃ e, (parse text).outcome = .error e) ∧
      respond read (args true) = respond read (args false) ∧
      ∀ ast, (respond read (args ast)).output = "" ∧
        (respond read (args ast)).Fails "parser error") ∧
    (parse text).remarks = [] := by
  have calculates (ast : Bool) : respond read (args ast) = calculate parser ast text := by
    unfold respond Options.respond
    rw [given, build_eq]
    rfl
  simp only [calculates]
  refine ⟨fun ast v => calculate_answers_iff, ?_, ?_, ?_⟩
  · intro d parses
    simp only [calculate_of_parses parses]
    refine ⟨fun e other => other.unique parses, parses.outcome, evaluated_adds _, ?_⟩
    intro none ast
    cases value : (termOf d).limited.eval with
    | ok v => exact absurd ⟨v, parses.computes_iff.2 value⟩ none
    | error e => exact evaluated_fails value ast
  · intro none
    obtain ⟨e, failed⟩ := error_of_not_parses none
    simp only [calculate_of_error failed]
    exact ⟨⟨e, failed⟩, trivial, fun _ => ⟨rfl, failure_fails _ _⟩⟩
  · exact Parser.run_remarks _ (quiet_of_lexed rfl certified.coherent (tokens_lexed text))

def argumentsFor (text : String) (ast : Bool) : List String :=
  (if ast then ["--ast"] else []) ++ ["--", text]

theorem read_argumentsFor (text : String) (ast : Bool) :
    Arguments.read (argumentsFor text ast) = .run { ast, input := some text } := by
  cases ast <;> rfl

theorem two_minus_three_computes : Computes "2-3" (-1) := by
  have split : tokens "2-3" = ([⟨.int, .num 2, some 1⟩, ⟨.minus, .punct, some 1⟩,
      ⟨.int, .num 3, some 1⟩] : List (Token Symbol Expr)).map .ok := by
    unfold tokens
    rw [lexemes_eq]
    rfl
  have two : Shaped .additive (.leaf (.num 2)) := .multiplicative (.power (.primary (.num 2)))
  have three : Shaped .multiplicative (.leaf (.num 3)) := .power (.primary (.num 3))
  have shaped : Shaped .additive (.operation .sub (.leaf (.num 2)) (.leaf (.num 3))) :=
    @Shaped.operation .sub _ _ two three
  obtain ⟨d, parses, tree⟩ := exists_parses split shaped rfl
  refine ⟨d, parses, ?_⟩
  rw [tree]
  exact ⟨by decide, .operation (.num 2) (.num 3) rfl (by decide)⟩

theorem two_minus_three_answered :
    (∀ ast, Arguments.read (argumentsFor "2-3" ast) = .run { ast, input := some "2-3" }) ∧
      (respond Arguments.read ["--", "2-3"]).Answers (-1) ∧
      (respond Arguments.read ["--ast", "--", "2-3"]).Answers (-1) := by
  have given := read_argumentsFor "2-3"
  obtain ⟨answers, _⟩ := calculator_answers Arguments.read "2-3" (argumentsFor "2-3") given
  exact ⟨given, (answers false (-1)).2 two_minus_three_computes,
    (answers true (-1)).2 two_minus_three_computes⟩

end ShiftReduce.Calculator
