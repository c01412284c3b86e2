import ShiftReduce.Proofs.Evaluation
/-!
What an evaluation is blamed on. The nodes of a tree are visited in postorder, those of the left
operand first, then those of the right one, then the node itself. The evaluation succeeds if every
node has an exact value that a word can hold, and otherwise it ends with the error of the first node
that has none.
-/
namespace ShiftReduce.Calculator

open Signed64 (InRange inRange? pow?_eq)

/-- The operation has an exact result for this right operand: a divisor is not zero, and an exponent
fits in 32 bits without a sign. -/
def Operator.Admits (op : Operator) (right : Int) : Prop :=
  (op = .div → right ≠ 0) ∧ (op = .pow → 0 ≤ right ∧ right < 0x100000000)

namespace Expr

/-- The value over the integers, in range or not. -/
def exactValue? : Expr → Option Int
  | .num n => some n
  | .group inner _ => inner.exactValue?
  | .operation op left right _ =>
    left.exactValue?.bind fun l => right.exactValue?.bind fun r => op.result? l r
  | _ => none

def postorder : Expr → List Expr
  | .operation op left right depth =>
    left.postorder ++ (right.postorder ++ [.operation op left right depth])
  | .group inner depth => inner.postorder ++ [.group inner depth]
  | leaf => [leaf]

def Valued : Expr → Prop
  | .num _ => True
  | .group _ _ => True
  | .operation op left right _ => ∃ l r n, left.exactValue? = some l ∧ right.exactValue? = some r ∧
    op.Admits r ∧ op.result? l r = some n ∧ InRange n
  | _ => False

inductive Blames : Expr → EvalError → String → Prop where
  | tooDeep : Blames .tooDeep .tooDeep "expression is nested deeper than 256 levels"
  | punct : Blames .punct (.malformed .punct) ("malformed syntax tree: " ++ punct.text)
  | error : Blames .error (.malformed .error) ("malformed syntax tree: " ++ error.text)
  | divisor {left right : Expr} {depth : Nat} {l : Int} (first : left.exactValue? = some l)
      (second : right.exactValue? = some 0) :
      Blames (.operation .div left right depth)
        (.divisionByZero (.operation .div left right depth))
        ("division by zero: " ++ (operation .div left right depth).text)
  | exponent {left right : Expr} {depth : Nat} {l r : Int} (first : left.exactValue? = some l)
      (second : right.exactValue? = some r) (outside : ¬ (0 ≤ r ∧ r < 0x100000000)) :
      Blames (.operation .pow left right depth)
        (.invalidExponent (.operation .pow left right depth)
          (if r < 0 then .tooSmall else .tooLarge))
        ("invalid exponent: " ++ (operation .pow left right depth).text)
  | overflow {op : Operator} {left right : Expr} {depth : Nat} {l r n : Int}
      (first : left.exactValue? = some l) (second : right.exactValue? = some r)
      (exact : op.result? l r = some n) (outside : ¬ InRange n) :
      Blames (.operation op left right depth) (.overflow (.operation op left right depth))
        ("arithmetic overflow: " ++ (operation op left right depth).text)

/-- The first of these nodes that has no value is blamed for the error. -/
def BlamedFirst (nodes : List Expr) (err : EvalError) : Prop :=
  ∃ before node after, nodes = before ++ node :: after ∧ (∀ n ∈ before, n.Valued) ∧
    node.Blames err err.message

end Expr

section Operation

variable {op : Operator} {node left right : Expr} {depth : Nat} {l r n : Int}

theorem result?_eq_none_iff : op.result? l r = none ↔ ¬ op.Admits r := by
  unfold Operator.result? Operator.Admits
  cases op <;> simp

theorem apply_overflow (exact : op.result? l r = some n) (outside : ¬ InRange n) :
    op.apply node l r = .error (.overflow node) := by
  have none : inRange? n = none := if_neg outside
  unfold Operator.result? at exact
  unfold Operator.apply
  cases op with
  | add =>
    cases exact
    simp only [none]
  | sub =>
    cases exact
    simp only [none]
  | mul =>
    cases exact
    simp only [none]
  | div =>
    by_cases zero : r = 0
    · simp [zero] at exact
    · simp only [if_neg zero, Option.some.injEq] at exact
      simp only [if_neg zero, exact, none]
  | pow =>
    by_cases fits : 0 ≤ r ∧ r < 0x100000000
    · simp only [if_pos fits, Option.some.injEq] at exact
      have power : Int.pow l r.toNat = n := exact
      simp only [exponent_eq_ok_iff.2 ⟨fits, rfl⟩, pow?_eq, power, none]
    · simp [fits] at exact

theorem apply_unfit (outside : ¬ (0 ≤ r ∧ r < 0x100000000)) :
    Operator.pow.apply node l r =
      .error (.invalidExponent node (if r < 0 then .tooSmall else .tooLarge)) := by
  unfold Operator.apply exponent
  by_cases negative : r < 0
  · simp only [if_pos negative]
  · have large : 0x100000000 ≤ r := by omega
    simp only [if_neg negative, if_pos large]

theorem apply_cases (op : Operator) (depth : Nat) (first : left.exactValue? = some l)
    (second : right.exactValue? = some r) :
    let node := Expr.operation op left right depth
    (∃ v, op.apply node l r = .ok v ∧ node.exactValue? = some v ∧ node.Valued) ∨
      ∃ err, op.apply node l r = .error err ∧ node.Blames err err.message := by
  intro node
  cases exact : op.result? l r with
  | none =>
    right
    have refused := result?_eq_none_iff.1 exact
    cases op with
    | div =>
      have zero : r = 0 := by simpa [Operator.Admits] using refused
      subst zero
      exact ⟨_, rfl, .divisor first second⟩
    | pow =>
      have outside : ¬ (0 ≤ r ∧ r < 0x100000000) := by
        intro fits
        exact refused ⟨nofun, fun _ => fits⟩
      exact ⟨_, apply_unfit outside, .exponent first second outside⟩
    | add => cases exact
    | sub => cases exact
    | mul => cases exact
  | some n =>
    by_cases inside : InRange n
    · have value : node.exactValue? = some n := by
        simp only [node, Expr.exactValue?, first, second, Option.bind_some, exact]
      have admits : op.Admits r := by
        by_contra refused
        cases exact.symm.trans (result?_eq_none_iff.2 refused)
      left
      exact ⟨n, apply_eq_ok_iff.2 ⟨exact, inside⟩, value, l, r, n, first, second, admits, exact,
        inside⟩
    · right
      exact ⟨_, apply_overflow exact inside, .overflow first second exact inside⟩

end Operation

theorem EvalError.message_tooDeep :
    EvalError.tooDeep.message = "expression is nested deeper than 256 levels" := by
  have limit : inspect maxDepth = "256" := by decide +kernel
  unfold message
  rw [limit]
  rfl

namespace Expr

variable {node : Expr} {xs ys : List Expr} {err err' : EvalError}

theorem Blames.not_valued {message : String} (h : node.Blames err message) : ¬ node.Valued := by
  intro valued
  cases h with
  | tooDeep => exact valued
  | punct => exact valued
  | error => exact valued
  | divisor first second =>
    obtain ⟨l, r, n, _, second', admits, _⟩ := valued
    cases second.symm.trans second'
    exact admits.1 rfl rfl
  | exponent first second outside =>
    obtain ⟨l, r, n, _, second', admits, _⟩ := valued
    cases second.symm.trans second'
    exact outside (admits.2 rfl)
  | overflow first second exact outside =>
    obtain ⟨l, r, n, first', second', _, exact', inside⟩ := valued
    cases first.symm.trans first'
    cases second.symm.trans second'
    cases exact.symm.trans exact'
    exact outside inside

theorem Blames.unique {message message' : String} (h : node.Blames err message)
    (h' : node.Blames err' message') : err = err' := by
  -- an operation that overflows has an exact result, so it is not blamed for its right operand
  have admits {op : Operator} {right : Expr} {l r r' n : Int} (second : right.exactValue? = some r)
      (second' : right.exactValue? = some r') (exact : op.result? l r' = some n) : op.Admits r := by
    by_contra refused
    cases second.symm.trans second'
    cases exact.symm.trans (result?_eq_none_iff.2 refused)
  cases h with
  | tooDeep =>
    cases h'
    rfl
  | punct =>
    cases h'
    rfl
  | error =>
    cases h'
    rfl
  | divisor _ second =>
    cases h' with
    | divisor => rfl
    | overflow _ second' exact => exact absurd rfl ((admits second second' exact).1 rfl)
  | exponent _ second outside =>
    cases h' with
    | exponent _ second' =>
      cases second.symm.trans second'
      rfl
    | overflow _ second' exact => exact absurd ((admits second second' exact).2 rfl) outside
  | overflow _ second exact =>
    cases h' with
    | divisor _ second' => exact absurd rfl ((admits second' second exact).1 rfl)
    | exponent _ second' outside => exact absurd ((admits second' second exact).2 rfl) outside
    | overflow => rfl

theorem BlamedFirst.here (blames : node.Blames err err.message) : BlamedFirst [node] err :=
  ⟨[], node, [], rfl, List.forall_mem_nil _, blames⟩

theorem BlamedFirst.append (h : BlamedFirst xs err) (ys : List Expr) :
    BlamedFirst (xs ++ ys) err := by
  obtain ⟨before, node, after, rfl, valued, blames⟩ := h
  exact ⟨before, node, after ++ ys, by simp, valued, blames⟩

theorem BlamedFirst.after (valued : ∀ n ∈ xs, n.Valued) (h : BlamedFirst ys err) :
    BlamedFirst (xs ++ ys) err := by
  obtain ⟨before, node, after, rfl, valued', blames⟩ := h
  exact ⟨xs ++ before, node, after, by simp, List.forall_mem_append.2 ⟨valued, valued'⟩, blames⟩

theorem BlamedFirst.not_valued (h : BlamedFirst xs err) : ¬ ∀ n ∈ xs, n.Valued := by
  intro valued
  obtain ⟨before, node, after, rfl, _, blames⟩ := h
  exact blames.not_valued (valued node (by simp))

theorem BlamedFirst.unique (h : BlamedFirst xs err) (h' : BlamedFirst xs err') : err = err' := by
  classical
  obtain ⟨before, node, after, split, valued, blames⟩ := h
  obtain ⟨before', node', after', split', valued', blames'⟩ := h'
  have found : xs.find? (fun n => decide (¬ n.Valued)) = some node := by
    rw [List.find?_eq_some_iff_append]
    exact ⟨decide_eq_true blames.not_valued, before, after, split, by simpa using valued⟩
  have found' : xs.find? (fun n => decide (¬ n.Valued)) = some node' := by
    rw [List.find?_eq_some_iff_append]
    exact ⟨decide_eq_true blames'.not_valued, before', after', split', by simpa using valued'⟩
  cases found.symm.trans found'
  exact blames.unique blames'

end Expr

theorem eval_cases (e : Expr) :
    (∃ v, e.eval = .ok v ∧ e.exactValue? = some v ∧ ∀ node ∈ e.postorder, node.Valued) ∨
      ∃ err, e.eval = .error err ∧ Expr.BlamedFirst e.postorder err := by
  induction e with
  | num n => exact .inl ⟨n, rfl, rfl, List.forall_mem_singleton.2 trivial⟩
  | punct => exact .inr ⟨_, rfl, .here .punct⟩
  | error => exact .inr ⟨_, rfl, .here .error⟩
  | tooDeep =>
    have blames : Expr.tooDeep.Blames .tooDeep EvalError.tooDeep.message := by
      rw [EvalError.message_tooDeep]
      exact .tooDeep
    exact .inr ⟨_, rfl, .here blames⟩
  | group inner depth ih =>
    rcases ih with ⟨v, done, exact, valued⟩ | ⟨err, failed, blamed⟩
    · left
      refine ⟨v, done, exact, List.forall_mem_append.2 ⟨valued, ?_⟩⟩
      exact List.forall_mem_singleton.2 trivial
    · right
      exact ⟨err, failed, blamed.append _⟩
  | operation op left right depth ihl ihr =>
    simp only [Expr.eval, Expr.postorder]
    rcases ihl with ⟨l, done, first, valued⟩ | ⟨err, failed, blamed⟩
    · rcases ihr with ⟨r, done', second, valued'⟩ | ⟨err, failed, blamed⟩
      · simp only [done, done']
        rcases apply_cases op depth first second with
          ⟨v, applied, exact, here⟩ | ⟨err, failed, blames⟩
        · left
          refine ⟨v, applied, exact, ?_⟩
          simp only [List.forall_mem_append, List.forall_mem_singleton]
          exact ⟨valued, valued', here⟩
        · right
          exact ⟨err, failed, .after valued (.after valued' (.here blames))⟩
      · right
        simp only [done, failed]
        exact ⟨err, rfl, .after valued (blamed.append _)⟩
    · right
      simp only [failed]
      exact ⟨err, rfl, blamed.append _⟩

/-- The evaluation of a tree is exact, or its error is that of the first node in postorder that has
no value, with a message that shows this node. -/
theorem evaluation_blames_first (e : Expr) :
    (∀ v, e.eval = .ok v ↔ (∀ node ∈ e.postorder, node.Valued) ∧ e.exactValue? = some v) ∧
      ∀ err, e.eval = .error err ↔ Expr.BlamedFirst e.postorder err := by
  rcases eval_cases e with ⟨v, done, exact, valued⟩ | ⟨err, failed, blamed⟩
  · constructor
    · intro w
      rw [done, exact, Except.ok.injEq, Option.some.injEq]
      exact (and_iff_right valued).symm
    · intro err
      rw [done]
      exact iff_of_false (by simp) fun blamed => blamed.not_valued valued
  · constructor
    · intro v
      rw [failed]
      exact iff_of_false (by simp) fun h => blamed.not_valued h.1
    · intro err'
      rw [failed, Except.error.injEq]
      constructor
      · rintro rfl
        exact blamed
      · intro blamed'
        exact blamed.unique blamed'

/-- The left operand is blamed, whose quotient is one too large, before the division by zero. -/
example :
    let quotient := Expr.operation .div (.num Signed64.least) (.num (-1)) 2
    (Expr.operation .add quotient (.operation .div (.num 1) (.num 0) 2) 3).eval =
      .error (.overflow quotient) := by decide

end ShiftReduce.Calculator
