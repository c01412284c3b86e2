import ShiftReduce.Calculator.Eval
import ShiftReduce.Proofs.Term
/-!
The depth limit of syntax trees. A tree that is built with the constructors stores the height of
each of its nodes and is not higher than the limit, so that a function that calls itself on the
operands of a tree never nests its calls deeper. What the constructors give for an expression
depends on the expression alone: it is the expression with its heights stored, or what stands for a
tree that is too deep, whatever the order in which its parts were built.
-/
namespace ShiftReduce.Calculator

namespace Expr

def term : Expr → Term
  | .num n => .leaf (.num n)
  | .operation op left right _ => .operation op left.term right.term
  | .group inner _ => .group inner.term
  | .punct => .leaf .punct
  | .error => .leaf .error
  | .tooDeep => .leaf .tooDeep

def operands : Expr → List Expr
  | .operation _ left right _ => [left, right]
  | .group inner _ => [inner]
  | _ => []

def subtrees : Expr → List Expr
  | .operation op left right depth =>
    .operation op left right depth :: (left.subtrees ++ right.subtrees)
  | .group inner depth => .group inner depth :: inner.subtrees
  | .num n => [.num n]
  | .punct => [.punct]
  | .error => [.error]
  | .tooDeep => [.tooDeep]

def levels : Expr → Nat
  | .operation _ left right _ => max left.levels right.levels + 1
  | .group inner _ => inner.levels + 1
  | _ => 1

def StoresHeights (e : Expr) : Prop := ∀ node ∈ e.subtrees, node.depth = node.term.height

section Recursion

variable {α : Type}

/-- A function on trees that is given by its body, with at most so many calls inside each other. -/
def within (body : (Expr → Option α) → Expr → Option α) : Nat → Expr → Option α
  | 0, _ => none
  | limit + 1, e => body (within body limit) e

/-- The body computes the function, and calls itself on operands only. -/
def Computes (body : (Expr → Option α) → Expr → Option α) (f : Expr → α) : Prop :=
  ∀ self e, (∀ operand ∈ e.operands, self operand = some (f operand)) → body self e = some (f e)

theorem levels_pos (e : Expr) : 0 < e.levels := by
  cases e <;> simp [levels]

theorem levels_lt_of_mem_operands {e operand : Expr} (member : operand ∈ e.operands) :
    operand.levels < e.levels := by
  cases e with
  | operation op left right depth =>
    simp only [operands, List.mem_cons, List.not_mem_nil, or_false] at member
    simp only [levels]
    rcases member with rfl | rfl <;> omega
  | group inner depth =>
    simp only [operands, List.mem_singleton] at member
    simp only [levels, member]
    omega
  | num n => cases member
  | punct => cases member
  | error => cases member
  | tooDeep => cases member

theorem within_of_levels_le {body : (Expr → Option α) → Expr → Option α} {f : Expr → α}
    (computes : Computes body f) {limit : Nat} {e : Expr} (room : e.levels ≤ limit) :
    within body limit e = some (f e) := by
  induction limit generalizing e with
  | zero =>
    have some_level := e.levels_pos
    omega
  | succ limit ih =>
    apply computes
    intro operand member
    have fewer := levels_lt_of_mem_operands member
    exact ih (by omega)

def evalBody (self : Expr → Option (Except EvalError Int)) : Expr → Option (Except EvalError Int)
  | .num n => some (.ok n)
  | .group inner _ => self inner
  | .operation op left right depth =>
    (self left).bind fun
      | .error e => some (.error e)
      | .ok l => (self right).bind fun
        | .error e => some (.error e)
        | .ok r => some (op.apply (.operation op left right depth) l r)
  | .tooDeep => some (.error .tooDeep)
  | .punct => some (.error (.malformed .punct))
  | .error => some (.error (.malformed .error))

def textBody (self : Expr → Option String) : Expr → Option String
  | .num n => some (inspect n)
  | .operation op left right _ =>
    (self left).bind fun l => (self right).bind fun r =>
      some ("(" ++ op.sign ++ " " ++ l ++ " " ++ r ++ ")")
  | .group inner _ => (self inner).bind fun text => some ("(" ++ text ++ ")")
  | .punct => some "<punct>"
  | .error => some "<error>"
  | .tooDeep => some "<too deep>"

/-- The trees below the root in the order in which dropping the root frees them: each after what
stands below it. -/
def freed : Expr → List Expr
  | .operation _ left right _ => left.freed ++ [left] ++ (right.freed ++ [right])
  | .group inner _ => inner.freed ++ [inner]
  | _ => []

def freedBody (self : Expr → Option (List Expr)) : Expr → Option (List Expr)
  | .operation _ left right _ =>
    (self left).bind fun l => (self right).bind fun r => some (l ++ [left] ++ (r ++ [right]))
  | .group inner _ => (self inner).bind fun trees => some (trees ++ [inner])
  | _ => some []

theorem evalBody_computes : Computes evalBody eval := by
  intro self e calls
  cases e with
  | operation op left right depth =>
    have onLeft := calls left (by simp [operands])
    have onRight := calls right (by simp [operands])
    simp only [evalBody, eval, onLeft, Option.bind_some]
    cases left.eval with
    | error e => rfl
    | ok l =>
      simp only [onRight, Option.bind_some]
      cases right.eval <;> rfl
  | group inner depth => exact calls inner (by simp [operands])
  | num n => rfl
  | punct => rfl
  | error => rfl
  | tooDeep => rfl

theorem textBody_computes : Computes textBody text := by
  intro self e calls
  cases e with
  | operation op left right depth =>
    have onLeft := calls left (by simp [operands])
    have onRight := calls right (by simp [operands])
    simp only [textBody, text, onLeft, onRight, Option.bind_some]
  | group inner depth =>
    have onInner := calls inner (by simp [operands])
    simp only [textBody, text, onInner, Option.bind_some]
  | num n => rfl
  | punct => rfl
  | error => rfl
  | tooDeep => rfl

theorem freedBody_computes : Computes freedBody freed := by
  intro self e calls
  cases e with
  | operation op left right depth =>
    have onLeft := calls left (by simp [operands])
    have onRight := calls right (by simp [operands])
    simp only [freedBody, freed, onLeft, onRight, Option.bind_some]
  | group inner depth =>
    have onInner := calls inner (by simp [operands])
    simp only [freedBody, freed, onInner, Option.bind_some]
  | num n => rfl
  | punct => rfl
  | error => rfl
  | tooDeep => rfl

end Recursion

end Expr

namespace Term

def subterms : Term → List Term
  | .leaf l => [.leaf l]
  | .operation op left right => .operation op left right :: (left.subterms ++ right.subterms)
  | .group inner => .group inner :: inner.subterms

theorem mem_subterms_self (t : Term) : t ∈ t.subterms := by
  cases t <;> simp [subterms]

theorem term_stored (t : Term) : t.stored.term = t := by
  induction t with
  | leaf l => cases l <;> rfl
  | operation op left right ihl ihr => simp only [stored, Expr.term, ihl, ihr]
  | group inner ih => simp only [stored, Expr.term, ih]

theorem storesHeights_stored (t : Term) : t.stored.StoresHeights := by
  unfold Expr.StoresHeights
  induction t with
  | leaf l => cases l <;> simp [stored, Leaf.expr, Expr.subtrees, Expr.depth, Expr.term, height]
  | operation op left right ihl ihr =>
    intro node member
    simp only [stored, Expr.subtrees, List.mem_cons, List.mem_append] at member
    rcases member with rfl | inLeft | inRight
    · simp only [Expr.depth, Expr.term, term_stored]
    · exact ihl node inLeft
    · exact ihr node inRight
  | group inner ih =>
    intro node member
    simp only [stored, Expr.subtrees, List.mem_cons] at member
    rcases member with rfl | inside
    · simp only [Expr.depth, Expr.term, term_stored]
    · exact ih node inside

theorem levels_stored_le (t : Term) : t.stored.levels ≤ t.height := by
  induction t with
  | leaf l => cases l <;> simp [stored, Leaf.expr, Expr.levels, height]
  | operation op left right ihl ihr =>
    simp only [stored, Expr.levels, height]
    omega
  | group inner ih =>
    simp only [stored, Expr.levels, height]
    omega

theorem tooDeep_not_mem_stored {t : Term} (low : t.height ≤ maxDepth) :
    Expr.tooDeep ∉ t.stored.subtrees := by
  induction t with
  | leaf l =>
    cases l with
    | tooDeep =>
      simp only [height] at low
      omega
    | num n => simp [stored, Leaf.expr, Expr.subtrees]
    | punct => simp [stored, Leaf.expr, Expr.subtrees]
    | error => simp [stored, Leaf.expr, Expr.subtrees]
  | operation op left right ihl ihr =>
    simp only [height] at low
    have inLeft := ihl (by omega)
    have inRight := ihr (by omega)
    simp [stored, Expr.subtrees, inLeft, inRight]
  | group inner ih =>
    simp only [height] at low
    have inside := ih (by omega)
    simp [stored, Expr.subtrees, inside]

theorem height_le_of_mem_subterms {t part : Term} (member : part ∈ t.subterms) :
    part.height ≤ t.height := by
  induction t with
  | leaf l => simp_all [subterms]
  | operation op left right ihl ihr =>
    simp only [subterms, List.mem_cons, List.mem_append] at member
    simp only [height]
    rcases member with rfl | inLeft | inRight
    · simp only [height, Nat.le_refl]
    · have := ihl inLeft
      omega
    · have := ihr inRight
      omega
  | group inner ih =>
    simp only [subterms, List.mem_cons] at member
    simp only [height]
    rcases member with rfl | inside
    · simp only [height, Nat.le_refl]
    · have := ih inside
      omega

theorem limited_eq_tooDeep_iff {t : Term} : t.limited = .tooDeep ↔ maxDepth < t.height := by
  constructor
  · intro cut
    have deep := t.depth_limited
    rw [cut] at deep
    have excess : Expr.tooDeep.depth = maxDepth + 1 := rfl
    omega
  · intro high
    exact if_neg (by omega)

theorem storesHeights_limited (t : Term) : t.limited.StoresHeights := by
  by_cases low : t.height ≤ maxDepth
  · rw [limited_of_le low]
    exact t.storesHeights_stored
  · rw [limited_eq_tooDeep_iff.2 (by omega)]
    exact storesHeights_stored (.leaf .tooDeep)

theorem levels_limited_le (t : Term) : t.limited.levels ≤ maxDepth := by
  by_cases low : t.height ≤ maxDepth
  · rw [limited_of_le low]
    exact Nat.le_trans t.levels_stored_le low
  · rw [limited_eq_tooDeep_iff.2 (by omega)]
    decide

end Term

/-- A call of a constructor. Operands are named by the number of the call that built them. -/
inductive Call where
  | leaf (l : Leaf)
  | operation (op : Operator) (left right : Nat)
  | group (inner : Nat)

namespace Call

def term? (parts : List Term) : Call → Option Term
  | .leaf l => some (.leaf l)
  | .operation op left right =>
    parts[left]?.bind fun l => parts[right]?.bind fun r => some (.operation op l r)
  | .group inner => parts[inner]?.bind fun part => some (.group part)

def expr? (parts : List Expr) : Call → Option Expr
  | .leaf l => some l.expr
  | .operation op left right =>
    parts[left]?.bind fun l => parts[right]?.bind fun r => Expr.binary? op l r
  | .group inner => parts[inner]?.bind Expr.paren?

def results {α : Type} (result? : List α → Call → Option α) : List α → List Call → Option (List α)
  | parts, [] => some parts
  | parts, call :: calls =>
    (result? parts call).bind fun part => results result? (parts ++ [part]) calls

def drawn (calls : List Call) : Option (List Term) := results term? [] calls

def built (calls : List Call) : Option (List Expr) := results expr? [] calls

theorem expr?_limited (parts : List Term) (call : Call) :
    call.expr? (parts.map Term.limited) = (call.term? parts).map Term.limited := by
  cases call with
  | leaf l => cases l <;> rfl
  | operation op left right =>
    simp only [expr?, term?, List.getElem?_map]
    cases parts[left]? with
    | none => rfl
    | some l =>
      cases parts[right]? with
      | none => rfl
      | some r => exact Term.binary?_limited op l r
  | group inner =>
    simp only [expr?, term?, List.getElem?_map]
    cases parts[inner]? with
    | none => rfl
    | some part => exact Term.paren?_limited part

theorem results_limited (parts : List Term) (calls : List Call) :
    results expr? (parts.map Term.limited) calls =
      (results term? parts calls).map (List.map Term.limited) := by
  induction calls generalizing parts with
  | nil => rfl
  | cons call calls ih =>
    simp only [results, expr?_limited]
    cases call.term? parts with
    | none => rfl
    | some part =>
      have extended := ih (parts ++ [part])
      rw [List.map_append] at extended
      exact extended

theorem built_eq (calls : List Call) : built calls = (drawn calls).map (List.map Term.limited) :=
  results_limited [] calls

theorem getElem?_of_built {terms : List Term} {values : List Expr} {calls : List Call}
    (draws : drawn calls = some terms) (builds : built calls = some values) (i : Nat) :
    values[i]? = terms[i]?.map Term.limited := by
  rw [built_eq, draws] at builds
  cases builds
  exact List.getElem?_map

theorem exists_of_mem_built {values : List Expr} {calls : List Call} {e : Expr}
    (builds : built calls = some values) (member : e ∈ values) : ∃ t : Term, e = t.limited := by
  rw [built_eq, Option.map_eq_some_iff] at builds
  obtain ⟨terms, _, rfl⟩ := builds
  obtain ⟨t, _, same⟩ := List.mem_map.1 member
  exact ⟨t, same.symm⟩

end Call

/-- The limit is exact: an expression is rebuilt as itself, its heights stored, or as what stands
for a tree that is too deep, in whatever order its parts are built. No value that is ever built
takes more calls inside each other than the limit. -/
theorem depth_limit_exact :
    (∀ t : Term,
      (maxDepth < t.height → t.rebuild = some .tooDeep) ∧
      (t.height ≤ maxDepth → ∃ e, t.rebuild = some e ∧ e.term = t ∧
        Expr.tooDeep ∉ e.subtrees ∧ ∀ node ∈ e.subtrees, node.depth = node.term.height) ∧
      (∃ e, t.rebuild = some e ∧ e.depth = min t.height (maxDepth + 1)) ∧
      ∀ part ∈ t.subterms, part.rebuild = some .tooDeep → t.rebuild = some .tooDeep) ∧
    (∀ calls terms, Call.drawn calls = some terms →
      ∃ values, Call.built calls = some values ∧ values.map some = terms.map Term.rebuild) ∧
    (∀ first second xs ys vs ws, Call.drawn first = some xs → Call.drawn second = some ys →
      Call.built first = some vs → Call.built second = some ws →
      ∀ i j : Nat, xs[i]? = ys[j]? → vs[i]? = ws[j]?) ∧
    ∀ calls values, Call.built calls = some values → ∀ e ∈ values,
      (∀ node ∈ e.subtrees, node.depth = node.term.height) ∧
      Expr.within Expr.evalBody maxDepth e = some e.eval ∧
      Expr.within Expr.textBody maxDepth e = some e.text ∧
      Expr.within Expr.freedBody maxDepth e = some e.freed := by
  refine ⟨?_, ?_, ?_, ?_⟩
  · intro t
    simp only [Term.rebuild_eq_limited, Option.some.injEq, Term.limited_eq_tooDeep_iff]
    refine ⟨id, ?_, ⟨_, rfl, t.depth_limited⟩, ?_⟩
    · intro low
      exact ⟨t.stored, Term.limited_of_le low, t.term_stored, Term.tooDeep_not_mem_stored low,
        t.storesHeights_stored⟩
    · intro part member high
      have bound := Term.height_le_of_mem_subterms member
      omega
  · intro calls terms draws
    refine ⟨terms.map Term.limited, ?_, ?_⟩
    · rw [Call.built_eq, draws]
      rfl
    · rw [List.map_map]
      apply List.map_congr_left
      intro t _
      exact t.rebuild_eq_limited.symm
  · intro first second xs ys vs ws drawsFirst drawsSecond buildsFirst buildsSecond i j same
    rw [Call.getElem?_of_built drawsFirst buildsFirst,
      Call.getElem?_of_built drawsSecond buildsSecond, same]
  · intro calls values builds e member
    obtain ⟨t, rfl⟩ := Call.exists_of_mem_built builds member
    have room := t.levels_limited_le
    exact ⟨t.storesHeights_limited, Expr.within_of_levels_le Expr.evalBody_computes room,
      Expr.within_of_levels_le Expr.textBody_computes room,
      Expr.within_of_levels_le Expr.freedBody_computes room⟩

def nested : Nat → Term
  | 0 => .leaf (.num 1)
  | count + 1 => .group (nested count)

theorem height_nested (count : Nat) : (nested count).height = count + 1 := by
  induction count with
  | zero => rfl
  | succ count ih => simp only [nested, Term.height, ih]

def onePlusTwo : Expr := .operation .add (.num 1) (.num 2) 2

/-- The calls for `1 + 2` that build the left operand first, and those that build it last. -/
def leftFirst : List Call := [.leaf (.num 1), .leaf (.num 2), .operation .add 0 1]

def rightFirst : List Call := [.leaf (.num 2), .leaf (.num 1), .operation .add 1 0]

/-- A number in 255 pairs of parentheses is within the limit, and one pair more goes over it, as
does a sum with that. For a sum the order of the operands makes no difference. -/
theorem nested_limited :
    (∃ e, (nested 255).rebuild = some e ∧ e.term = nested 255 ∧ e.depth = 256 ∧
      Expr.tooDeep ∉ e.subtrees) ∧
    (nested 256).rebuild = some .tooDeep ∧
    (Term.operation .add (nested 256) (.leaf (.num 2))).rebuild = some .tooDeep ∧
    (∃ vs ws, Call.built leftFirst = some vs ∧ Call.built rightFirst = some ws ∧ vs[2]? = ws[2]?) ∧
    Expr.within Expr.evalBody maxDepth onePlusTwo = some (.ok 3) := by
  obtain ⟨trees, _, orders, recursion⟩ := depth_limit_exact
  have forward : Call.built leftFirst = some [.num 1, .num 2, onePlusTwo] := rfl
  have backward : Call.built rightFirst = some [.num 2, .num 1, onePlusTwo] := rfl
  obtain ⟨_, whole, ⟨e, builds, depth⟩, _⟩ := trees (nested 255)
  obtain ⟨f, again, same, clean, _⟩ := whole (Nat.le_of_eq (height_nested 255))
  cases builds.symm.trans again
  have cut := (trees (nested 256)).1 (Nat.lt_of_lt_of_eq (by decide) (height_nested 256).symm)
  obtain ⟨_, _, _, absorbs⟩ := trees (.operation .add (nested 256) (.leaf (.num 2)))
  have inside : nested 256 ∈ (Term.operation .add (nested 256) (.leaf (.num 2))).subterms :=
    List.mem_cons_of_mem _ (List.mem_append_left _ (Term.mem_subterms_self _))
  have evaluates := (recursion leftFirst _ forward onePlusTwo (by simp)).2.1
  refine ⟨⟨e, again, same, ?_, clean⟩, cut, absorbs _ inside cut, ?_, evaluates⟩
  · rw [depth, height_nested]
    rfl
  · exact ⟨_, _, forward, backward,
      orders leftFirst rightFirst _ _ _ _ rfl rfl forward backward 2 2 rfl⟩

end ShiftReduce.Calculator
