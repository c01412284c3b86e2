import ShiftReduce.Proofs.DepthLimit
import ShiftReduce.Proofs.Readability
/-!
The text of a syntax tree determines the tree, up to the depths that it stores. An operation and a
pair of parentheses both open with a parenthesis, but no tree has a text that starts with an
operator and a space: the minus sign of a number stands right before a digit. Numbers are the only
parts that do not show by themselves where they end, and they need no more than that what follows a
tree is a space, a closing parenthesis or nothing.
-/
namespace ShiftReduce.Calculator

open Text

section Parts

theorem sign_eq_cons (op : Operator) :
    ∃ c cs, op.sign.toList = c :: cs ∧ c.isDigit = false ∧ c ≠ '(' ∧ c ≠ '<' ∧
      (c = '-' → cs = []) := by
  cases op <;> exact ⟨_, _, rfl, by decide⟩

theorem sign_injective {op op' : Operator} (same : op.sign.toList = op'.sign.toList) :
    op = op' := by
  cases op <;> cases op' <;> simp_all [Operator.sign]

/-- The space after an operator tells a product from a power. -/
theorem sign_parts {op op' : Operator} {s t : List Char}
    (same : op.sign.toList ++ ' ' :: s = op'.sign.toList ++ ' ' :: t) : op = op' ∧ s = t := by
  have space (op : Operator) : ' ' ∉ op.sign.toList := fun member =>
    absurd (Operator.mem_sign member) (by decide)
  obtain ⟨signs, rest⟩ := append_cons_inj_of_not_mem (space op) (space op') same
  exact ⟨sign_injective signs, rest⟩

theorem toList_num_text (n : Int) : (Expr.num n).text.toList = signed n := toList_integerText n

theorem operation_text_append (op : Operator) (left right : Expr) (depth : Nat) (s : List Char) :
    (Expr.operation op left right depth).text.toList ++ s =
      '(' :: (op.sign.toList ++ ' ' ::
        (left.text.toList ++ ' ' :: (right.text.toList ++ ')' :: s))) := by
  simp [Expr.text]

theorem group_text_append (inner : Expr) (depth : Nat) (s : List Char) :
    (Expr.group inner depth).text.toList ++ s = '(' :: (inner.text.toList ++ ')' :: s) := by
  simp [Expr.text]

end Parts

section Leaves

theorem leaf_cases (l : Leaf) : (∃ n, l = .num n) ∨ ∃ cs, l.expr.text.toList = '<' :: cs := by
  cases l with
  | num n => exact .inl ⟨n, rfl⟩
  | punct | error | tooDeep => exact .inr ⟨_, rfl⟩

theorem number_text_ne_cons {c : Char} (other : c.isDigit = false) (minus : c ≠ '-') {n : Int}
    {s rest : List Char} : (Leaf.num n).expr.text.toList ++ s ≠ c :: rest := by
  rw [Leaf.expr, toList_num_text]
  exact signed_append_ne_cons other minus n s rest

theorem leaf_ne_opening (l : Leaf) (s rest : List Char) :
    l.expr.text.toList ++ s ≠ '(' :: rest := by
  rcases leaf_cases l with ⟨n, rfl⟩ | ⟨cs, mark⟩
  · exact number_text_ne_cons (by decide) (by decide)
  · rw [mark]
    intro same
    exact absurd (List.cons.inj same).1 (by decide)

theorem leaf_unique : UniqueBefore NoDigitNext fun l : Leaf => l.expr.text.toList := by
  have number {n : Int} {s rest : List Char} :
      (Leaf.num n).expr.text.toList ++ s ≠ '<' :: rest :=
    number_text_ne_cons (by decide) (by decide)
  constructor
  intro l k s t after after' same
  cases l with
  | num m =>
    cases k with
    | num n =>
      simp only [Leaf.expr, toList_num_text] at same
      obtain ⟨rfl, rest⟩ := signed_unique.parts after after' same
      exact ⟨rfl, rest⟩
    | punct | error | tooDeep => exact absurd same number
  | punct =>
    cases k with
    | num n => exact absurd same.symm number
    | punct => exact ⟨rfl, List.append_cancel_left same⟩
    | error | tooDeep => simp [Leaf.expr, Expr.text] at same
  | error =>
    cases k with
    | num n => exact absurd same.symm number
    | error => exact ⟨rfl, List.append_cancel_left same⟩
    | punct | tooDeep => simp [Leaf.expr, Expr.text] at same
  | tooDeep =>
    cases k with
    | num n => exact absurd same.symm number
    | tooDeep => exact ⟨rfl, List.append_cancel_left same⟩
    | punct | error => simp [Leaf.expr, Expr.text] at same

end Leaves

section Trees

/-- A minus sign is an operator only if a space follows. -/
theorem number_ne_sign (n : Int) (op : Operator) (s rest : List Char) :
    signed n ++ s ≠ op.sign.toList ++ ' ' :: rest := by
  obtain ⟨c, cs, sign, other, _, _, alone⟩ := sign_eq_cons op
  rw [sign, List.cons_append]
  by_cases minus : c = '-'
  · rw [alone minus, minus, List.nil_append]
    cases n with
    | ofNat n => exact decimal_append_ne_cons (by decide) n s _
    | negSucc n =>
      intro same
      exact decimal_append_ne_cons (by decide) (n + 1) s rest (List.cons.inj same).2
  · exact signed_append_ne_cons other minus n s _

/-- What stands in a pair of parentheses is not taken for the inside of an operation. -/
theorem text_ne_sign (t : Term) (op : Operator) (s rest : List Char) :
    t.stored.text.toList ++ s ≠ op.sign.toList ++ ' ' :: rest := by
  obtain ⟨c, cs, sign, _, opening, mark, _⟩ := sign_eq_cons op
  have apart {d : Char} (other : c ≠ d) (ds : List Char) :
      d :: ds ≠ op.sign.toList ++ ' ' :: rest := by
    rw [sign]
    intro same
    exact other (List.cons.inj same).1.symm
  cases t with
  | leaf l =>
    rcases leaf_cases l with ⟨n, rfl⟩ | ⟨ds, marked⟩
    · rw [Term.stored, Leaf.expr, toList_num_text]
      exact number_ne_sign n op s rest
    · rw [Term.stored, marked]
      exact apart mark _
  | operation op' left right =>
    rw [Term.stored, operation_text_append]
    exact apart opening _
  | group inner =>
    rw [Term.stored, group_text_append]
    exact apart opening _

/-- What may follow a tree: nothing, or a text that starts with a space or a closing parenthesis. -/
def EndsTree (rest : List Char) : Prop := ∀ c ∈ rest.head?, c = ' ' ∨ c = ')'

theorem EndsTree.noDigitNext {rest : List Char} (ends : EndsTree rest) : NoDigitNext rest := by
  intro c head
  rcases ends c head with rfl | rfl
  · decide
  · decide

theorem endsTree_space (rest : List Char) : EndsTree (' ' :: rest) := by simp [EndsTree]

theorem endsTree_closing (rest : List Char) : EndsTree (')' :: rest) := by simp [EndsTree]

theorem term_unique : UniqueBefore EndsTree fun t : Term => t.stored.text.toList := by
  constructor
  intro t u r s after after' same
  -- an operand is always followed by a space or a parenthesis, so the induction applies to it
  induction t generalizing u r s with
  | leaf l =>
    cases u with
    | leaf k =>
      obtain ⟨rfl, rest⟩ := leaf_unique.parts after.noDigitNext after'.noDigitNext same
      exact ⟨rfl, rest⟩
    | operation op left right =>
      simp only [Term.stored, operation_text_append] at same
      exact absurd same (leaf_ne_opening l r _)
    | group inner =>
      simp only [Term.stored, group_text_append] at same
      exact absurd same (leaf_ne_opening l r _)
  | operation op left right ihl ihr =>
    simp only [Term.stored, operation_text_append] at same
    cases u with
    | leaf k => exact absurd same.symm (leaf_ne_opening k s _)
    | operation op' left' right' =>
      simp only [Term.stored, operation_text_append] at same
      obtain ⟨rfl, operands⟩ := sign_parts (List.cons.inj same).2
      obtain ⟨rfl, second⟩ := ihl (endsTree_space _) (endsTree_space _) operands
      obtain ⟨rfl, rest⟩ := ihr (endsTree_closing _) (endsTree_closing _) (List.cons.inj second).2
      exact ⟨rfl, (List.cons.inj rest).2⟩
    | group inner =>
      simp only [Term.stored, group_text_append] at same
      exact absurd (List.cons.inj same).2.symm (text_ne_sign inner op _ _)
  | group inner ih =>
    simp only [Term.stored, group_text_append] at same
    cases u with
    | leaf k => exact absurd same.symm (leaf_ne_opening k s _)
    | operation op left right =>
      simp only [Term.stored, operation_text_append] at same
      exact absurd (List.cons.inj same).2 (text_ne_sign inner op _ _)
    | group inner' =>
      simp only [Term.stored, group_text_append] at same
      obtain ⟨rfl, rest⟩ := ih (endsTree_closing _) (endsTree_closing _) (List.cons.inj same).2
      exact ⟨rfl, (List.cons.inj rest).2⟩

theorem text_stored_term (e : Expr) : e.term.stored.text = e.text := by
  induction e with
  | num n => rfl
  | operation op left right depth ihl ihr => simp only [Expr.term, Term.stored, Expr.text, ihl, ihr]
  | group inner depth ih => simp only [Expr.term, Term.stored, Expr.text, ih]
  | punct | error | tooDeep => rfl

theorem text_append_eq_iff {d e : Expr} {r s : String} (ends : EndsTree r.toList)
    (ends' : EndsTree s.toList) :
    d.text ++ r = e.text ++ s ↔ d.term = e.term ∧ r = s := by
  rw [← text_stored_term d, ← text_stored_term e]
  constructor
  · intro same
    have chars := congrArg String.toList same
    rw [String.toList_append, String.toList_append] at chars
    obtain ⟨trees, rest⟩ := term_unique.parts ends ends' chars
    exact ⟨trees, String.toList_inj.1 rest⟩
  · rintro ⟨trees, rfl⟩
    rw [trees]

theorem text_eq_iff {d e : Expr} : d.text = e.text ↔ d.term = e.term := by
  have nothing : EndsTree "".toList := by simp [EndsTree]
  have whole := text_append_eq_iff (d := d) (e := e) nothing nothing
  simpa using whole

theorem stored_term_of_rebuild {t : Term} {e : Expr} (builds : t.rebuild = some e) :
    e.term.stored = e := by
  rw [Term.rebuild_eq_limited] at builds
  obtain rfl := Option.some.inj builds
  by_cases low : t.height ≤ maxDepth
  · rw [Term.limited_of_le low, Term.term_stored]
  · rw [Term.limited_eq_tooDeep_iff.2 (Nat.lt_of_not_le low)]
    rfl

end Trees

/-- Trees have the same text exactly if they differ in stored depths only, and what follows a tree
never hides where it ends. -/
theorem text_determines_tree :
    (∀ d e : Expr, d.text = e.text ↔ d.term = e.term) ∧
    (∀ (t u : Term) (d e : Expr), t.rebuild = some d → u.rebuild = some e → d.text = e.text →
      d = e) ∧
    ∀ (d e : Expr) (r s : String), EndsTree r.toList → EndsTree s.toList →
      (d.text ++ r = e.text ++ s ↔ d.term = e.term ∧ r = s) := by
  refine ⟨fun _ _ => text_eq_iff, ?_, fun _ _ _ _ => text_append_eq_iff⟩
  intro t u d e first second same
  calc d = d.term.stored := (stored_term_of_rebuild first).symm
    _ = e.term.stored := by rw [text_eq_iff.1 same]
    _ = e := stored_term_of_rebuild second

/-- The difference of a negative number and a number in parentheses, as the constructors build it
and with depths that they would not store. It is not mistaken for the negative number in
parentheses, with which its text has the first two characters in common. -/
theorem negative_difference_determined :
    let t : Term := .operation .sub (.leaf (.num (-1))) (.group (.leaf (.num 2)))
    let e : Expr := .operation .sub (.num (-1)) (.group (.num 2) 2) 3
    let odd : Expr := .operation .sub (.num (-1)) (.group (.num 2) 9) 7
    (odd.text = e.text ∧ odd.term = e.term) ∧
    (t.rebuild = some t.stored ∧ t.rebuild = some e ∧ t.stored.text = e.text ∧ t.stored = e) ∧
    (EndsTree " 3)".toList ∧ EndsTree ")".toList) ∧
    odd.text ++ " 3)" ≠ (Expr.group (.num (-1)) 2).text ++ ")" := by
  intro t e odd
  obtain ⟨whole, built, ended⟩ := text_determines_tree
  have same : odd.text = e.text := rfl
  have builds : t.rebuild = some e := rfl
  have space : EndsTree " 3)".toList := endsTree_space _
  have closing : EndsTree ")".toList := endsTree_closing _
  refine ⟨⟨same, (whole odd e).1 same⟩, ⟨rfl, builds, rfl, built t t _ e rfl builds rfl⟩,
    ⟨space, closing⟩, ?_⟩
  intro shared
  have trees := ((ended odd (.group (.num (-1)) 2) " 3)" ")" space closing).1 shared).1
  simp [odd, Expr.term] at trees

end ShiftReduce.Calculator
