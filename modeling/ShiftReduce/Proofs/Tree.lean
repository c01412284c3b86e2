import ShiftReduce.Proofs.Machine
/-!
Ordered trees over a grammar: tokens at the leaves, rules at the inner nodes. A tree is evaluated
bottom-up from left to right, each node by its rule; an evaluation that breaks down says which
nodes were evaluated before it.
-/
namespace ShiftReduce

variable {S V : Type}

def Grammar.Terminal (g : Grammar S V) (symbol : S) : Prop := symbol ∉ g.rules.map (·.name)

instance [DecidableEq S] (g : Grammar S V) (symbol : S) : Decidable (g.Terminal symbol) :=
  inferInstanceAs (Decidable (symbol ∉ g.rules.map (·.name)))

inductive Tree (S V : Type) where
  | leaf (token : Token S V)
  | node (rule : Rule S V) (children : List (Tree S V))

/-- A breakdown, and the numbers of the rules that were evaluated before it. -/
structure Interruption (S V : Type) where
  reduced : List Nat
  cause : Breakdown S V

namespace Tree

def symbol : Tree S V → S
  | .leaf token => token.symbol
  | .node rule _ => rule.name

mutual

def leaves : Tree S V → List (Token S V)
  | .leaf token => [token]
  | .node _ children => leavesAll children

def leavesAll : List (Tree S V) → List (Token S V)
  | [] => []
  | child :: children => leaves child ++ leavesAll children

end

mutual

/-- The rule numbers of a tree, each after those of its children. -/
def postorder : Tree S V → List Nat
  | .leaf _ => []
  | .node rule children => postorderAll children ++ [rule.id]

def postorderAll : List (Tree S V) → List Nat
  | [] => []
  | child :: children => postorder child ++ postorderAll children

end

mutual

def eval : Tree S V → Except (Interruption S V) V
  | .leaf token => .ok token.value
  | .node rule children =>
    match evalAll children with
    | .error interruption => .error interruption
    | .ok values =>
      match rule.combine values with
      | .error cause => .error ⟨postorderAll children, cause⟩
      | .ok value => .ok value

def evalAll : List (Tree S V) → Except (Interruption S V) (List V)
  | [] => .ok []
  | child :: children =>
    match eval child with
    | .error interruption => .error interruption
    | .ok value =>
      match evalAll children with
      | .error later => .error ⟨postorder child ++ later.reduced, later.cause⟩
      | .ok values => .ok (value :: values)

end

theorem leavesAll_append (ts us : List (Tree S V)) :
    leavesAll (ts ++ us) = leavesAll ts ++ leavesAll us := by
  induction ts with
  | nil => rfl
  | cons t ts ih => rw [List.cons_append, leavesAll, leavesAll, ih, List.append_assoc]

theorem mem_leavesAll {t : Tree S V} {ts : List (Tree S V)} (member : t ∈ ts) {token : Token S V}
    (leaf : token ∈ t.leaves) : token ∈ leavesAll ts := by
  induction ts with
  | nil => cases member
  | cons u us ih =>
    rcases List.mem_cons.1 member with rfl | later
    · exact List.mem_append_left _ leaf
    · exact List.mem_append_right _ (ih later)

theorem leavesAll_singleton (t : Tree S V) : leavesAll [t] = t.leaves := List.append_nil _

theorem postorderAll_append (ts us : List (Tree S V)) :
    postorderAll (ts ++ us) = postorderAll ts ++ postorderAll us := by
  induction ts with
  | nil => rfl
  | cons t ts ih => rw [List.cons_append, postorderAll, postorderAll, ih, List.append_assoc]

theorem postorderAll_singleton (t : Tree S V) : postorderAll [t] = t.postorder := List.append_nil _

theorem evalAll_of_map {ts : List (Tree S V)} {values : List V}
    (h : ts.map eval = values.map .ok) : evalAll ts = .ok values := by
  induction ts generalizing values with
  | nil =>
    cases values with
    | nil => rfl
    | cons value values => cases h
  | cons t ts ih =>
    cases values with
    | nil => cases h
    | cons value values =>
      obtain ⟨first, later⟩ := List.cons.inj h
      rw [evalAll, first, ih later]

theorem evalAll_length {ts : List (Tree S V)} {values : List V} (h : evalAll ts = .ok values) :
    values.length = ts.length := by
  induction ts generalizing values with
  | nil =>
    cases h
    rfl
  | cons t ts ih =>
    unfold evalAll at h
    split at h
    · cases h
    · split at h
      · cases h
      · next later =>
        cases h
        exact congrArg Nat.succ (ih later)

theorem eval_node {rule : Rule S V} {children : List (Tree S V)} {values : List V} {value : V}
    (evaluated : evalAll children = .ok values) (combined : rule.combine values = .ok value) :
    (node rule children).eval = .ok value := by
  simp only [eval, evaluated, combined]

/-- Every node is labelled by a rule of the grammar and has as many children as it has
components. -/
inductive Fits (g : Grammar S V) : Tree S V → Prop where
  | leaf (token : Token S V) : Fits g (.leaf token)
  | node {rule : Rule S V} {children : List (Tree S V)} (member : rule ∈ g.rules)
      (count : children.length = rule.arity) (fit : ∀ child ∈ children, child.Fits g) :
      Fits g (.node rule children)

/-- A derivation tree: a leaf is a terminal, and the children of a node spell out its rule. -/
inductive Derived (g : Grammar S V) : Tree S V → Prop where
  | leaf {token : Token S V} (terminal : g.Terminal token.symbol) : Derived g (.leaf token)
  | node {rule : Rule S V} {children : List (Tree S V)} (member : rule ∈ g.rules)
      (spelled : children.map symbol = rule.components)
      (derived : ∀ child ∈ children, child.Derived g) : Derived g (.node rule children)

namespace Derived

variable {g : Grammar S V} {rule : Rule S V} {a b c : Tree S V}

theorem one (member : rule ∈ g.rules) (spelled : [a.symbol] = rule.components)
    (inner : a.Derived g) : (Tree.node rule [a]).Derived g :=
  .node member spelled (List.forall_mem_singleton.2 inner)

theorem three (member : rule ∈ g.rules) (spelled : [a.symbol, b.symbol, c.symbol] = rule.components)
    (left : a.Derived g) (middle : b.Derived g) (right : c.Derived g) :
    (Tree.node rule [a, b, c]).Derived g := by
  refine .node member spelled (List.forall_mem_cons.2 ⟨left, ?_⟩)
  exact List.forall_mem_cons.2 ⟨middle, List.forall_mem_singleton.2 right⟩

theorem leaf_of_terminal (derived : a.Derived g) (terminal : g.Terminal a.symbol) :
    ∃ token, a = .leaf token := by
  cases derived with
  | leaf => exact ⟨_, rfl⟩
  | node member => exact absurd (List.mem_map_of_mem member) terminal

end Derived

theorem exists_two {children : List (Tree S V)} {x y : S}
    (spelled : children.map symbol = [x, y]) :
    ∃ a b, children = [a, b] ∧ a.symbol = x ∧ b.symbol = y := by
  obtain ⟨a, rest, rfl, left, later⟩ := List.map_eq_cons_iff.1 spelled
  obtain ⟨b, rfl, right⟩ := List.map_eq_singleton_iff.1 later
  exact ⟨a, b, rfl, left, right⟩

theorem exists_three {children : List (Tree S V)} {x y z : S}
    (spelled : children.map symbol = [x, y, z]) :
    ∃ a b c, children = [a, b, c] ∧ a.symbol = x ∧ b.symbol = y ∧ c.symbol = z := by
  obtain ⟨a, rest, rfl, left, later⟩ := List.map_eq_cons_iff.1 spelled
  obtain ⟨b, c, rfl, middle, right⟩ := exists_two later
  exact ⟨a, b, c, rfl, left, middle, right⟩

section Weight

variable {g : Grammar S V} {weight : S → Int} {bound : Nat}

/-- A node weighs less than its children together, and nothing weighs more than `bound`. -/
structure Weighs (g : Grammar S V) (weight : S → Int) (bound : Nat) : Prop where
  light : ∀ symbol, weight symbol ≤ bound
  rule : ∀ rule ∈ g.rules, weight rule.name + 1 ≤ (rule.components.map weight).sum

theorem postorderAll_length_le {ts : List (Tree S V)}
    (h : ∀ t ∈ ts, (t.postorder.length : Int) + weight t.symbol ≤ bound * t.leaves.length) :
    ((postorderAll ts).length : Int) + ((ts.map symbol).map weight).sum ≤
      bound * (leavesAll ts).length := by
  induction ts with
  | nil => simp [postorderAll, leavesAll]
  | cons t ts ih =>
    have first := h t List.mem_cons_self
    have later := ih fun u member => h u (List.mem_cons_of_mem t member)
    simp only [postorderAll, leavesAll, List.length_append, List.map_cons, List.sum_cons,
      Int.natCast_add, Int.mul_add]
    omega

theorem Derived.postorder_length_le (weighs : Weighs g weight bound) {t : Tree S V}
    (h : t.Derived g) : (t.postorder.length : Int) + weight t.symbol ≤ bound * t.leaves.length := by
  induction h with
  | @leaf token _ =>
    have light := weighs.light token.symbol
    simpa [postorder, leaves, symbol] using light
  | @node rule children member spelled _ ih =>
    have all := postorderAll_length_le ih
    have heavy := weighs.rule rule member
    rw [spelled] at all
    simp only [postorder, leaves, symbol, List.length_append, List.length_singleton]
    push_cast
    omega

end Weight

end Tree

end ShiftReduce
