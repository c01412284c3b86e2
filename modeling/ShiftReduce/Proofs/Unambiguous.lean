import ShiftReduce.Proofs.Lookahead
/-!
The parser that builds derivation trees. With callbacks that only build nodes no evaluation breaks
down, so a complete parser yields each derivation tree for its own tokens. As the machine is
deterministic, a list of tokens has at most one derivation tree.
-/
namespace ShiftReduce

variable {S V : Type}

def Token.reified (token : Token S V) : Token S (Tree S V) :=
  ⟨token.symbol, .leaf token, token.line⟩

def Rule.reified (rule : Rule S V) : Rule S (Tree S V) :=
  ⟨rule.toProduction, rule.id, some (.ofTotal (.node rule))⟩

def Grammar.reified (g : Grammar S V) : Grammar S (Tree S V) where
  rules := g.rules.map Rule.reified
  start := g.start
  numbered := by
    rw [List.map_map, List.length_map]
    exact g.numbered
  distinct := by
    rw [List.map_map]
    exact g.distinct
  start_mem := by
    rw [List.map_map]
    exact g.start_mem

def Parser.reified (p : Parser S V) : Parser S (Tree S V) :=
  ⟨p.grammar.reified, p.table, p.endOfInput⟩

namespace Tree

mutual

def reified : Tree S V → Tree S (Tree S V)
  | .leaf token => .leaf token.reified
  | .node rule children => .node rule.reified (reifiedAll children)

def reifiedAll : List (Tree S V) → List (Tree S (Tree S V))
  | [] => []
  | child :: children => child.reified :: reifiedAll children

end

theorem reifiedAll_eq (ts : List (Tree S V)) : reifiedAll ts = ts.map reified := by
  induction ts with
  | nil => rfl
  | cons t ts ih => rw [reifiedAll, ih, List.map_cons]

theorem symbol_reified (t : Tree S V) : t.reified.symbol = t.symbol := by
  cases t <;> rfl

mutual

theorem leaves_reified : (t : Tree S V) → t.reified.leaves = t.leaves.map Token.reified
  | .leaf _ => rfl
  | .node _ children => leavesAll_reified children

theorem leavesAll_reified : (ts : List (Tree S V)) →
    leavesAll (reifiedAll ts) = (leavesAll ts).map Token.reified
  | [] => rfl
  | child :: children => by
    rw [reifiedAll, leavesAll, leavesAll, leaves_reified child, leavesAll_reified children,
      List.map_append]

end

mutual

theorem eval_reified : (t : Tree S V) → t.reified.eval = .ok t
  | .leaf _ => rfl
  | .node _ children => eval_node (evalAll_reified children) rfl

theorem evalAll_reified : (ts : List (Tree S V)) → evalAll (reifiedAll ts) = .ok ts
  | [] => rfl
  | child :: children => by
    rw [reifiedAll, evalAll, eval_reified child, evalAll_reified children]

end

theorem names_reified (g : Grammar S V) :
    g.reified.rules.map (·.name) = g.rules.map (·.name) := by
  unfold Grammar.reified
  rw [List.map_map]
  rfl

theorem terminal_reified (g : Grammar S V) (symbol : S) :
    g.reified.Terminal symbol ↔ g.Terminal symbol := by
  unfold Grammar.Terminal
  rw [names_reified]

theorem Derived.reified {g : Grammar S V} {t : Tree S V} (derived : t.Derived g) :
    t.reified.Derived g.reified := by
  induction derived with
  | leaf terminal => exact .leaf ((terminal_reified g _).2 terminal)
  | @node rule children member spelled _ ih =>
    refine .node (List.mem_map_of_mem member) ?_ ?_
    · have symbols : (children.map Tree.reified).map symbol = children.map symbol := by
        rw [List.map_map]
        exact List.map_congr_left fun t _ => symbol_reified t
      rw [reifiedAll_eq, symbols]
      exact spelled
    · intro child member
      rw [reifiedAll_eq] at member
      obtain ⟨t, inside, rfl⟩ := List.mem_map.1 member
      exact ih t inside

end Tree

namespace Parser

variable [DecidableEq S] {p : Parser S V} {first : S → List (Option S)}
  {follow : Nat → S → List S} {ending : S}

theorem firsts_reified (g : Grammar S V) (symbol : S) :
    g.reified.firsts first symbol = g.firsts first symbol := by
  unfold Grammar.firsts
  exact ite_congr (propext (Tree.terminal_reified g symbol)) (fun _ => rfl) fun _ => rfl

theorem heads_reified (g : Grammar S V) (symbols : List S) :
    g.reified.heads first symbols = g.heads first symbols := by
  induction symbols with
  | nil => rfl
  | cons symbol symbols ih =>
    simp only [Grammar.heads, firsts_reified, ih]

theorem target?_reified (p : Parser S V) (state : Nat) (symbol : S) :
    p.reified.target? state symbol = p.target? state symbol := by
  unfold target?
  exact ite_congr (propext (Tree.terminal_reified p.grammar symbol)) (fun _ => rfl) fun _ => rfl

theorem walk_reified {id state : Nat} {a : S} {symbols : List S}
    (walk : p.Walk first follow id a state symbols) :
    p.reified.Walk first follow id a state symbols := by
  induction symbols generalizing state with
  | nil => exact walk
  | cons symbol symbols ih =>
    obtain ⟨next, target, follows, walk⟩ := walk
    refine ⟨next, ?_, ?_, ih walk⟩
    · rw [target?_reified]
      exact target
    · unfold Grammar.nexts Parser.reified
      rw [heads_reified]
      exact follows.imp_left (Tree.terminal_reified p.grammar symbol).2

theorem Complete.reified (complete : p.Complete first follow ending) :
    p.reified.Complete first follow ending where
  heads := by
    intro rule member head inside
    obtain ⟨original, listed, rfl⟩ := List.mem_map.1 member
    rw [Parser.reified, heads_reified] at inside
    exact complete.heads original listed head inside
  walk := by
    intro e edge rule member named a follows
    obtain ⟨original, listed, rfl⟩ := List.mem_map.1 member
    exact walk_reified (complete.walk e edge original listed named a follows)
  start := complete.start
  accept := complete.accept

/-- A list of tokens has at most one derivation tree. -/
theorem Complete.unambiguous (complete : p.Complete first follow ending) {t u : Tree S V}
    (left : t.Derived p.grammar) (right : u.Derived p.grammar)
    (leftRoot : t.symbol = p.grammar.start) (rightRoot : u.symbol = p.grammar.start)
    (same : t.leaves = u.leaves) : t = u := by
  -- the end token needs some value, and a tree is at hand
  let last : List (Except Empty (Token S (Tree S V))) := [.ok ⟨ending, t, none⟩]
  have look : p.reified.lookahead? last = some ending := rfl
  have first := complete.reified.halts left.reified (t.symbol_reified.trans leftRoot) look
  have second := complete.reified.halts right.reified (u.symbol_reified.trans rightRoot) look
  rw [Tree.eval_reified, Tree.leaves_reified] at first second
  rw [same] at first
  obtain ⟨_, first, _⟩ := first
  obtain ⟨_, second, _⟩ := second
  cases (first.unique second).2
  rfl

end Parser

end ShiftReduce
