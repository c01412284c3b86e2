import ShiftReduce.Arithmetic.Grammar
import ShiftReduce.Proofs.MachineRun
import ShiftReduce.Proofs.Tree
/-!
The stack of a parse stands for a forest: a shift adds a leaf, and a reduction puts a node over
the topmost trees. Whatever the table is, the values on the stack are the values of the trees, the
leaves are the tokens that were shifted, and the nodes in post-order are the reductions made.
-/
namespace ShiftReduce

variable {S V E : Type}

theorem Grammar.mem_of_rule? {g : Grammar S V} {id : Nat} {rule : Rule S V} (found : g.rule? id = some rule) :
    rule ∈ g.rules := by
  simp only [Grammar.rule?] at found
  split at found
  · cases found
  · exact List.mem_of_getElem? found

namespace Parser

variable [DecidableEq S] {p : Parser S V}

theorem reduction_cases {stack after : Stack V} {id : Nat}
    (done : p.reduction stack id = .ok after) :
    ∃ rule value next, p.grammar.rule? id = some rule ∧ rule.arity ≤ stack.values.length ∧
      rule.combine (stack.operands rule.arity) = .ok value ∧
      p.table.goto? (stack.pop rule.arity).current rule.name = some next ∧
      after = (stack.pop rule.arity).push next value := by
  simp only [reduction] at done
  split at done
  · cases done
  next rule found =>
  split at done
  · cases done
  next enough =>
  split at done
  · cases done
  next value combined =>
  split at done
  · cases done
  next next target =>
  exact ⟨rule, value, next, found, Nat.not_lt.1 enough, combined, target, (Except.ok.inj done).symm⟩

theorem move_go_cases {c d : Config S V E} {s : Step} (h : p.move c = .go s d) :
    (∃ token rest next, c.rest = .ok token :: rest ∧
      p.table.action? c.state token.symbol = some (.shift next) ∧
      s = (c.stack.push next token.value).step c.state (.shift next) ∧
      d = ⟨c.stack.push next token.value, rest⟩) ∨
    ∃ symbol id after, p.lookahead? c.rest = some symbol ∧
      p.table.action? c.state symbol = some (.reduce id) ∧ p.reduction c.stack id = .ok after ∧
      s = after.step c.state (.reduce id) ∧ d = ⟨after, c.rest⟩ := by
  simp only [move] at h
  split at h
  · cases h
  · next next entry =>
    simp only [Config.shift] at h
    split at h
    · next token rest items =>
      obtain ⟨rfl, rfl⟩ := Move.go.inj h
      rw [items] at entry
      exact .inl ⟨token, rest, next, items, entry, rfl, rfl⟩
    · cases h
  · next id entry =>
    obtain ⟨symbol, look, entry⟩ := Option.bind_eq_some_iff.1 entry
    split at h
    · cases h
    · next after done =>
      obtain ⟨rfl, rfl⟩ := Move.go.inj h
      exact .inr ⟨symbol, id, after, look, entry, done, rfl, rfl⟩
  · cases h

/-- The configurations that a parse of the items reaches, with the steps made so far and the trees
that the stack stands for, its top first. -/
inductive Grown (p : Parser S V) (items : List (Except E (Token S V))) :
    Config S V E → List Step → List (Tree S V) → Prop where
  | start : Grown p items (.initial items) [] []
  | shift {stack : Stack V} {token : Token S V} {rest : List (Except E (Token S V))}
      {ss : List Step} {forest : List (Tree S V)} {next : Nat}
      (before : Grown p items ⟨stack, .ok token :: rest⟩ ss forest)
      (entry : p.table.action? stack.current token.symbol = some (.shift next)) :
      Grown p items ⟨stack.push next token.value, rest⟩
        (ss ++ [(stack.push next token.value).step stack.current (.shift next)])
        (.leaf token :: forest)
  | reduce {stack : Stack V} {rest : List (Except E (Token S V))} {ss : List Step}
      {forest : List (Tree S V)} {symbol : S} {id next : Nat} {rule : Rule S V} {value : V}
      (before : Grown p items ⟨stack, rest⟩ ss forest)
      (look : p.lookahead? rest = some symbol)
      (entry : p.table.action? stack.current symbol = some (.reduce id))
      (found : p.grammar.rule? id = some rule) (enough : rule.arity ≤ stack.values.length)
      (combined : rule.combine (stack.operands rule.arity) = .ok value)
      (target : p.table.goto? (stack.pop rule.arity).current rule.name = some next) :
      Grown p items ⟨(stack.pop rule.arity).push next value, rest⟩
        (ss ++ [((stack.pop rule.arity).push next value).step stack.current (.reduce id)])
        (.node rule (forest.take rule.arity).reverse :: forest.drop rule.arity)

variable {items : List (Except E (Token S V))} {c d : Config S V E} {ss ts : List Step}
  {forest : List (Tree S V)}

theorem Grown.move {s : Step} (h : p.Grown items c ss forest) (first : p.move c = .go s d) :
    ∃ forest', p.Grown items d (ss ++ [s]) forest' := by
  obtain ⟨stack, rest⟩ := c
  rcases move_go_cases first with
    ⟨token, rest, next, rfl, entry, rfl, rfl⟩ | ⟨symbol, id, after, look, entry, done, rfl, rfl⟩
  · exact ⟨_, h.shift entry⟩
  · obtain ⟨rule, value, next, found, enough, combined, target, rfl⟩ := reduction_cases done
    exact ⟨_, h.reduce look entry found enough combined target⟩

theorem Grown.steps (h : p.Grown items c ss forest) (more : p.Steps c ts d) :
    ∃ forest', p.Grown items d (ss ++ ts) forest' := by
  induction more generalizing ss forest with
  | refl c =>
    rw [List.append_nil]
    exact ⟨forest, h⟩
  | @head c next last s ts first later ih =>
    obtain ⟨grown, h'⟩ := h.move first
    obtain ⟨forest', h''⟩ := ih h'
    rw [List.append_assoc] at h''
    exact ⟨forest', h''⟩

theorem Steps.grown (h : p.Steps (.initial items) ss d) : ∃ forest, p.Grown items d ss forest :=
  Grown.start.steps h

namespace Grown

theorem evaluated (h : p.Grown items c ss forest) :
    forest.map Tree.eval = c.stack.values.map .ok := by
  induction h with
  | start => rfl
  | shift before entry ih => exact congrArg _ ih
  | @reduce stack rest ss forest _ _ next rule value _ _ _ _ _ combined _ ih =>
    -- the operands were pushed in the order of the children, so both lists are reversed alike
    have children : ((forest.take rule.arity).reverse).map Tree.eval =
        (stack.operands rule.arity).map .ok := by
      rw [Stack.operands, List.map_reverse, List.map_reverse, List.map_take, List.map_take, ih]
    have node := Tree.eval_node (Tree.evalAll_of_map children) combined
    rw [List.map_cons, node, List.map_drop, ih]
    simp only [Stack.pop, Stack.push, List.map_cons, List.map_drop]

theorem length_eq (h : p.Grown items c ss forest) : forest.length = c.stack.values.length := by
  simpa using congrArg List.length h.evaluated

theorem consumed (h : p.Grown items c ss forest) :
    items = (Tree.leavesAll forest.reverse).map .ok ++ c.rest := by
  induction h with
  | start => rfl
  | shift before entry ih =>
    rw [ih, List.reverse_cons, Tree.leavesAll_append]
    simp [Tree.leavesAll, Tree.leaves]
  | @reduce _ _ _ forest _ _ _ rule _ _ _ _ _ _ _ _ ih =>
    rw [ih, List.reverse_cons, Tree.leavesAll_append, Tree.leavesAll_singleton, Tree.leaves,
      ← Tree.leavesAll_append, ← List.reverse_append, List.take_append_drop]

theorem postorder (h : p.Grown items c ss forest) :
    Tree.postorderAll forest.reverse = reductions ss := by
  induction h with
  | start => rfl
  | shift before entry ih =>
    rw [List.reverse_cons, Tree.postorderAll_append, ih, reductions_append]
    rfl
  | @reduce _ _ _ forest _ _ _ rule _ _ _ _ found _ _ _ ih =>
    rw [List.reverse_cons, Tree.postorderAll_append, Tree.postorderAll_singleton, Tree.postorder,
      ← List.append_assoc, ← Tree.postorderAll_append, ← List.reverse_append,
      List.take_append_drop, ih, reductions_append, Grammar.id_of_rule? found]
    rfl

theorem shifts (h : p.Grown items c ss forest) :
    (Tree.leavesAll forest.reverse).length = shiftCount ss := by
  induction h with
  | start => rfl
  | shift before entry ih =>
    rw [List.reverse_cons, Tree.leavesAll_append, List.length_append, ih, shiftCount_append]
    rfl
  | @reduce _ _ _ forest _ _ _ rule _ _ _ _ _ _ _ _ ih =>
    rw [List.reverse_cons, Tree.leavesAll_append, Tree.leavesAll_singleton, Tree.leaves,
      ← Tree.leavesAll_append, ← List.reverse_append, List.take_append_drop, ih, shiftCount_append]
    rfl

theorem fits (h : p.Grown items c ss forest) : ∀ t ∈ forest, t.Fits p.grammar := by
  induction h with
  | start => exact List.forall_mem_nil _
  | shift before entry ih => exact List.forall_mem_cons.2 ⟨.leaf _, ih⟩
  | @reduce _ _ _ forest _ _ _ rule _ before _ _ found enough _ _ ih =>
    have popped : (forest.take rule.arity).reverse.length = rule.arity := by
      rw [List.length_reverse, List.length_take, before.length_eq]
      exact Nat.min_eq_left enough
    have children : ∀ t ∈ (forest.take rule.arity).reverse, t.Fits p.grammar := fun t member =>
      ih t (List.mem_of_mem_take (List.mem_reverse.1 member))
    refine List.forall_mem_cons.2 ⟨.node (Grammar.mem_of_rule? found) popped children, fun t member => ?_⟩
    exact ih t (List.mem_of_mem_drop member)

end Grown

theorem move_value_cases {v : V} (last : p.move c = .halt ts (.value v)) :
    ∃ symbol, p.lookahead? c.rest = some symbol ∧
      p.table.action? c.state symbol = some .accept ∧ c.stack.values = [v] ∧
      ts = [c.stack.step c.state .accept] := by
  simp only [move] at last
  split at last
  · simp only [refusal] at last
    split at last <;> cases last
  · simp only [Config.shift] at last
    split at last <;> cases last
  · split at last
    · next cause _ => cases cause <;> cases last
    · cases last
  · next entry =>
    obtain ⟨symbol, look, entry⟩ := Option.bind_eq_some_iff.1 entry
    obtain ⟨rfl, accepted⟩ := Move.halt.inj last
    simp only [Stack.acceptance] at accepted
    split at accepted
    · next value only =>
      cases accepted
      exact ⟨symbol, look, entry, only, rfl⟩
    · cases accepted

theorem value_of_halts {v : V} (h : p.Halts (.initial items) ts (.value v)) :
    ∃ stack rest symbol ss tree, p.Grown items ⟨stack, rest⟩ ss [tree] ∧ tree.eval = .ok v ∧
      p.lookahead? rest = some symbol ∧ p.table.action? stack.current symbol = some .accept ∧
      ts = ss ++ [stack.step stack.current .accept] := by
  obtain ⟨⟨stack, rest⟩, ss, us, split, steps, last⟩ := h.last_move
  obtain ⟨forest, grown⟩ := steps.grown
  obtain ⟨symbol, look, entry, only, rfl⟩ := move_value_cases last
  have evaluated := grown.evaluated
  have single : forest.length = 1 := by rw [grown.length_eq, only]; rfl
  obtain ⟨tree, rfl⟩ := List.length_eq_one_iff.1 single
  rw [only] at evaluated
  exact ⟨stack, rest, symbol, ss, tree, grown, List.cons.inj evaluated |>.1, look, entry, split⟩

/-- A successful parse is the fold of one ordered tree: its leaves are the tokens that were
shifted, and its nodes in post-order are the reductions that were made. -/
theorem run_value_is_tree_fold (p : Parser S V) (limit : Nat) (items : List (Except E (Token S V)))
    {v : V} (accepted : (p.run limit items).outcome = .value v) :
    ∃ (tree : Tree S V) (rest : List (Except E (Token S V))),
      items = tree.leaves.map .ok ++ rest ∧
      tree.leaves.length = (p.run limit items).shiftCount ∧ tree.Fits p.grammar ∧
      tree.postorder = (p.run limit items).reductions ∧ tree.eval = .ok v := by
  have ended : (p.run limit items).outcome ≠ .unfinished := by
    intro unfinished
    rw [accepted] at unfinished
    cases unfinished
  have halts := halts_of_run ended
  rw [accepted] at halts
  obtain ⟨stack, rest, symbol, ss, tree, grown, evaluated, _, _, split⟩ := value_of_halts halts
  have consumed := grown.consumed
  have shifts := grown.shifts
  have postorder := grown.postorder
  rw [List.reverse_singleton] at consumed shifts postorder
  rw [Tree.leavesAll_singleton] at consumed shifts
  rw [Tree.postorderAll_singleton] at postorder
  refine ⟨tree, rest, consumed, ?_, grown.fits tree List.mem_cons_self, ?_, evaluated⟩
  · rw [shifts, Run.shiftCount, split, shiftCount_append]
    rfl
  · rw [postorder, Run.reductions, split, reductions_append]
    exact (List.append_nil _).symm

def twoTimesThree : List (Except Unit (Token String Int)) :=
  [.ok ⟨"INT", 2, none⟩, .ok ⟨"*", 0, none⟩, .ok ⟨"INT", 3, none⟩]

theorem two_times_three_is_tree_fold :
    ((Arithmetic.parser.endingWith "$eof").run 9 twoTimesThree).outcome = .value 6 ∧
      ∃ (tree : Tree String Int) (rest : List (Except Unit (Token String Int))),
        twoTimesThree = tree.leaves.map .ok ++ rest ∧
        tree.leaves.length =
          ((Arithmetic.parser.endingWith "$eof").run 9 twoTimesThree).shiftCount ∧
        tree.Fits Arithmetic.grammar ∧
        tree.postorder =
          ((Arithmetic.parser.endingWith "$eof").run 9 twoTimesThree).reductions ∧
        tree.eval = .ok 6 :=
  ⟨rfl, run_value_is_tree_fold (Arithmetic.parser.endingWith "$eof") 9 twoTimesThree rfl⟩

end Parser

end ShiftReduce
