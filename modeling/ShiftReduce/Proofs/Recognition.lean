import ShiftReduce.Proofs.Unambiguous
/-!
Parsers that recognize exactly their grammar. A certificate holds what makes a parser coherent and
complete, and weights that bound its reductions; it is checked once for a table. A certified parser
yields a value just when the tokens before the end of the input have a derivation tree that
evaluates to it, and where the evaluation breaks down it breaks down in the same way.
-/
namespace ShiftReduce

variable {S V E : Type}

namespace Tree

mutual

theorem reduced_first : (t : Tree S V) → {i : Interruption S V} → t.eval = .error i →
    i.reduced <+: t.postorder
  | .leaf _, _, broken => by cases broken
  | .node rule children, i, broken => by
    unfold eval at broken
    unfold postorder
    cases evaluated : evalAll children with
    | error inner =>
      rw [evaluated] at broken
      cases broken
      exact (reduced_first_all children evaluated).trans (List.prefix_append _ _)
    | ok values =>
      rw [evaluated] at broken
      dsimp only at broken
      split at broken
      · cases broken
        exact List.prefix_append _ _
      · cases broken

theorem reduced_first_all : (ts : List (Tree S V)) → {i : Interruption S V} →
    evalAll ts = .error i → i.reduced <+: postorderAll ts
  | [], _, broken => by cases broken
  | child :: children, i, broken => by
    unfold evalAll at broken
    unfold postorderAll
    cases evaluated : child.eval with
    | error inner =>
      rw [evaluated] at broken
      cases broken
      exact (reduced_first child evaluated).trans (List.prefix_append _ _)
    | ok value =>
      rw [evaluated] at broken
      dsimp only at broken
      split at broken
      · next later others =>
        cases broken
        exact (List.prefix_append_right_inj _).2 (reduced_first_all children others)
      · cases broken

end

end Tree

def tokensBefore [DecidableEq S] (ending : S) (ts : List (Token S V)) : List (Token S V) :=
  ts.takeWhile fun token => token.symbol ≠ ending

theorem ne_of_mem_tokensBefore [DecidableEq S] {ending : S} {ts : List (Token S V)} :
    ∀ token ∈ tokensBefore ending ts, token.symbol ≠ ending := by
  induction ts with
  | nil => exact List.forall_mem_nil _
  | cons first ts ih =>
    unfold tokensBefore
    rw [List.takeWhile_cons]
    split
    · next proper => exact List.forall_mem_cons.2 ⟨of_decide_eq_true proper, ih⟩
    · exact List.forall_mem_nil _

structure Certificate (S : Type) where
  kernel : Nat → List (Nat × Nat)
  first : S → List (Option S)
  follow : Nat → S → List S
  weight : S → Int
  bound : Nat

namespace Parser

theorem before_ending_unique {p : Parser S V} {ending : S}
    {rest rest' : List (Except E (Token S V))} {w w' : List (Token S V)}
    (proper : ∀ token ∈ w, token.symbol ≠ ending) (proper' : ∀ token ∈ w', token.symbol ≠ ending)
    (look : p.lookahead? rest = some ending) (look' : p.lookahead? rest' = some ending)
    (same : w.map .ok ++ rest = w'.map .ok ++ rest') : w = w' := by
  induction w generalizing w' with
  | nil =>
    cases w' with
    | nil => rfl
    | cons token tokens =>
      rw [List.map_nil, List.nil_append] at same
      rw [same] at look
      exact absurd (Option.some.inj look) (proper' token List.mem_cons_self)
  | cons token tokens ih =>
    cases w' with
    | nil =>
      rw [List.map_nil, List.nil_append] at same
      rw [← same] at look'
      exact absurd (Option.some.inj look') (proper token List.mem_cons_self)
    | cons token' tokens' =>
      obtain ⟨here, later⟩ := List.cons.inj same
      rw [Except.ok.inj here, ih (List.forall_mem_cons.1 proper).2
        (List.forall_mem_cons.1 proper').2 later]

theorem ending_mem {p : Parser S V} {ending : S} (explicit : p.endOfInput = none)
    {ts w : List (Token S V)} {rest : List (Except E (Token S V))}
    (split : ts.map .ok = w.map .ok ++ rest) (look : p.lookahead? rest = some ending) :
    ∃ token ∈ ts, token.symbol = ending := by
  cases rest with
  | nil =>
    unfold lookahead? at look
    rw [explicit] at look
    cases look
  | cons item rest =>
    have member : item ∈ ts.map .ok := by
      rw [split]
      exact List.mem_append_right _ List.mem_cons_self
    obtain ⟨token, inside, rfl⟩ := List.mem_map.1 member
    exact ⟨token, inside, Option.some.inj look⟩

variable [DecidableEq S]

theorem tokensBefore_split (p : Parser S V) {ending : S} {ts : List (Token S V)}
    (ended : ∃ token ∈ ts, token.symbol = ending) :
    ∃ rest : List (Except E (Token S V)),
      ts.map .ok = (tokensBefore ending ts).map .ok ++ rest ∧ p.lookahead? rest = some ending := by
  induction ts with
  | nil =>
    obtain ⟨_, member, _⟩ := ended
    cases member
  | cons first ts ih =>
    unfold tokensBefore
    rw [List.takeWhile_cons]
    by_cases last : first.symbol = ending
    · have stops : ¬ decide (first.symbol ≠ ending) = true := by
        rw [decide_eq_true_iff]
        exact fun proper => proper last
      rw [if_neg stops]
      exact ⟨(first :: ts).map .ok, rfl, congrArg some last⟩
    · have later : ∃ token ∈ ts, token.symbol = ending := by
        obtain ⟨token, member, same⟩ := ended
        rcases List.mem_cons.1 member with rfl | later
        · exact absurd same last
        · exact ⟨token, later, same⟩
      obtain ⟨rest, split, look⟩ := ih later
      rw [if_pos (decide_eq_true last)]
      refine ⟨rest, ?_, look⟩
      rw [List.map_cons, List.map_cons, split]
      rfl

theorem tokensBefore_length_le (ending : S) (ts : List (Token S V)) :
    (tokensBefore ending ts).length ≤ ts.length :=
  (List.takeWhile_prefix _).length_le

structure Certified (p : Parser S V) (c : Certificate S) (ending : S) : Prop where
  coherent : p.Coherent c.kernel ending
  complete : p.Complete c.first c.follow ending
  weighs : Tree.Weighs p.grammar c.weight c.bound

variable {p : Parser S V} {c : Certificate S} {ending : S}
  {rest : List (Except E (Token S V))}

namespace Certified

theorem run_of_derived (certified : p.Certified c ending) {t : Tree S V}
    (derived : t.Derived p.grammar) (root : t.symbol = p.grammar.start)
    (look : p.lookahead? rest = some ending) {limit : Nat}
    (room : (c.bound * t.leaves.length : Int) < limit + c.weight p.grammar.start) :
    match t.eval with
    | .ok v => (p.run limit (t.leaves.map .ok ++ rest)).outcome = .value v
    | .error i => (p.run limit (t.leaves.map .ok ++ rest)).outcome = i.cause.outcome ∧
        (p.run limit (t.leaves.map .ok ++ rest)).reductions = i.reduced := by
  have few := derived.postorder_length_le certified.weighs
  rw [root] at few
  have halts := certified.complete.halts derived root look
  cases evaluated : t.eval with
  | ok v =>
    rw [evaluated] at halts
    obtain ⟨ss, halts, reduced⟩ := halts
    have short : (reductions ss).length < limit := by
      rw [reduced]
      omega
    exact (run_of_halts halts short).1
  | error i =>
    rw [evaluated] at halts
    obtain ⟨ss, halts, reduced⟩ := halts
    have part := (t.reduced_first evaluated).length_le
    have short : (reductions ss).length < limit := by
      rw [reduced]
      omega
    obtain ⟨outcome, steps⟩ := run_of_halts halts short
    exact ⟨outcome, by rw [Run.reductions, steps, reduced]⟩

theorem derivation_of_run (certified : p.Certified c ending)
    {items : List (Except E (Token S V))} {limit : Nat} {v : V}
    (accepted : (p.run limit items).outcome = .value v) :
    ∃ (t : Tree S V) (rest : List (Except E (Token S V))),
      items = t.leaves.map .ok ++ rest ∧ t.Derived p.grammar ∧ t.symbol = p.grammar.start ∧
      t.eval = .ok v ∧ (∀ token ∈ t.leaves, token.symbol ≠ ending) ∧
      p.lookahead? rest = some ending := by
  have ended : (p.run limit items).outcome ≠ .unfinished := by
    intro unfinished
    rw [accepted] at unfinished
    cases unfinished
  have halts := halts_of_run ended
  rw [accepted] at halts
  exact certified.coherent.derivation_of_halts halts

/-- The tokens before the end of the input are parsed to a value if and only if they have a
derivation tree with this value. -/
theorem run_value_iff (certified : p.Certified c ending) {w : List (Token S V)}
    (proper : ∀ token ∈ w, token.symbol ≠ ending) (look : p.lookahead? rest = some ending)
    {limit : Nat} (room : (c.bound * w.length : Int) < limit + c.weight p.grammar.start) {v : V} :
    (p.run limit (w.map .ok ++ rest)).outcome = .value v ↔
      ∃ t : Tree S V, t.Derived p.grammar ∧ t.symbol = p.grammar.start ∧ t.leaves = w ∧
        t.eval = .ok v := by
  constructor
  · intro accepted
    obtain ⟨t, rest', split, derived, root, evaluated, proper', look'⟩ :=
      certified.derivation_of_run accepted
    exact ⟨t, derived, root, (before_ending_unique proper proper' look look' split).symm, evaluated⟩
  · rintro ⟨t, derived, root, rfl, evaluated⟩
    have run := certified.run_of_derived derived root look room
    rw [evaluated] at run
    exact run

theorem run_tokens_iff (certified : p.Certified c ending) (explicit : p.endOfInput = none)
    (ts : List (Token S V)) {limit : Nat}
    (room : (c.bound * ts.length : Int) < limit + c.weight p.grammar.start) {v : V} :
    (p.run limit (ts.map (.ok (ε := E)))).outcome = .value v ↔
      (∃ token ∈ ts, token.symbol = ending) ∧
      ∃ t : Tree S V, t.Derived p.grammar ∧ t.symbol = p.grammar.start ∧
        t.leaves = tokensBefore ending ts ∧ t.eval = .ok v := by
  have fewer : (c.bound * (tokensBefore ending ts).length : Int) ≤ c.bound * ts.length := by
    exact_mod_cast Nat.mul_le_mul_left c.bound (tokensBefore_length_le ending ts)
  by_cases ended : ∃ token ∈ ts, token.symbol = ending
  · obtain ⟨rest, split, look⟩ := tokensBefore_split (E := E) p ended
    rw [split, certified.run_value_iff ne_of_mem_tokensBefore look (by omega)]
    exact (and_iff_right ended).symm
  · constructor
    · intro accepted
      obtain ⟨t, rest, split, _, _, _, _, look⟩ := certified.derivation_of_run accepted
      exact absurd (ending_mem explicit split look) ended
    · intro h
      exact absurd h.1 ended

end Certified

end Parser

end ShiftReduce
