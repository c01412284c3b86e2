import ShiftReduce.Proofs.Conduct
import ShiftReduce.Proofs.Scanning
/-!
The value of an arithmetic text against its exact value over unbounded integers. Sums and products
are exact or stop the parse. A power takes the exponent modulo `2 ^ 32` before anything is checked,
so a larger exponent goes unnoticed, and the result is another number, unless the base happens not
to tell the two exponents apart.
-/
namespace ShiftReduce.Arithmetic

open Signed64 (InRange low32)

/-- The base does not tell the exponent from its remainder modulo `2 ^ 32`. -/
def Indifferent (base exponent : Int) : Prop :=
  exponent < 0x100000000 ∨ base = 1 ∨ base = 0 ∧ exponent % 0x100000000 ≠ 0

theorem pow_low32_eq_iff {base exponent : Int} (natural : 0 ≤ base) (nonneg : 0 ≤ exponent) :
    base ^ low32 exponent = base ^ exponent.toNat ↔ Indifferent base exponent := by
  obtain ⟨b, rfl⟩ := Int.eq_ofNat_of_zero_le natural
  obtain ⟨n, rfl⟩ := Int.eq_ofNat_of_zero_le nonneg
  have cut : low32 (n : Int) = n % 0x100000000 := by
    unfold low32
    omega
  rw [cut, Int.toNat_natCast, ← Int.natCast_pow, ← Int.natCast_pow, Int.ofNat_inj]
  unfold Indifferent
  by_cases small : n < 0x100000000
  · rw [Nat.mod_eq_of_lt small]
    exact iff_of_true rfl (.inl (by omega))
  · have less : n % 0x100000000 < n := by omega
    -- a base of at least two grows strictly with the exponent
    rcases (by omega : b = 0 ∨ b = 1 ∨ 2 ≤ b) with rfl | rfl | big
    · have pos : n ≠ 0 := by omega
      rw [Nat.zero_pow (Nat.pos_of_ne_zero pos), Nat.pow_eq_zero]
      omega
    · rw [Nat.one_pow, Nat.one_pow]
      exact iff_of_true rfl (.inr (.inl rfl))
    · have grows := Nat.pow_lt_pow_right big less
      refine iff_of_false grows.ne ?_
      omega

namespace Derivation

variable {level : Level}

def exact : {level : Level} → Derivation level → Int
  | _, sum left _ right => left.exact + right.exact
  | _, multiplicative inner => inner.exact
  | _, product left _ right => left.exact * right.exact
  | _, power inner => inner.exact
  | _, raised base _ exponent => base.exact ^ exponent.exact.toNat
  | _, primary inner => inner.exact
  | _, integer literal => literal.1.value
  | _, grouped _ inner _ => inner.exact

section Everywhere

variable (P : {level : Level} → Derivation level → Prop)

def Everywhere : {level : Level} → Derivation level → Prop
  | _, sum left sign right => (left.Everywhere ∧ right.Everywhere) ∧ P (sum left sign right)
  | _, multiplicative inner => inner.Everywhere ∧ P (multiplicative inner)
  | _, product left sign right => (left.Everywhere ∧ right.Everywhere) ∧ P (product left sign right)
  | _, power inner => inner.Everywhere ∧ P (power inner)
  | _, raised base sign exponent =>
    (base.Everywhere ∧ exponent.Everywhere) ∧ P (raised base sign exponent)
  | _, primary inner => inner.Everywhere ∧ P (primary inner)
  | _, integer literal => P (integer literal)
  | _, grouped opening inner closing => inner.Everywhere ∧ P (grouped opening inner closing)

variable {P} {Q : {level : Level} → Derivation level → Prop}

theorem Everywhere.here {d : Derivation level} (h : d.Everywhere P) : P d := by
  cases d with
  | integer => exact h
  | _ => exact h.2

theorem Everywhere.mp {d : Derivation level} (h : d.Everywhere P)
    (step : d.Everywhere fun e => P e → Q e) : d.Everywhere Q := by
  induction d with
  | sum left sign right ihl ihr => exact ⟨⟨ihl h.1.1 step.1.1, ihr h.1.2 step.1.2⟩, step.2 h.2⟩
  | product left sign right ihl ihr => exact ⟨⟨ihl h.1.1 step.1.1, ihr h.1.2 step.1.2⟩, step.2 h.2⟩
  | raised base sign exponent ihl ihr =>
    exact ⟨⟨ihl h.1.1 step.1.1, ihr h.1.2 step.1.2⟩, step.2 h.2⟩
  | multiplicative inner ih => exact ⟨ih h.1 step.1, step.2 h.2⟩
  | power inner ih => exact ⟨ih h.1 step.1, step.2 h.2⟩
  | primary inner ih => exact ⟨ih h.1 step.1, step.2 h.2⟩
  | grouped opening inner closing ih => exact ⟨ih h.1 step.1, step.2 h.2⟩
  | integer literal => exact step h

theorem everywhere_of_forall (always : ∀ {level : Level} (d : Derivation level), P d)
    (d : Derivation level) : d.Everywhere P := by
  induction d with
  | sum left sign right ihl ihr => exact ⟨⟨ihl, ihr⟩, always _⟩
  | product left sign right ihl ihr => exact ⟨⟨ihl, ihr⟩, always _⟩
  | raised base sign exponent ihl ihr => exact ⟨⟨ihl, ihr⟩, always _⟩
  | multiplicative inner ih => exact ⟨ih, always _⟩
  | power inner ih => exact ⟨ih, always _⟩
  | primary inner ih => exact ⟨ih, always _⟩
  | grouped opening inner closing ih => exact ⟨ih, always _⟩
  | integer literal => exact always _

theorem Everywhere.mono {d : Derivation level} (h : d.Everywhere P)
    (weaker : ∀ {level : Level} (e : Derivation level), P e → Q e) : d.Everywhere Q :=
  h.mp (everywhere_of_forall weaker d)

theorem node_congr {A B p q : Prop} (below : A ↔ B) (here : A → (p ↔ q)) : A ∧ p ↔ B ∧ q :=
  (and_congr_right here).trans (and_congr_left' below)

end Everywhere

def Faithful (d : Derivation level) : Prop := d.value = d.exact

/-- The base of a power is indifferent to what is cut off the exponent. -/
def Unharmed : {level : Level} → Derivation level → Prop
  | _, raised base _ exponent => Indifferent base.exact exponent.exact
  | _, _ => True

def Limited : {level : Level} → Derivation level → Prop
  | _, raised _ _ exponent => exponent.exact < 0x100000000
  | _, _ => True

theorem Limited.unharmed {d : Derivation level} (limited : d.Limited) : d.Unharmed := by
  cases d with
  | raised => exact Or.inl limited
  | _ => trivial

theorem exact_nonneg {d : Derivation level} (natural : ∀ token ∈ d.tokens, 0 ≤ token.value) :
    0 ≤ d.exact := by
  induction d with
  | sum left sign right ihl ihr =>
    obtain ⟨first, later⟩ := List.forall_mem_append.1 natural
    exact Int.add_nonneg (ihl first) (ihr (List.forall_mem_cons.1 later).2)
  | product left sign right ihl ihr =>
    obtain ⟨first, later⟩ := List.forall_mem_append.1 natural
    exact Int.mul_nonneg (ihl first) (ihr (List.forall_mem_cons.1 later).2)
  | raised base sign exponent ihl ihr =>
    obtain ⟨first, later⟩ := List.forall_mem_append.1 natural
    exact Int.pow_nonneg (ihl first)
  | multiplicative inner ih => exact ih natural
  | power inner ih => exact ih natural
  | primary inner ih => exact ih natural
  | grouped opening inner closing ih =>
    exact ih (List.forall_mem_append.1 (List.forall_mem_cons.1 natural).2).1
  | integer literal => exact natural literal.1 List.mem_cons_self

theorem faithful_iff_unharmed {d : Derivation level}
    (natural : ∀ token ∈ d.tokens, 0 ≤ token.value) :
    d.Everywhere Faithful ↔ d.Everywhere Unharmed := by
  induction d with
  | sum left sign right ihl ihr =>
    obtain ⟨first, later⟩ := List.forall_mem_append.1 natural
    refine node_congr (and_congr (ihl first) (ihr (List.forall_mem_cons.1 later).2)) ?_
    intro operands
    exact iff_of_true (congrArg₂ (· + ·) operands.1.here operands.2.here) trivial
  | product left sign right ihl ihr =>
    obtain ⟨first, later⟩ := List.forall_mem_append.1 natural
    refine node_congr (and_congr (ihl first) (ihr (List.forall_mem_cons.1 later).2)) ?_
    intro operands
    exact iff_of_true (congrArg₂ (· * ·) operands.1.here operands.2.here) trivial
  | raised base sign exponent ihl ihr =>
    obtain ⟨first, later⟩ := List.forall_mem_append.1 natural
    have second := (List.forall_mem_cons.1 later).2
    refine node_congr (and_congr (ihl first) (ihr second)) ?_
    intro operands
    have sameBase : base.value = base.exact := operands.1.here
    have sameExponent : exponent.value = exponent.exact := operands.2.here
    change base.value ^ low32 exponent.value = base.exact ^ exponent.exact.toNat ↔ _
    rw [sameBase, sameExponent]
    exact pow_low32_eq_iff (exact_nonneg first) (exact_nonneg second)
  | multiplicative inner ih =>
    exact node_congr (ih natural) fun same => iff_of_true same.here trivial
  | power inner ih => exact node_congr (ih natural) fun same => iff_of_true same.here trivial
  | primary inner ih => exact node_congr (ih natural) fun same => iff_of_true same.here trivial
  | grouped opening inner closing ih =>
    have inside := ih (List.forall_mem_append.1 (List.forall_mem_cons.1 natural).2).1
    exact node_congr inside fun same => iff_of_true same.here trivial
  | integer literal => exact iff_of_true rfl trivial

theorem withinRange_iff {d : Derivation level} (literals : ∀ token ∈ d.tokens, InRange token.value) :
    WithinRange d.checks ↔ d.Everywhere fun e => InRange e.value := by
  induction d with
  | sum left sign right ihl ihr =>
    obtain ⟨first, later⟩ := List.forall_mem_append.1 literals
    exact withinRange_operation_iff (ihl first) (ihr (List.forall_mem_cons.1 later).2)
  | product left sign right ihl ihr =>
    obtain ⟨first, later⟩ := List.forall_mem_append.1 literals
    exact withinRange_operation_iff (ihl first) (ihr (List.forall_mem_cons.1 later).2)
  | raised base sign exponent ihl ihr =>
    obtain ⟨first, later⟩ := List.forall_mem_append.1 literals
    exact withinRange_operation_iff (ihl first) (ihr (List.forall_mem_cons.1 later).2)
  | multiplicative inner ih =>
    refine withinRange_unit_iff.trans (node_congr (ih literals) ?_)
    exact fun within => iff_of_true rfl ((ih literals).1 within).here
  | power inner ih =>
    refine withinRange_unit_iff.trans (node_congr (ih literals) ?_)
    exact fun within => iff_of_true rfl ((ih literals).1 within).here
  | primary inner ih =>
    refine withinRange_unit_iff.trans (node_congr (ih literals) ?_)
    exact fun within => iff_of_true rfl ((ih literals).1 within).here
  | grouped opening inner closing ih =>
    have inside := ih (List.forall_mem_append.1 (List.forall_mem_cons.1 literals).2).1
    refine withinRange_unit_iff.trans (node_congr inside ?_)
    exact fun within => iff_of_true rfl (inside.1 within).here
  | integer literal =>
    refine iff_of_true ?_ (literals literal.1 List.mem_cons_self)
    intro check member
    rw [List.mem_singleton.1 member]

theorem inRange_exact_iff {d : Derivation level} (faithful : d.Everywhere Faithful) :
    (d.Everywhere fun e => InRange e.value) ↔ d.Everywhere fun e => InRange e.exact := by
  have agree : d.Everywhere fun e => (InRange e.value ↔ InRange e.exact) := by
    refine faithful.mono ?_
    intro level e same
    rw [same]
  exact ⟨fun h => h.mp (agree.mono fun _ => Iff.mp), fun h => h.mp (agree.mono fun _ => Iff.mpr)⟩

end Derivation

structure Proper (token : Token String Int) : Prop where
  symbol : token.symbol ≠ endSymbol
  natural : 0 ≤ token.value
  inside : InRange token.value

theorem integerRun_value {c : Char} {rest : List Char} {kind : Kind}
    (found : (integerRun Kind.integer c rest).1 = some kind) :
    0 ≤ kind.value ∧ InRange kind.value := by
  obtain ⟨n, read, rfl⟩ := Option.map_eq_some_iff.1 found
  obtain ⟨inside, rfl⟩ := Signed64.inRange?_eq_some_iff.1 read
  exact ⟨Int.natCast_nonneg _, inside⟩

theorem lexicon_value {c : Char} {rest : List Char} {kind : Kind}
    (found : (lexicon c rest).1 = some kind) : 0 ≤ kind.value ∧ InRange kind.value := by
  unfold lexicon at found
  split at found
  case h_6 =>
    split at found
    · exact integerRun_value found
    · cases found
  all_goals
    cases found
    exact ⟨Int.le_refl 0, by decide⟩

theorem tokens_proper (text : String) : ∀ token, .ok token ∈ tokens text → Proper token := by
  intro t member
  obtain ⟨⟨line, x⟩, inside, read⟩ := List.mem_map.1 member
  obtain ⟨c, rest, kind⟩ := found_of_mem_lexemes inside
  dsimp only at read kind
  unfold token Lexeme.item at read
  rw [kind] at read
  split at read
  next known found =>
    cases read
    obtain ⟨natural, inside⟩ := lexicon_value found
    refine ⟨?_, natural, inside⟩
    cases known <;> simp [Kind.symbol, endSymbol]
  next => cases read

section Text

variable {text : String} {d : Derivation .additive}

def Written (text : String) (d : Derivation .additive) : Prop := tokens text = d.tokens.map .ok

theorem Written.proper (written : Written text d) : ∀ token ∈ d.tokens, Proper token := by
  intro token member
  apply tokens_proper text token
  rw [written]
  exact List.mem_map_of_mem member

theorem Written.items (written : Written text d) : tokensWithEnd text =
    d.tree.leaves.map .ok ++ [.ok ⟨endSymbol, 0, some (lastLine text)⟩] := by
  rw [d.leaves_tree, ← written]
  rfl

theorem Written.run (written : Written text d) :
    match d.tree.eval with
    | .ok v => (parse parser (tokensWithEnd text)).outcome = .value v
    | .error i => (parse parser (tokensWithEnd text)).outcome = i.cause.outcome := by
  have fewer : d.tree.leaves.length ≤ (tokensWithEnd text).length := by
    rw [written.items, List.length_append, List.length_map]
    exact Nat.le_add_right _ _
  have look : parser.lookahead? (E := LexError) [.ok ⟨endSymbol, 0, some (lastLine text)⟩] =
      some endSymbol := rfl
  have run := certified.run_of_derived d.derived_tree d.symbol_tree look (room fewer)
  rw [← written.items] at run
  cases evaluated : d.tree.eval with
  | ok v =>
    rw [evaluated] at run
    exact run
  | error i =>
    rw [evaluated] at run
    exact run.1

theorem written_of_parse {v : Int}
    (accepted : (parse parser (tokensWithEnd text)).outcome = .value v) : ∃ d, Written text d := by
  obtain ⟨t, rest, split, derived, root, _, _, look⟩ := certified.derivation_of_run accepted
  obtain ⟨d, rfl⟩ := @exists_derivation t derived .additive root
  refine ⟨d, ?_⟩
  rw [d.leaves_tree] at split
  unfold tokensWithEnd at split
  rcases List.append_eq_append_iff.1 split with ⟨more, leaves, ended⟩ | ⟨more, leaves, rfl⟩
  · cases more with
    | nil =>
      rw [List.append_nil] at leaves
      exact leaves.symm
    | cons item more =>
      -- nothing is left to end the input
      obtain ⟨rfl, rfl⟩ := List.append_eq_nil_iff.1 (List.cons.inj ended).2.symm
      cases look
  · cases more with
    | nil =>
      rw [List.append_nil] at leaves
      exact leaves
    | cons item more =>
      have inside : item ∈ tokens text := by
        rw [leaves]
        exact List.mem_append_right _ List.mem_cons_self
      cases item with
      | error e => cases look
      | ok token => exact absurd (Option.some.inj look) (tokens_proper text token inside).symbol

theorem Written.unique {e : Derivation .additive} (written : Written text d)
    (other : Written text e) : e = d := by
  unfold Written at written other
  rw [written] at other
  exact (tokens_injective ((List.map_inj_right fun _ _ => Except.ok.inj).1 other)).symm

theorem Written.within_iff (written : Written text d) :
    WithinRange d.checks ↔ d.Everywhere fun e => InRange e.value :=
  Derivation.withinRange_iff fun token member => (written.proper token member).inside

theorem Written.value (written : Written text d) (inside : d.Everywhere fun e => InRange e.value) :
    (parse parser (tokensWithEnd text)).outcome = .value d.value := by
  have run := written.run
  rw [eval_tree_eq_ok.2 ⟨written.within_iff.2 inside, rfl⟩] at run
  exact run

theorem Written.overflow (written : Written text d)
    (outside : ¬ d.Everywhere fun e => InRange e.value) :
    ∃ operation, (parse parser (tokensWithEnd text)).outcome = .fault (.overflow operation) := by
  rw [← written.within_iff, ← interruption?_eq_none_iff] at outside
  obtain ⟨i, broken⟩ := Option.ne_none_iff_exists'.1 outside
  obtain ⟨operation, cause⟩ := interruption?_fault broken
  have run := written.run
  rw [d.checked_tree.eval, evaluation, broken] at run
  refine ⟨operation, run.trans ?_⟩
  rw [cause]
  rfl

theorem Written.value_iff (written : Written text d) {v : Int} :
    (parse parser (tokensWithEnd text)).outcome = .value v ↔
      (d.Everywhere fun e => InRange e.value) ∧ d.value = v := by
  by_cases inside : d.Everywhere fun e => InRange e.value
  · rw [written.value inside, Outcome.value.injEq]
    exact (and_iff_right inside).symm
  · obtain ⟨operation, stopped⟩ := written.overflow inside
    rw [stopped]
    exact iff_of_false (fun same => by cases same) (fun h => inside h.1)

theorem Written.faithful_iff (written : Written text d) :
    d.Everywhere Derivation.Faithful ↔ d.Everywhere Derivation.Unharmed :=
  Derivation.faithful_iff_unharmed fun token member => (written.proper token member).natural

/-- A text is parsed to the value computed over its only derivation, and all that is computed is
exact if and only if every base is indifferent to what is cut off its exponent. -/
theorem value_exact_where_exponents_fit (text : String) :
    (∀ v, (parse parser (tokensWithEnd text)).outcome = .value v →
      ∃ d, Written text d ∧ (∀ e, Written text e → e = d) ∧ d.value = v ∧
        (d.Everywhere fun e => InRange e.value) ∧
        (d.Everywhere Derivation.Faithful ↔ d.Everywhere Derivation.Unharmed)) ∧
    ∀ d, Written text d → d.Everywhere Derivation.Limited →
      (∀ v, (parse parser (tokensWithEnd text)).outcome = .value v ↔
        (d.Everywhere fun e => InRange e.exact) ∧ d.exact = v) ∧
      ((¬ d.Everywhere fun e => InRange e.exact) →
        ∃ operation, (parse parser (tokensWithEnd text)).outcome = .fault (.overflow operation)) := by
  constructor
  · intro v accepted
    obtain ⟨d, written⟩ := written_of_parse accepted
    obtain ⟨inside, value⟩ := written.value_iff.1 accepted
    exact ⟨d, written, fun e => written.unique, value, inside, written.faithful_iff⟩
  · intro d written limited
    have faithful := written.faithful_iff.2 (limited.mono fun _ => Derivation.Limited.unharmed)
    have same : d.value = d.exact := faithful.here
    have inside := Derivation.inRange_exact_iff faithful
    constructor
    · intro v
      rw [written.value_iff, inside, same]
    · intro outside
      exact written.overflow fun within => outside (inside.1 within)

def literalPower (base : Terminal "INT") (sign : Terminal "**") (exponent : Terminal "INT") :
    Derivation .additive :=
  .multiplicative (.power (.raised (.integer base) sign (.primary (.integer exponent))))

theorem exact_literalPower (base : Terminal "INT") (sign : Terminal "**")
    (exponent : Terminal "INT") :
    (literalPower base sign exponent).exact = base.1.value ^ exponent.1.value.toNat := rfl

theorem two_pow_outside {n : Nat} (long : 64 ≤ n) : ¬ InRange ((2 : Int) ^ n) := by
  have grows : (2 ^ 64 : Nat) ≤ 2 ^ n := Nat.pow_le_pow_right (by decide) long
  have cast : ((2 ^ n : Nat) : Int) = 2 ^ n := Int.natCast_pow 2 n
  intro inside
  have most := inside.2
  rw [← cast] at most
  unfold Signed64.greatest at most
  omega

theorem two_cubed_exact :
    ∃ d, Written "2**3" d ∧ d.Everywhere Derivation.Limited ∧
      (d.Everywhere fun e => InRange e.exact) ∧
      (parse parser (tokensWithEnd "2**3")).outcome = .value 8 := by
  have read : tokens "2**3" =
      [.ok ⟨"INT", 2, some 1⟩, .ok ⟨"**", 0, some 1⟩, .ok ⟨"INT", 3, some 1⟩] := by
    unfold tokens
    rw [lexemes_eq]
    rfl
  let d := literalPower ⟨⟨"INT", 2, some 1⟩, rfl⟩ ⟨⟨"**", 0, some 1⟩, rfl⟩ ⟨⟨"INT", 3, some 1⟩, rfl⟩
  have written : Written "2**3" d := read
  have limited : d.Everywhere Derivation.Limited := by
    simp [d, literalPower, Derivation.Everywhere, Derivation.Limited, Derivation.exact]
  have inside : d.Everywhere fun e => InRange e.exact := by
    simp only [d, literalPower, Derivation.Everywhere, Derivation.exact]
    decide
  have small := (value_exact_where_exponents_fit "2**3").2 d written limited
  exact ⟨d, written, limited, inside, (small.1 8).2 ⟨inside, rfl⟩⟩

/-- The exponent of `2 ** 4294967296` is cut off to zero: the text is parsed to 1, though the exact
value is out of range. -/
theorem large_exponent_cut :
    (parse parser (tokensWithEnd "2 ** 4294967296")).outcome = .value 1 ∧
      ∃ d, Written "2 ** 4294967296" d ∧ ¬ InRange d.exact ∧ d.exact ≠ 1 := by
  have read : tokens "2 ** 4294967296" =
      [.ok ⟨"INT", 2, some 1⟩, .ok ⟨"**", 0, some 1⟩, .ok ⟨"INT", 4294967296, some 1⟩] := by
    unfold tokens
    rw [lexemes_eq]
    rfl
  let d := literalPower ⟨⟨"INT", 2, some 1⟩, rfl⟩ ⟨⟨"**", 0, some 1⟩, rfl⟩
    ⟨⟨"INT", 4294967296, some 1⟩, rfl⟩
  have written : Written "2 ** 4294967296" d := read
  have outside : ¬ InRange d.exact := by
    rw [exact_literalPower]
    exact two_pow_outside (by decide)
  refine ⟨?_, d, written, outside, ?_⟩
  · unfold tokensWithEnd
    rw [read]
    rfl
  · intro one
    rw [one] at outside
    exact outside (by decide)

end Text

end ShiftReduce.Arithmetic
