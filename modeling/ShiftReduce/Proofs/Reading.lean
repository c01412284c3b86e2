import Mathlib.Data.List.DropRight
import Mathlib.Data.List.Infix
import ShiftReduce.Arithmetic.Grammar
import ShiftReduce.Proofs.Pulled
/-!
How far a run reads. Reductions take no item, a shift takes the one that it shifts, and a run that
ends on an item has taken no other. So a run that ends on an item does not depend on the items after
it, and a faulty item is found out as soon as all the items before it are shifted.
-/
namespace ShiftReduce

variable {S V E : Type}

def LogEntry.isExhaustion : LogEntry S V → Bool
  | .endOfInput => true
  | .exhausted _ => true
  | _ => false

inductive Place (E : Type) where
  | fault (e : E)
  | rejection
  | ending
  | other

def Outcome.place : Outcome S V E → Place E
  | .error (.lexer e) => .fault e
  | .error (.unexpectedToken _ _ _) => .rejection
  | .error (.unexpectedEnd _ _) => .ending
  | _ => .other

theorem Outcome.place_fault {o : Outcome S V E} {e : E} :
    o.place = .fault e ↔ o = .error (.lexer e) := by
  constructor
  · intro h
    unfold place at h
    split at h
    · cases h
      rfl
    · cases h
    · cases h
    · cases h
  · intro h
    rw [h]
    rfl

theorem place_acceptance (stack : Stack V) : (stack.acceptance : Outcome S V E).place = .other := by
  unfold Stack.acceptance
  split <;> rfl

theorem place_breakdown (cause : Breakdown S V) :
    (cause.outcome : Outcome S V E).place = .other := by
  cases cause <;> rfl

/-- What a parse has taken from its source and reported, and whether it was told that there are no
more items. -/
structure Tally where
  pulled : Nat
  exhausted : Bool
  reports : List Report

def Progress.tally (r : Progress S V) : Tally :=
  ⟨r.pulled, r.log.toList.any LogEntry.isExhaustion, r.reports.toList⟩

def Run.tally (r : Run S V E) : Tally :=
  ⟨r.pulled, r.log.toList.any LogEntry.isExhaustion, r.reports.toList⟩

def untilLastShift (ss : List Step) : List Step := ss.rdropWhile fun s => !s.isShift

theorem untilLastShift_append {ss ts : List Step} (quiet : ∀ s ∈ ts, s.isShift = false) :
    untilLastShift (ss ++ ts) = untilLastShift ss := by
  unfold untilLastShift
  induction ts using List.reverseRecOn with
  | nil => rw [List.append_nil]
  | append_singleton ts s ih =>
    obtain ⟨quiet, last⟩ := List.forall_mem_append.1 quiet
    have dropped : (!s.isShift) = true := by rw [last s List.mem_cons_self]; rfl
    rw [← List.append_assoc]
    have shorter := List.rdropWhile_concat_pos (fun s : Step => !s.isShift) (ss ++ ts) s dropped
    exact shorter.trans (ih quiet)

theorem untilLastShift_concat {s : Step} (shift : s.isShift = true) (ss : List Step) :
    untilLastShift (ss ++ [s]) = ss ++ [s] := by
  apply List.rdropWhile_concat_neg
  rw [shift]
  exact Bool.false_ne_true

theorem shiftCount_eq_zero {ss : List Step} (quiet : ∀ s ∈ ss, s.isShift = false) :
    shiftCount ss = 0 := by
  apply List.countP_eq_zero.2
  intro s member
  rw [quiet s member]
  exact Bool.false_ne_true

namespace Tally

def shifts (t : Tally) : Nat := shiftCount (t.reports.map Report.step)

def report (t : Tally) (s : Step) : Tally := { t with reports := t.reports ++ [⟨t.pulled, s⟩] }

def take (t : Tally) : Tally := { t with pulled := t.pulled + 1 }

def exhaust (t : Tally) : Tally := { t with exhausted := true }

theorem shifts_report {t : Tally} {s : Step} (shift : s.isShift = true) :
    (t.report s).shifts = t.shifts + 1 := by
  simp [shifts, report, shiftCount, shift]

/-- What reductions, and an acceptance, make of a tally: they take no item and report no shift. -/
structure Reduces (t u : Tally) : Prop where
  pulled : u.pulled = t.pulled
  exhausted : u.exhausted = t.exhausted
  reports : ∃ ss : List Step, u.reports = t.reports ++ ss.map (.mk t.pulled) ∧
    ∀ s ∈ ss, s.isShift = false

variable {t u v : Tally}

theorem Reduces.refl (t : Tally) : t.Reduces t :=
  ⟨rfl, rfl, [], (List.append_nil _).symm, List.forall_mem_nil _⟩

theorem Reduces.trans (h : t.Reduces u) (h' : u.Reduces v) : t.Reduces v := by
  obtain ⟨ss, reports, quiet⟩ := h.reports
  obtain ⟨ts, reports', quiet'⟩ := h'.reports
  refine ⟨h'.pulled.trans h.pulled, h'.exhausted.trans h.exhausted, ss ++ ts, ?_,
    List.forall_mem_append.2 ⟨quiet, quiet'⟩⟩
  rw [reports', reports, h.pulled, List.map_append, List.append_assoc]

theorem steps_mk (pulled : Nat) (ss : List Step) :
    (ss.map (Report.mk pulled)).map Report.step = ss := by
  rw [List.map_map]
  exact List.map_id' ss

theorem Reduces.untilLastShift (h : t.Reduces u) :
    untilLastShift (u.reports.map Report.step) = untilLastShift (t.reports.map Report.step) := by
  obtain ⟨ss, reports, quiet⟩ := h.reports
  rw [reports, List.map_append, steps_mk, untilLastShift_append quiet]

theorem Reduces.shifts (h : t.Reduces u) : u.shifts = t.shifts := by
  obtain ⟨ss, reports, quiet⟩ := h.reports
  unfold Tally.shifts
  rw [reports, List.map_append, shiftCount_append, steps_mk, shiftCount_eq_zero quiet, Nat.add_zero]

/-- What a token that is shifted makes of a tally: it is taken, there are reductions, and then a
shift is reported. -/
inductive Shifts (t : Tally) : Tally → Prop where
  | intro {here : Tally} {s : Step} (reduces : t.take.Reduces here) (shift : s.isShift = true) :
      Shifts t (here.report s)

theorem Shifts.shifts (h : t.Shifts u) : u.shifts = t.shifts + 1 := by
  cases h with
  | intro reduces shift =>
    rw [shifts_report shift]
    exact congrArg (· + 1) reduces.shifts

theorem Shifts.pulled (h : t.Shifts u) : u.pulled = t.pulled + 1 := by
  cases h with
  | intro reduces _ => exact reduces.pulled

theorem Shifts.exhausted (h : t.Shifts u) : u.exhausted = t.exhausted := by
  cases h with
  | intro reduces _ => exact reduces.exhausted

theorem Shifts.untilLastShift (h : t.Shifts u) :
    untilLastShift (u.reports.map Report.step) = u.reports.map Report.step := by
  cases h with
  | @intro here s _ shift =>
    have steps : (here.report s).reports.map Report.step = here.reports.map Report.step ++ [s] :=
      List.map_append
    rw [steps]
    exact untilLastShift_concat shift _

/-- The items taken are those shifted and the next one, a token, or they are all. -/
def Timely (items : List (Except E (Token S V))) (t : Tally) : Prop :=
  (∃ token, items[t.shifts]? = some (.ok token) ∧ t.pulled = t.shifts + 1) ∨
    items.length = t.shifts ∧ t.pulled = t.shifts

end Tally

/-- When a report is made after `shifted` shifts: on the next item, which is a token and has been
taken, or at the end of the items, where nothing can be shifted. -/
def Report.Punctual (items : List (Except E (Token S V))) (shifted : Nat) (report : Report) :
    Prop :=
  (∃ token, items[shifted]? = some (.ok token) ∧ report.pulled = shifted + 1) ∨
    items.length = shifted ∧ report.pulled = shifted ∧ report.step.isShift = false

theorem Report.Punctual.pulled_of_shift {items : List (Except E (Token S V))} {shifted : Nat}
    {report : Report} (h : report.Punctual items shifted) (shift : report.step.isShift = true) :
    report.pulled = shifted + 1 := by
  rcases h with ⟨_, _, pulled⟩ | ⟨_, _, quiet⟩
  · exact pulled
  · rw [quiet] at shift
    cases shift

def Punctual (items : List (Except E (Token S V))) (reports : List Report) : Prop :=
  ∀ before report, before ++ [report] <+: reports →
    report.Punctual items (shiftCount (before.map Report.step))

section Punctual

variable {items : List (Except E (Token S V))} {t u : Tally}

theorem Punctual.nil : Punctual items [] := by
  intro before report begins
  have empty := List.eq_nil_of_prefix_nil begins
  simp at empty

theorem Punctual.report (h : Punctual items t.reports) {s : Step}
    (last : Report.Punctual items t.shifts ⟨t.pulled, s⟩) :
    Punctual items (t.report s).reports := by
  intro before other begins
  rcases List.prefix_concat_iff.1 begins with whole | early
  · obtain ⟨rfl, same⟩ := List.append_inj' whole rfl
    obtain rfl := List.singleton_inj.1 same
    exact last
  · exact h before other early

theorem Tally.Reduces.punctual (h : t.Reduces u) (before : Punctual items t.reports)
    (now : t.Timely items) : Punctual items u.reports := by
  obtain ⟨ss, reports, quiet⟩ := h.reports
  rw [reports]
  clear reports
  induction ss using List.reverseRecOn with
  | nil =>
    rw [List.map_nil, List.append_nil]
    exact before
  | append_singleton ss s ih =>
    obtain ⟨quiet, last⟩ := List.forall_mem_append.1 quiet
    rw [List.map_append, ← List.append_assoc]
    have shifts : ({ t with reports := t.reports ++ ss.map (.mk t.pulled) } : Tally).shifts =
        t.shifts := by
      unfold Tally.shifts
      rw [List.map_append, shiftCount_append, steps_mk, shiftCount_eq_zero quiet, Nat.add_zero]
    apply Punctual.report (t := { t with reports := t.reports ++ ss.map (.mk t.pulled) }) (ih quiet)
    rw [shifts]
    rcases now with ⟨token, here, pulled⟩ | ⟨ending, pulled⟩
    · exact .inl ⟨token, here, pulled⟩
    · exact .inr ⟨ending, pulled, last s List.mem_cons_self⟩

theorem Tally.Shifts.punctual (h : t.Shifts u) (before : Punctual items t.reports)
    {token : Token S V} (next : items[t.shifts]? = some (.ok token))
    (pulled : t.pulled = t.shifts) : Punctual items u.reports := by
  cases h with
  | intro reduces shift =>
    have now : t.take.pulled = t.shifts + 1 := congrArg Nat.succ pulled
    apply (reduces.punctual before (.inl ⟨token, next, now⟩)).report
    rw [reduces.shifts]
    exact .inl ⟨token, next, reduces.pulled.trans now⟩

end Punctual

section Tally

variable (r : Progress S V)

theorem tally_note {entry : LogEntry S V} (silent : entry.isExhaustion = false) :
    (r.note entry).tally = r.tally := by
  simp [Progress.tally, Progress.note, silent]

theorem tally_exhausted {entry : LogEntry S V} (told : entry.isExhaustion = true) :
    (r.note entry).tally = r.tally.exhaust := by
  simp [Progress.tally, Progress.note, Tally.exhaust, told]

theorem tally_remarks (texts : List String) :
    (texts.foldl (fun r text => r.note (.remark text)) r).tally = r.tally := by
  simp [Progress.remarks_eq, Progress.tally, LogEntry.isExhaustion]

theorem tally_report (state : Nat) (action : Action) :
    (r.report state action).tally = r.tally.report (r.stack.step state action) := by
  simp [Progress.tally, Progress.report, Tally.report, Stack.step]

theorem tally_shift (state next : Nat) (token : Token S V) :
    (r.shift state token next).tally =
      r.tally.report ((r.stack.push next token.value).step state (.shift next)) := by
  unfold Progress.shift
  rw [tally_report]
  exact congrArg (Tally.report · _) (tally_note r rfl)

theorem tally_fail (cause : Breakdown S V) : (r.fail cause : Run S V E).tally = r.tally := by
  cases cause <;> rfl

theorem Tally.reduces_report (t : Tally) {s : Step} (quiet : s.isShift = false) :
    t.Reduces (t.report s) :=
  ⟨rfl, rfl, [s], rfl, List.forall_mem_singleton.2 quiet⟩

theorem accept_reduces : r.tally.Reduces (r.accept : Run S V E).tally := by
  have same : (r.accept : Run S V E).tally = (r.report r.state .accept).tally := by
    rw [Progress.accept_eq]
    rfl
  rw [same, tally_report]
  exact r.tally.reduces_report rfl

end Tally

namespace Parser

variable [DecidableEq S] {p : Parser S V}

theorem reduce_reduces (state id : Nat) (r : Progress S V) :
    r.tally.Reduces (p.reduce state id r).2.tally := by
  simp only [reduce]
  split
  · exact .refl _
  · split
    · exact .refl _
    next value stack done =>
      split
      · rw [tally_remarks]
        exact .refl _
      · rw [tally_report]
        have noted (texts : List String) (entry : LogEntry S V) (next : Nat)
            (silent : entry.isExhaustion = false) :
            (((texts.foldl (fun (r : Progress S V) text => r.note (.remark text))
              { r with stack }).note entry).push next value).tally = r.tally :=
          (tally_note _ silent).trans (tally_remarks _ _)
        rw [noted _ _ _ rfl]
        exact r.tally.reduces_report rfl

theorem settle_reduces (lookahead : S) (limit : Nat) (r : Progress S V) :
    r.tally.Reduces (p.settle lookahead limit r).2.tally := by
  induction limit generalizing r with
  | zero => exact .refl _
  | succ limit ih =>
    simp only [settle]
    split
    · exact .refl _
    · exact .refl _
    · exact .refl _
    next id entry =>
      have first := reduce_reduces (p := p) r.state id r
      split
      next cause here result =>
        rw [result] at first
        exact first
      next here result =>
        rw [result] at first
        exact first.trans (ih here)

theorem runFrom_token (p : Parser S V) (limit : Nat) (r : Progress S V) (token : Token S V) :
    (∃ after : Progress S V, r.tally.Shifts after.tally ∧
        ∀ items : List (Except E (Token S V)),
          p.runFrom limit r (.ok token :: items) = p.runFrom limit after items) ∨
      ∃ run : Run S V E, r.tally.take.Reduces run.tally ∧
        (run.outcome.place = .rejection ∨ run.outcome.place = .other) ∧
        ∀ items, p.runFrom limit r (.ok token :: items) = run := by
  have settled := settle_reduces (p := p) token.symbol limit r.pull
  simp only [runFrom]
  cases result : p.settle token.symbol limit r.pull with
  | mk decision here =>
    rw [result] at settled
    cases decision with
    | shift next =>
      refine .inl ⟨here.shift here.state token next, ?_, fun _ => rfl⟩
      rw [tally_shift]
      exact .intro settled rfl
    | accept =>
      have accepted := accept_reduces (E := E) (here.note (.accept token.symbol))
      rw [tally_note here rfl] at accepted
      refine .inr ⟨_, settled.trans accepted, .inr ?_, fun _ => rfl⟩
      rw [Progress.accept_outcome]
      exact place_acceptance _
    | reject =>
      refine .inr ⟨_, ?_, .inl rfl, fun _ => rfl⟩
      have noted : (here.note (.unexpectedToken token here.state)).tally = here.tally :=
        tally_note here rfl
      rw [← noted] at settled
      exact settled
    | breakdown cause =>
      refine .inr ⟨here.fail cause, ?_, .inr ?_, fun _ => rfl⟩
      · rw [tally_fail]
        exact settled
      · rw [Progress.fail_outcome]
        exact place_breakdown cause
    | undecided => exact .inr ⟨here.stop .unfinished, settled, .inr rfl, fun _ => rfl⟩

theorem finish_reads (p : Parser S V) (limit : Nat) (r : Progress S V) :
    r.tally.exhaust.Reduces (p.finish limit r : Run S V E).tally ∧
      ((p.finish limit r : Run S V E).outcome.place = .ending ∨
        (p.finish limit r : Run S V E).outcome.place = .other) := by
  simp only [finish]
  cases ending : p.endOfInput with
  | none =>
    refine ⟨?_, .inl rfl⟩
    have told : (r.note (.exhausted r.state)).tally = r.tally.exhaust := tally_exhausted r rfl
    rw [← told]
    exact .refl _
  | some symbol =>
    have settled := settle_reduces (p := p) symbol limit (r.note .endOfInput)
    rw [tally_exhausted r rfl] at settled
    cases result : p.settle symbol limit (r.note .endOfInput) with
    | mk decision here =>
      rw [result] at settled
      simp only [result]
      cases decision with
      | shift next => exact ⟨settled, .inr rfl⟩
      | accept =>
        refine ⟨settled.trans (accept_reduces here), .inr ?_⟩
        rw [Progress.accept_outcome]
        exact place_acceptance _
      | reject =>
        have noted : (here.note (.unexpectedEnd here.state)).tally = here.tally :=
          tally_note here rfl
        rw [← noted] at settled
        exact ⟨settled, .inl rfl⟩
      | breakdown cause =>
        refine ⟨?_, .inr ?_⟩
        · rw [tally_fail]
          exact settled
        · rw [Progress.fail_outcome]
          exact place_breakdown cause
      | undecided => exact ⟨settled, .inr rfl⟩

section Run

variable {limit : Nat} {r : Progress S V}

theorem runFrom_punctual (limit : Nat) (r : Progress S V) (taken rest : List (Except E (Token S V)))
    (shifts : r.tally.shifts = taken.length) (pulled : r.tally.pulled = r.tally.shifts)
    (before : Punctual (taken ++ rest) r.tally.reports) :
    Punctual (taken ++ rest) (p.runFrom limit r rest).tally.reports := by
  induction rest generalizing taken r with
  | nil =>
    have reads := (finish_reads (E := E) p limit r).1
    apply reads.punctual before
    rw [List.append_nil]
    exact .inr ⟨shifts.symm, pulled⟩
  | cons item rest ih =>
    cases item with
    | error e => exact before
    | ok token =>
      have next : (taken ++ .ok token :: rest)[r.tally.shifts]? = some (.ok token) := by
        rw [shifts, List.getElem?_append_right (Nat.le_refl _), Nat.sub_self]
        rfl
      rcases runFrom_token (E := E) p limit r token with
        ⟨after, shifted, same⟩ | ⟨run, reduces, _, same⟩
      · have punctual := shifted.punctual before next pulled
        have split : taken ++ .ok token :: rest = (taken ++ [.ok token]) ++ rest := by simp
        rw [same]
        rw [split] at punctual ⊢
        apply ih after _ _ _ punctual
        · rw [shifted.shifts, shifts, List.length_append]
          rfl
        · rw [shifted.pulled, shifted.shifts, pulled]
      · rw [same]
        exact reduces.punctual before (.inl ⟨token, next, congrArg Nat.succ pulled⟩)

theorem runFrom_reads (limit : Nat) (r : Progress S V) (items : List (Except E (Token S V)))
    (fresh : r.tally.exhausted = false) :
    ∃ count ≤ items.length,
      (p.runFrom limit r items).tally.shifts = r.tally.shifts + count ∧
      ((p.runFrom limit r items).tally.exhausted = true ∧ count = items.length ∧
          ((p.runFrom limit r items).outcome.place = .ending ∨
            (p.runFrom limit r items).outcome.place = .other) ∨
        (p.runFrom limit r items).tally.exhausted = false ∧ count < items.length ∧
          (p.runFrom limit r items).outcome.place ≠ .ending) := by
  induction items generalizing r with
  | nil =>
    obtain ⟨reads, place⟩ := finish_reads (E := E) p limit r
    exact ⟨0, Nat.le_refl _, reads.shifts, .inl ⟨reads.exhausted, rfl, place⟩⟩
  | cons item items ih =>
    have positive : 0 < (item :: items).length := Nat.succ_pos _
    cases item with
    | error e =>
      refine ⟨0, Nat.zero_le _, rfl, .inr ⟨fresh, positive, ?_⟩⟩
      intro ending
      cases ending
    | ok token =>
      rcases runFrom_token (E := E) p limit r token with
        ⟨after, shifted, same⟩ | ⟨run, reduces, place, same⟩
      · rw [same]
        obtain ⟨count, few, shifts, ended⟩ := ih after (shifted.exhausted.trans fresh)
        refine ⟨count + 1, Nat.succ_le_succ few, ?_, ?_⟩
        · rw [shifts, shifted.shifts]
          omega
        · rcases ended with ⟨told, all, place⟩ | ⟨untold, fewer, place⟩
          · exact .inl ⟨told, congrArg Nat.succ all, place⟩
          · exact .inr ⟨untold, Nat.succ_lt_succ fewer, place⟩
      · rw [same]
        have elsewhere : run.outcome.place ≠ .ending := by
          rcases place with rejected | other
          · simp [rejected]
          · simp [other]
        exact ⟨0, Nat.zero_le _, reduces.shifts, .inr
          ⟨reduces.exhausted.trans fresh, positive, elsewhere⟩⟩

theorem runFrom_shifts_le (limit : Nat) (r : Progress S V) (items : List (Except E (Token S V))) :
    r.tally.shifts ≤ (p.runFrom limit r items).tally.shifts := by
  obtain ⟨shifts, count, _⟩ := runFrom_pulled p limit items r
  have same : (p.runFrom limit r items).tally.shifts = r.tally.shifts + shifts := count
  omega

/-- A run that ends before all of `xs` are shifted does not look beyond them. -/
theorem runFrom_append (limit : Nat) (r : Progress S V) (xs ys zs : List (Except E (Token S V)))
    (early : (p.runFrom limit r (xs ++ ys)).tally.shifts < r.tally.shifts + xs.length) :
    p.runFrom limit r (xs ++ zs) = p.runFrom limit r (xs ++ ys) := by
  induction xs generalizing r with
  | nil =>
    have least := runFrom_shifts_le (p := p) limit r ([] ++ ys)
    rw [List.length_nil] at early
    omega
  | cons item xs ih =>
    cases item with
    | error e => rfl
    | ok token =>
      rw [List.cons_append, List.cons_append] at *
      rcases runFrom_token (E := E) p limit r token with
        ⟨after, shifted, same⟩ | ⟨run, _, _, same⟩
      · rw [same] at early
        rw [same, same]
        apply ih
        rw [shifted.shifts]
        rw [List.length_cons] at early
        omega
      · rw [same, same]

theorem runFrom_error_iff (limit : Nat) (r : Progress S V) (items : List (Except E (Token S V)))
    (count : Nat) (e e' : E) :
    (p.runFrom limit r (.error e' :: items)).outcome.place = .fault e ∧
        (p.runFrom limit r (.error e' :: items)).tally.shifts = r.tally.shifts + count ↔
      (Except.error e' :: items)[count]? = some (.error e) ∧
        (p.runFrom limit r ((.error e' :: items).take count)).tally.shifts =
          r.tally.shifts + count := by
  have stopped (later : List (Except E (Token S V))) :
      (p.runFrom limit r (.error e' :: later)).tally.shifts = r.tally.shifts := rfl
  cases count with
  | zero =>
    have before : (p.runFrom limit r ([] : List (Except E (Token S V)))).tally.shifts =
        r.tally.shifts := (finish_reads (E := E) p limit r).1.shifts
    constructor
    · rintro ⟨fault, _⟩
      cases fault
      exact ⟨rfl, before⟩
    · rintro ⟨here, _⟩
      cases here
      exact ⟨rfl, rfl⟩
  | succ count =>
    rw [List.take_succ_cons, stopped, stopped]
    apply iff_of_false
    · rintro ⟨_, more⟩
      omega
    · rintro ⟨_, more⟩
      omega

theorem runFrom_fault_iff (limit : Nat) (r : Progress S V) (items : List (Except E (Token S V)))
    (count : Nat) (e : E) :
    (p.runFrom limit r items).outcome.place = .fault e ∧
        (p.runFrom limit r items).tally.shifts = r.tally.shifts + count ↔
      items[count]? = some (.error e) ∧
        (p.runFrom limit r (items.take count)).tally.shifts = r.tally.shifts + count := by
  induction items generalizing r count with
  | nil =>
    apply iff_of_false
    · rintro ⟨fault, _⟩
      rcases (finish_reads (E := E) p limit r).2 with ending | other
      · cases ending.symm.trans fault
      · cases other.symm.trans fault
    · rintro ⟨none, _⟩
      cases none
  | cons item items ih =>
    cases item with
    | error e' => exact runFrom_error_iff limit r items count e e'
    | ok token =>
      rcases runFrom_token (E := E) p limit r token with
        ⟨after, shifted, same⟩ | ⟨run, reduces, place, same⟩
      · cases count with
        | zero =>
          apply iff_of_false
          · rintro ⟨_, none⟩
            have least := runFrom_shifts_le (p := p) limit after items
            have more := shifted.shifts
            rw [same] at none
            omega
          · rintro ⟨here, _⟩
            cases here
        | succ count =>
          have total : r.tally.shifts + (count + 1) = after.tally.shifts + count := by
            rw [shifted.shifts]
            omega
          rw [List.take_succ_cons, same, same, List.getElem?_cons_succ, total]
          exact ih after count
      · have quiet : run.tally.shifts = r.tally.shifts := reduces.shifts
        apply iff_of_false
        · rintro ⟨fault, _⟩
          rw [same] at fault
          rcases place with rejected | other
          · cases rejected.symm.trans fault
          · cases other.symm.trans fault
        · rintro ⟨here, all⟩
          cases count with
          | zero => cases here
          | succ count =>
            rw [List.take_succ_cons, same, quiet] at all
            omega

theorem runFrom_fault_steps (limit : Nat) (r : Progress S V) (items : List (Except E (Token S V)))
    (count : Nat) (e : E) (fault : items[count]? = some (.error e))
    (shifted : (p.runFrom limit r (items.take count)).tally.shifts = r.tally.shifts + count)
    (last : untilLastShift r.steps = r.steps) :
    (p.runFrom limit r items).steps =
      untilLastShift (p.runFrom limit r (items.take count)).steps := by
  induction items generalizing r count with
  | nil => cases fault
  | cons item items ih =>
    cases item with
    | error e' =>
      cases count with
      | zero =>
        -- at the end of the items before, the other run can only reduce and accept
        have before := (finish_reads (E := E) p limit r).1.untilLastShift
        exact (before.trans last).symm
      | succ count =>
        have stopped : (p.runFrom limit r (.error e' :: items.take count)).tally.shifts =
          r.tally.shifts := rfl
        rw [List.take_succ_cons, stopped] at shifted
        omega
    | ok token =>
      cases count with
      | zero => cases fault
      | succ count =>
        rw [List.take_succ_cons] at shifted ⊢
        rcases runFrom_token (E := E) p limit r token with
          ⟨after, more, same⟩ | ⟨run, reduces, _, same⟩
        · rw [same] at shifted
          rw [same, same]
          apply ih after count fault
          · rw [shifted, more.shifts]
            omega
          · exact more.untilLastShift
        · have none : run.tally.shifts = r.tally.shifts := reduces.shifts
          rw [same, none] at shifted
          omega

theorem run_punctual (p : Parser S V) (limit : Nat) (items : List (Except E (Token S V))) :
    Punctual items (p.run limit items).reports.toList :=
  runFrom_punctual limit .initial [] items rfl rfl .nil

theorem run_reads (p : Parser S V) (limit : Nat) (items : List (Except E (Token S V))) :
    let run := p.run limit items
    run.tally.exhausted = true ∧ run.shiftCount = items.length ∧ run.pulled = items.length ∧
        (run.outcome.place = .ending ∨ run.outcome.place = .other) ∨
      run.tally.exhausted = false ∧ run.shiftCount < items.length ∧
        run.pulled = run.shiftCount + 1 ∧ run.outcome.place ≠ .ending := by
  intro run
  obtain ⟨count, few, shifts, ended⟩ := runFrom_reads (p := p) limit .initial items rfl
  have shifted : run.shiftCount = count := shifts.trans (Nat.zero_add _)
  have pulled : run.pulled = min items.length (run.shiftCount + 1) := run_pulled p limit items
  rw [shifted] at pulled ⊢
  rcases ended with ⟨told, all, place⟩ | ⟨untold, fewer, place⟩
  · exact .inl ⟨told, all, by omega, place⟩
  · exact .inr ⟨untold, fewer, by omega, place⟩

theorem run_untold {items : List (Except E (Token S V))}
    (untold : (p.run limit items).tally.exhausted = false) :
    (p.run limit items).pulled = (p.run limit items).shiftCount + 1 ∧
      (p.run limit items).pulled ≤ items.length := by
  rcases run_reads p limit items with ⟨told, _⟩ | ⟨_, few, pulled, _⟩
  · cases told.symm.trans untold
  · rw [pulled]
    exact ⟨rfl, few⟩

theorem run_told {items : List (Except E (Token S V))}
    (told : (p.run limit items).tally.exhausted = true) :
    (p.run limit items).shiftCount = items.length ∧
      (p.run limit items).pulled = items.length := by
  rcases run_reads p limit items with ⟨_, all, pulled, _⟩ | ⟨untold, _⟩
  · exact ⟨all, pulled⟩
  · cases told.symm.trans untold

theorem run_ends_on_item {items : List (Except E (Token S V))}
    (item : (∃ e, (p.run limit items).outcome.place = .fault e) ∨
      (p.run limit items).outcome.place = .rejection) :
    (p.run limit items).tally.exhausted = false := by
  rcases run_reads p limit items with ⟨_, _, _, ending | other⟩ | ⟨untold, _⟩
  · rw [ending] at item
    rcases item with ⟨_, fault⟩ | rejected
    · cases fault
    · cases rejected
  · rw [other] at item
    rcases item with ⟨_, fault⟩ | rejected
    · cases fault
    · cases rejected
  · exact untold

theorem run_ends_at_end {items : List (Except E (Token S V))}
    (ending : (p.run limit items).outcome.place = .ending) :
    (p.run limit items).tally.exhausted = true := by
  rcases run_reads p limit items with ⟨told, _⟩ | ⟨_, _, _, elsewhere⟩
  · exact told
  · exact absurd ending elsewhere

theorem run_fault_iff (limit : Nat) (items : List (Except E (Token S V))) (count : Nat) (e : E) :
    (p.run limit items).outcome = .error (.lexer e) ∧ (p.run limit items).pulled = count + 1 ↔
      items[count]? = some (.error e) ∧ (p.run limit (items.take count)).shiftCount = count := by
  have iff := runFrom_fault_iff (p := p) limit .initial items count e
  have start : (Progress.initial : Progress S V).tally.shifts + count = count := Nat.zero_add _
  rw [start, Outcome.place_fault] at iff
  refine Iff.trans ?_ iff
  apply and_congr_right
  intro fault
  have untold := run_ends_on_item (.inl ⟨e, Outcome.place_fault.2 fault⟩)
  have pulled := (run_untold untold).1
  rw [show (p.runFrom limit .initial items).tally.shifts = (p.run limit items).shiftCount from rfl]
  omega

/-- Every step is punctual, no item after the one that ends a run makes a difference, and a faulty
item is what a run ends on exactly if all the items before it are shifted. -/
theorem input_taken_as_decided (p : Parser S V) (limit : Nat) :
    (∀ items : List (Except E (Token S V)),
      let run := p.run limit items
      (∀ before report, before ++ [report] <+: run.reports.toList →
        report.Punctual items (shiftCount (before.map Report.step)) ∧
          (report.step.isShift = true →
            report.pulled = shiftCount ((before ++ [report]).map Report.step))) ∧
      (run.tally.exhausted = false →
        run.pulled = run.shiftCount + 1 ∧ run.pulled ≤ items.length) ∧
      (run.tally.exhausted = true →
        run.shiftCount = items.length ∧ run.pulled = items.length) ∧
      ((∃ e, run.outcome = .error (.lexer e)) ∨
        (∃ token state expected, run.outcome = .error (.unexpectedToken token state expected)) →
          run.tally.exhausted = false) ∧
      ((∃ state expected, run.outcome = .error (.unexpectedEnd state expected)) →
        run.tally.exhausted = true)) ∧
    (∀ xs ys zs : List (Except E (Token S V)),
      (p.run limit (xs ++ ys)).tally.exhausted = false →
      (p.run limit (xs ++ ys)).pulled ≤ xs.length →
      p.run limit (xs ++ zs) = p.run limit (xs ++ ys)) ∧
    ∀ (items : List (Except E (Token S V))) (count : Nat) (e : E),
      let run := p.run limit items
      let before := p.run limit (items.take count)
      (run.outcome = .error (.lexer e) ∧ run.pulled = count + 1 ↔
        items[count]? = some (.error e) ∧ before.shiftCount = count) ∧
      (items[count]? = some (.error e) → before.shiftCount = count →
        run.steps = untilLastShift before.steps) := by
  refine ⟨?_, ?_, ?_⟩
  · intro items run
    refine ⟨?_, run_untold, run_told, ?_, ?_⟩
    · intro before report begins
      have punctual := run_punctual p limit items before report begins
      refine ⟨punctual, ?_⟩
      intro shift
      have one : shiftCount [report.step] = 1 := by simp [shiftCount, shift]
      rw [List.map_append, shiftCount_append, List.map_singleton, one]
      exact punctual.pulled_of_shift shift
    · intro item
      apply run_ends_on_item
      rcases item with ⟨e, outcome⟩ | ⟨token, state, expected, outcome⟩
      · exact .inl ⟨e, congrArg Outcome.place outcome⟩
      · exact .inr (congrArg Outcome.place outcome)
    · rintro ⟨state, expected, outcome⟩
      exact run_ends_at_end (congrArg Outcome.place outcome)
  · intro xs ys zs untold few
    have pulled := (run_untold untold).1
    have early : (p.run limit (xs ++ ys)).shiftCount < xs.length := by omega
    apply runFrom_append
    exact Nat.lt_of_lt_of_eq early (Nat.zero_add _).symm
  · intro items count e run before
    refine ⟨run_fault_iff limit items count e, ?_⟩
    intro fault shifted
    apply runFrom_fault_steps limit .initial items count e fault
    · exact shifted.trans (Nat.zero_add _).symm
    · rfl

end Run

/-- The items of `2*?3`, whose third is faulty. -/
def twoTimesUnknown : List (Except String (Token String Int)) :=
  [.ok ⟨"INT", 2, none⟩, .ok ⟨"*", 0, none⟩, .error "?", .ok ⟨"INT", 3, none⟩]

theorem two_times_unknown_taken_as_decided :
    let run := Arithmetic.parser.run 9 twoTimesUnknown
    let before := Arithmetic.parser.run 9 (twoTimesUnknown.take 2)
    (run.tally.exhausted = false ∧ run.pulled = run.shiftCount + 1) ∧
      (before.tally.exhausted = true ∧ before.pulled = 2) ∧
      run.outcome = .error (.lexer "?") ∧ run.steps = untilLastShift before.steps ∧
      Arithmetic.parser.run 9 (twoTimesUnknown.take 3) = run := by
  intro run before
  have stopped : run.tally.exhausted = false := by decide
  have told : before.tally.exhausted = true := by decide
  obtain ⟨counts, continues, faults⟩ := input_taken_as_decided (E := String) Arithmetic.parser 9
  have fault := faults twoTimesUnknown 2 "?"
  exact ⟨⟨stopped, ((counts twoTimesUnknown).2.1 stopped).1⟩,
    ⟨told, ((counts (twoTimesUnknown.take 2)).2.2.1 told).2⟩,
    (fault.1.2 ⟨rfl, by decide⟩).1, fault.2 rfl (by decide),
    continues (twoTimesUnknown.take 3) [.ok ⟨"INT", 3, none⟩] [] stopped (by decide)⟩

end Parser

end ShiftReduce
