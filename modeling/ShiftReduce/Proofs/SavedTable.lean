import ShiftReduce.Proofs.JsonText
import ShiftReduce.Table.Document
/-!
Saved tables. The document of a table is read back as the same table, with its rows and entries in
the same order, if its states and rules are unsigned 32-bit numbers and each symbol can be read from
the member name that it is written as. All strings can, and so can all signed 64-bit integers.
-/
namespace ShiftReduce

namespace OrderedMap

variable {K V : Type} [DecidableEq K]

theorem put_of_absent {k : K} {v : V} {es : List (K × V)} (absent : k ∉ es.map Prod.fst) :
    put k v es = es ++ [(k, v)] := by
  induction es with
  | nil => rfl
  | cons e es ih =>
    simp only [List.map_cons, List.mem_cons, not_or] at absent
    simp [put, ih absent.2, Ne.symm absent.1]

theorem entries_foldl_insert {es : List (K × V)} {m : OrderedMap K V}
    (fresh : ((m.entries ++ es).map Prod.fst).Nodup) :
    (es.foldl (fun m e => m.insert e.1 e.2) m).entries = m.entries ++ es := by
  induction es generalizing m with
  | nil => simp
  | cons e es ih =>
    have absent : e.1 ∉ m.entries.map Prod.fst := by
      intro present
      rw [List.map_append, List.nodup_append] at fresh
      exact fresh.2.2 e.1 present e.1 (by simp) rfl
    have here : (m.insert e.1 e.2).entries = m.entries ++ [e] := put_of_absent absent
    have later := @ih (m.insert e.1 e.2) (by simpa [here] using fresh)
    simpa [here] using later

theorem ofList_entries (m : OrderedMap K V) : ofList m.entries = m := by
  apply eq_of_entries_eq
  have inserted := @entries_foldl_insert _ _ _ m.entries empty m.distinct
  exact inserted

end OrderedMap

namespace Json

theorem mapM_map_eq_some {α β : Type} {f : β → Option α} {g : α → β} {xs : List α}
    (back : ∀ x ∈ xs, f (g x) = some x) : (xs.map g).mapM f = some xs := by
  induction xs with
  | nil => rfl
  | cons x xs ih =>
    obtain ⟨here, later⟩ := List.forall_mem_cons.1 back
    simp [here, ih later]

theorem toEntries?_ofEntries {K V : Type} [DecidableEq K] {key : K → List Char} {entry : V → Json}
    {key? : List Char → Option K} {item? : Json → Option V} (m : OrderedMap K V)
    (back : ∀ e ∈ m.entries, key? (key e.1) = some e.1 ∧ item? (entry e.2) = some e.2) :
    toEntries? key? item? (ofEntries key entry m) = some m := by
  have read : (m.entries.map fun e => (key e.1, entry e.2)).mapM (fun (x : List Char × Json) => do
      let k ← key? x.1
      let v ← item? x.2
      some (k, v)) = some m.entries := by
    apply mapM_map_eq_some
    intro e member
    simp [back e member]
  simp only [toEntries?, ofEntries, read, Option.map_some, m.ofList_entries]

theorem readable_ofEntries {K V : Type} {key : K → List Char} {entry : V → Json}
    (m : OrderedMap K V)
    (readable : ∀ e ∈ m.entries, IsBody (key e.1) ∧ (entry e.2).Readable) :
    (ofEntries key entry m).Readable := by
  refine .object _ ?_ ?_
  · intro x member
    obtain ⟨e, among, rfl⟩ := List.mem_map.1 member
    exact (readable e among).1
  · intro x member
    obtain ⟨e, among, rfl⟩ := List.mem_map.1 member
    exact (readable e among).2

theorem nameText?_name (s : String) : nameText? (name s) = some s := by
  simp [nameText?, name, unescape_escape]

theorem isBody_name (s : String) : IsBody (name s) := isBody_escape s.toList

theorem id?_decimal {n : Nat} (small : n < idLimit) : id? (Text.decimal n) = some n := by
  simp [id?, Text.natural?_eq_some_iff.2 rfl, small]

theorem readable_ofId (n : Nat) : (ofId n).Readable := .number n

end Json

theorem Text.integer?_signed (n : Int) : Text.integer? (Text.signed n) = some n := by
  cases n with
  | ofNat n =>
    have natural : natural? (decimal n) = some n := natural?_eq_some_iff.2 rfl
    rw [signed, integer?, natural]
    · rfl
    · exact decimal_ne_sign n
  | negSucc n =>
    have natural : natural? (decimal (n + 1)) = some (n + 1) := natural?_eq_some_iff.2 rfl
    simp [signed, integer?, natural, Int.negSucc_eq]

/-- A symbol that is read back from the member name that it is written as. -/
structure MemberName.Legible {S : Type} [MemberName S] (s : S) : Prop where
  delimited : Json.IsBody (MemberName.write s)
  read : MemberName.read? (MemberName.write s) = some s

theorem MemberName.legible_string (s : String) : MemberName.Legible s where
  delimited := Json.isBody_escape s.toList
  read := Json.nameText?_name s

theorem MemberName.legible_integer {n : Int} (inRange : Signed64.InRange n) :
    MemberName.Legible n where
  delimited := Json.isBody_signed n
  read := by
    simp [MemberName.read?, MemberName.write, Text.integer?_signed, Signed64.inRange?, inRange]

def Action.Fits : Action → Prop
  | .shift next => next < idLimit
  | .reduce rule => rule < idLimit
  | .accept => True

instance : DecidablePred Action.Fits
  | .shift next => inferInstanceAs (Decidable (next < idLimit))
  | .reduce rule => inferInstanceAs (Decidable (rule < idLimit))
  | .accept => inferInstanceAs (Decidable True)

variable {S : Type}

structure Row.Fits (proper : S → Prop) (row : Row S) : Prop where
  actions : ∀ e ∈ row.actions.entries, proper e.1 ∧ e.2.Fits
  gotos : ∀ e ∈ row.gotos.entries, proper e.1 ∧ e.2 < idLimit

/-- The symbols of the table are proper, and its states and rules are unsigned 32-bit numbers. -/
def Table.Fits (proper : S → Prop) (t : Table S) : Prop :=
  ∀ e ∈ t.rows.entries, e.1 < idLimit ∧ e.2.Fits proper

instance (proper : S → Prop) [DecidablePred proper] (row : Row S) : Decidable (row.Fits proper) :=
  decidable_of_iff ((∀ e ∈ row.actions.entries, proper e.1 ∧ e.2.Fits) ∧
    ∀ e ∈ row.gotos.entries, proper e.1 ∧ e.2 < idLimit)
    ⟨fun h => ⟨h.1, h.2⟩, fun h => ⟨h.actions, h.gotos⟩⟩

instance (proper : S → Prop) [DecidablePred proper] (t : Table S) : Decidable (t.Fits proper) :=
  inferInstanceAs (Decidable (∀ e ∈ t.rows.entries, e.1 < idLimit ∧ e.2.Fits proper))

theorem Action.ofJson?_toJson {action : Action} (fits : action.Fits) :
    Action.ofJson? action.toJson = some action := by
  cases action with
  | shift next => simp [ofJson?, toJson, Json.nameText?_name, Json.toId?, Json.ofId,
      Json.id?_decimal fits]
  | reduce rule => simp [ofJson?, toJson, Json.nameText?_name, Json.toId?, Json.ofId,
      Json.id?_decimal fits]
  | accept => simp [ofJson?, toJson, Json.nameText?_name]

theorem Action.readable_toJson (action : Action) : action.toJson.Readable := by
  cases action with
  | shift next => exact .object _ (by simp [Json.isBody_name]) (by simp [Json.readable_ofId])
  | reduce rule => exact .object _ (by simp [Json.isBody_name]) (by simp [Json.readable_ofId])
  | accept => exact .string _ (Json.isBody_name _)

section Reloaded

variable [MemberName S] {proper : S → Prop} (legible : ∀ s, proper s → MemberName.Legible s)
include legible

theorem Row.readable_toJson {row : Row S} (fits : row.Fits proper) : row.toJson.Readable := by
  have actions : (Json.ofEntries MemberName.write Action.toJson row.actions).Readable := by
    apply Json.readable_ofEntries
    intro e member
    exact ⟨(legible _ (fits.actions e member).1).delimited, e.2.readable_toJson⟩
  have gotos : (Json.ofEntries MemberName.write Json.ofId row.gotos).Readable := by
    apply Json.readable_ofEntries
    intro e member
    exact ⟨(legible _ (fits.gotos e member).1).delimited, Json.readable_ofId e.2⟩
  exact .object _ (by simp [Json.isBody_name]) (by simp [actions, gotos])

theorem Table.readable_toJson {t : Table S} (fits : t.Fits proper) : t.toJson.Readable := by
  have rows : (Json.ofEntries Text.decimal Row.toJson t.rows).Readable := by
    apply Json.readable_ofEntries
    intro e member
    exact ⟨Json.isBody_decimal e.1, Row.readable_toJson legible (fits e member).2⟩
  exact .object _ (by simp [Json.isBody_name]) (by simp [rows])

variable [DecidableEq S]

theorem Row.ofJson?_toJson {row : Row S} (fits : row.Fits proper) :
    Row.ofJson? row.toJson = some row := by
  have actions : (Json.ofEntries MemberName.write Action.toJson row.actions).toEntries?
      MemberName.read? Action.ofJson? = some row.actions := by
    apply Json.toEntries?_ofEntries
    intro e member
    obtain ⟨symbol, action⟩ := fits.actions e member
    exact ⟨(legible _ symbol).read, Action.ofJson?_toJson action⟩
  have gotos : (Json.ofEntries MemberName.write Json.ofId row.gotos).toEntries?
      MemberName.read? Json.toId? = some row.gotos := by
    apply Json.toEntries?_ofEntries
    intro e member
    obtain ⟨symbol, next⟩ := fits.gotos e member
    exact ⟨(legible _ symbol).read, Json.id?_decimal next⟩
  simp [ofJson?, toJson, Json.fields?, Json.nameText?_name, actions, gotos]

theorem Table.ofJson?_toJson {t : Table S} (fits : t.Fits proper) :
    Table.ofJson? t.toJson = some t := by
  have rows : (Json.ofEntries Text.decimal Row.toJson t.rows).toEntries? id? Row.ofJson? =
      some t.rows := by
    apply Json.toEntries?_ofEntries
    intro e member
    obtain ⟨state, row⟩ := fits e member
    exact ⟨Json.id?_decimal state, Row.ofJson?_toJson legible row⟩
  simp [ofJson?, toJson, Json.fields?, Json.nameText?_name, rows]

theorem Table.ofDocument?_document {t : Table S} (fits : t.Fits proper) :
    Table.ofDocument? t.document = some t := by
  have read := Json.document?_written (t.readable_toJson legible fits)
  simp [ofDocument?, document, read, Table.ofJson?_toJson legible fits]

theorem Table.document_injective {t u : Table S} (fits : t.Fits proper) (fits' : u.Fits proper)
    (same : t.document = u.document) : t = u := by
  have read := Table.ofDocument?_document legible fits
  rw [same, Table.ofDocument?_document legible fits'] at read
  exact (Option.some.inj read).symm

end Reloaded

/-- A saved table is the same table when it is reloaded, empty rows and reductions by missing rules
included. -/
theorem saved_table_reloaded :
    (∀ t : Table String, t.Fits (fun _ => True) → Table.ofDocument? t.document = some t) ∧
    (∀ t : Table Int, t.Fits Signed64.InRange → Table.ofDocument? t.document = some t) ∧
    (∀ t u : Table String, t.Fits (fun _ => True) → u.Fits (fun _ => True) →
      t.document = u.document → t = u) ∧
    ∀ t u : Table Int, t.Fits Signed64.InRange → u.Fits Signed64.InRange →
      t.document = u.document → t = u := by
  have strings (s : String) (_ : True) := MemberName.legible_string s
  have integers (n : Int) := @MemberName.legible_integer n
  refine ⟨?_, ?_, ?_, ?_⟩
  · intro t fits
    exact t.ofDocument?_document strings fits
  · intro t fits
    exact t.ofDocument?_document integers fits
  · intro t u fits fits' same
    exact Table.document_injective strings fits fits' same
  · intro t u fits fits' same
    exact Table.document_injective integers fits fits' same

def awkward : Table String where
  rows := ⟨[
    (4294967295, .empty),
    (0, ⟨⟨[("\"\\", .shift 4294967295), ("", .reduce 0), ("\n\x01é", .accept)], by decide⟩,
      ⟨[("E", 7)], by decide⟩⟩)], by decide⟩

theorem awkward_reloaded :
    awkward.Fits (fun _ => True) ∧ Table.ofDocument? awkward.document = some awkward := by
  have fits : awkward.Fits (fun _ => True) := by decide
  exact ⟨fits, saved_table_reloaded.1 awkward fits⟩

end ShiftReduce
