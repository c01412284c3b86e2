/-!
Finite maps that remember the order in which their keys were first inserted. Inserting under a
key that is present replaces the value and leaves the key in its place.
-/
namespace ShiftReduce

structure OrderedMap (K V : Type) where
  entries : List (K × V)
  distinct : (entries.map Prod.fst).Nodup

namespace OrderedMap

variable {K V : Type}

theorem eq_of_entries_eq {m n : OrderedMap K V} (h : m.entries = n.entries) : m = n := by
  cases m; cases n; simp_all

def empty : OrderedMap K V := ⟨[], .nil⟩

instance : Inhabited (OrderedMap K V) := ⟨empty⟩

instance : EmptyCollection (OrderedMap K V) := ⟨empty⟩

def keys (m : OrderedMap K V) : List K := m.entries.map Prod.fst

def values (m : OrderedMap K V) : List V := m.entries.map Prod.snd

def size (m : OrderedMap K V) : Nat := m.entries.length

variable [DecidableEq K]

def find? (k : K) : List (K × V) → Option V
  | [] => none
  | (key, v) :: rest => if key = k then some v else find? k rest

def put (k : K) (v : V) : List (K × V) → List (K × V)
  | [] => [(k, v)]
  | (key, w) :: rest => if key = k then (key, v) :: rest else (key, w) :: put k v rest

theorem keys_put (k : K) (v : V) (es : List (K × V)) :
    (put k v es).map Prod.fst =
      if k ∈ es.map Prod.fst then es.map Prod.fst else es.map Prod.fst ++ [k] := by
  induction es with
  | nil => rfl
  | cons e es ih =>
    by_cases h : e.1 = k
    · simp [put, h]
    · have : ¬ k = e.1 := fun h' => h h'.symm
      simp only [put, h, if_false, List.map_cons, ih, List.mem_cons, this, false_or]
      split <;> simp

theorem nodup_put (k : K) (v : V) {es : List (K × V)} (h : (es.map Prod.fst).Nodup) :
    ((put k v es).map Prod.fst).Nodup := by
  rw [keys_put]
  split
  · exact h
  · next absent =>
    refine List.nodup_append.2 ⟨h, by simp, ?_⟩
    rintro a member b last rfl
    rw [List.mem_singleton] at last
    exact absent (last ▸ member)

theorem find?_put (k j : K) (v : V) (es : List (K × V)) :
    find? j (put k v es) = if k = j then some v else find? j es := by
  induction es with
  | nil => simp [put, find?]
  | cons e es ih =>
    by_cases h : e.1 = k
    · by_cases hj : k = j <;> simp [put, find?, h, hj]
    · by_cases hj : k = j
      · subst hj
        simp [put, find?, h, ih]
      · simp [put, find?, h, hj, ih]

theorem find?_eq_none_iff (k : K) (es : List (K × V)) :
    find? k es = none ↔ k ∉ es.map Prod.fst := by
  induction es with
  | nil => simp [find?]
  | cons e es ih =>
    by_cases h : e.1 = k
    · simp [find?, h]
    · have : ¬ k = e.1 := fun h' => h h'.symm
      simp only [find?, h, if_false, List.map_cons, List.mem_cons, this, false_or]
      exact ih

def swap (k : K) (v : V) : List (K × V) → Option V × List (K × V)
  | [] => (none, [(k, v)])
  | (key, w) :: rest =>
    if key = k then (some w, (key, v) :: rest)
    else
      let (old, rest) := swap k v rest
      (old, (key, w) :: rest)

theorem swap_eq (k : K) (v : V) (es : List (K × V)) : swap k v es = (find? k es, put k v es) := by
  induction es with
  | nil => rfl
  | cons e es ih =>
    by_cases h : e.1 = k
    · simp [swap, find?, put, h]
    · simp [swap, find?, put, h, ih]

def get? (m : OrderedMap K V) (k : K) : Option V := find? k m.entries

def insert (m : OrderedMap K V) (k : K) (v : V) : OrderedMap K V :=
  ⟨put k v m.entries, nodup_put k v m.distinct⟩

def exchange (m : OrderedMap K V) (k : K) (v : V) : Option V × OrderedMap K V :=
  let swapped := swap k v m.entries
  (swapped.1, ⟨swapped.2, by
    simp only [swapped, swap_eq]
    exact nodup_put k v m.distinct⟩)

def ofList (es : List (K × V)) : OrderedMap K V :=
  es.foldl (fun m e => m.insert e.1 e.2) empty

theorem get?_insert (m : OrderedMap K V) (k j : K) (v : V) :
    (m.insert k v).get? j = if k = j then some v else m.get? j :=
  find?_put k j v m.entries

theorem keys_insert (m : OrderedMap K V) (k : K) (v : V) :
    (m.insert k v).keys = if k ∈ m.keys then m.keys else m.keys ++ [k] :=
  keys_put k v m.entries

theorem exchange_eq (m : OrderedMap K V) (k : K) (v : V) :
    m.exchange k v = (m.get? k, m.insert k v) := by
  simp [exchange, swap_eq, get?, insert]

theorem get?_eq_none_iff (m : OrderedMap K V) (k : K) : m.get? k = none ↔ k ∉ m.keys :=
  find?_eq_none_iff k m.entries

end OrderedMap

end ShiftReduce
