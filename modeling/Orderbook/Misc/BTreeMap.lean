import Orderbook.Misc.OrderedMap

/-!
# `BTreeMap`

A map with its entries in strictly increasing key order, which is the order iteration sees. The
order is a field, so a map with repeated or unordered keys cannot be built. `get?` is the map the
entries hold (`OrderedMap.Lists`), and determines them.
-/

namespace Orderbook

/-- `std::collections::BTreeMap`. -/
structure BTreeMap (K V : Type*) [LinearOrder K] where
  entries : List (K × V)
  sorted : entries.Pairwise (fun a b => a.1 < b.1)

namespace BTreeMap

open OrderedMap

variable {K V W : Type*} [LinearOrder K]

/-- `BTreeMap::new`. -/
def empty : BTreeMap K V := ⟨[], List.Pairwise.nil⟩

/-- `BTreeMap::is_empty`. -/
def isEmpty (m : BTreeMap K V) : Bool := m.entries.isEmpty

/-- `BTreeMap::get`. -/
def get? (m : BTreeMap K V) (k : K) : Option V :=
  (m.entries.find? fun entry => entry.1 = k).map Prod.snd

/-- `BTreeMap::insert`: the value of a key already there is replaced. -/
def insert (m : BTreeMap K V) (k : K) (v : V) : BTreeMap K V where
  entries := m.entries.filter (fun entry => entry.1 < k) ++
    (k, v) :: m.entries.filter (fun entry => k < entry.1)
  sorted := by
    rw [List.pairwise_append, List.pairwise_cons]
    refine ⟨m.sorted.filter _, ⟨?_, m.sorted.filter _⟩, ?_⟩
    · intro b member
      simpa using (List.mem_filter.mp member).2
    · intro a member b member'
      have below : a.1 < k := by simpa using (List.mem_filter.mp member).2
      rcases List.mem_cons.mp member' with rfl | member'
      · exact below
      · have above : k < b.1 := by simpa using (List.mem_filter.mp member').2
        exact below.trans above

/-- `.iter().filter(..).collect()`. -/
def filter (m : BTreeMap K V) (p : K → V → Bool) : BTreeMap K V :=
  ⟨m.entries.filter fun entry => p entry.1 entry.2, m.sorted.filter _⟩

/-- `.iter().map(|(k, v)| (k, f(v))).collect()`. -/
def mapValues (m : BTreeMap K V) (f : V → W) : BTreeMap K W :=
  ⟨m.entries.map fun entry => (entry.1, f entry.2), List.pairwise_map.mpr m.sorted⟩

theorem mem_entries_iff (m : BTreeMap K V) {k : K} {v : V} :
    (k, v) ∈ m.entries ↔ m.get? k = some v := by
  simp only [get?, Option.map_eq_some_iff]
  constructor
  · intro member
    cases found : m.entries.find? fun entry => entry.1 = k with
    | none =>
      have := List.find?_eq_none.mp found _ member
      simp at this
    | some entry =>
      have inside := List.mem_of_find?_eq_some found
      have same : entry.1 = k := by simpa using List.find?_some found
      have equal :=
        List.inj_on_of_nodup_map (OrderedMap.keys_nodup m.sorted) inside member same
      exact ⟨entry, rfl, by rw [equal]⟩
  · rintro ⟨⟨j, w⟩, found, rfl⟩
    have same : j = k := by simpa using List.find?_some found
    subst same
    exact List.mem_of_find?_eq_some found

/-- The entries hold the map `get?` reads. -/
theorem lists (m : BTreeMap K V) : Lists Prod.fst Prod.snd m.entries m.get? := by
  refine ⟨m.sorted, fun k v => ?_⟩
  rw [← mem_entries_iff]
  simp

/-- A map is determined by what it reads. -/
theorem ext_get? {m m' : BTreeMap K V} (h : ∀ k, m.get? k = m'.get? k) : m = m' := by
  have same : m.get? = m'.get? := funext h
  have equal := m.lists.unique (same ▸ m'.lists)
  cases m
  cases m'
  simpa using equal

/-- A map that binds no less lists no less, in the same order. -/
theorem entries_sublist {m m' : BTreeMap K V}
    (h : ∀ k v, m.get? k = some v → m'.get? k = some v) : m.entries.Sublist m'.entries := by
  have within : m.entries ⊆ m'.entries := by
    rintro ⟨k, v⟩ member
    exact m'.mem_entries_iff.mpr (h k v (m.mem_entries_iff.mp member))
  have asymm : Std.Antisymm fun a b : K × V => a.1 < b.1 :=
    ⟨fun _ _ below above => absurd above (lt_asymm below)⟩
  exact List.sublist_of_subperm_of_pairwise
    (List.subperm_of_subset (OrderedMap.keys_nodup m.sorted).of_map within) m.sorted m'.sorted

theorem get?_insert (m : BTreeMap K V) (k j : K) (v : V) :
    (m.insert k v).get? j = if j = k then some v else m.get? j := by
  apply Option.ext
  intro w
  rw [← mem_entries_iff]
  simp only [insert, List.mem_append, List.mem_filter, List.mem_cons, Prod.mk.injEq,
    decide_eq_true_eq, mem_entries_iff]
  by_cases same : j = k
  · subst same
    simp [eq_comm]
  · rw [if_neg same]
    rcases lt_or_gt_of_ne same with below | above
    · simp [below, not_lt_of_gt below, same]
    · simp [above, not_lt_of_gt above, same]

theorem isEmpty_insert (m : BTreeMap K V) (k : K) (v : V) : (m.insert k v).isEmpty = false := by
  simp [isEmpty, insert]

theorem get?_filter (m : BTreeMap K V) (p : K → V → Bool) (k : K) :
    (m.filter p).get? k = (m.get? k).filter (p k) := by
  apply Option.ext
  intro v
  rw [← mem_entries_iff]
  simp only [filter, List.mem_filter, mem_entries_iff, Option.filter_eq_some_iff]

theorem get?_mapValues (m : BTreeMap K V) (f : V → W) (k : K) :
    (m.mapValues f).get? k = (m.get? k).map f := by
  apply Option.ext
  intro w
  rw [← mem_entries_iff]
  simp only [mapValues, List.mem_map, Prod.mk.injEq, Prod.exists, Option.map_eq_some_iff]
  constructor
  · rintro ⟨j, v, member, rfl, rfl⟩
    exact ⟨v, m.mem_entries_iff.mp member, rfl⟩
  · rintro ⟨v, found, rfl⟩
    exact ⟨k, v, m.mem_entries_iff.mpr found, rfl, rfl⟩

/-! ## Maps related value by value -/

/-- The same keys, with related values. -/
def Rel (r : V → W → Prop) (m : BTreeMap K V) (m' : BTreeMap K W) : Prop :=
  ∀ k, Option.Rel r (m.get? k) (m'.get? k)

theorem Rel.eq {m m' : BTreeMap K V} (h : Rel (fun v w => v = w) m m') : m = m' := by
  apply ext_get?
  intro k
  have bound := h k
  generalize m.get? k = value, m'.get? k = value' at bound ⊢
  cases bound with
  | some same => rw [same]
  | none => rfl

theorem Rel.insert {r : V → W → Prop} {m : BTreeMap K V} {m' : BTreeMap K W} (h : Rel r m m')
    (k : K) {v : V} {w : W} (related : r v w) : Rel r (m.insert k v) (m'.insert k w) := by
  intro j
  rw [get?_insert, get?_insert]
  by_cases same : j = k
  · rw [if_pos same, if_pos same]
    exact Option.Rel.some related
  · rw [if_neg same, if_neg same]
    exact h j

theorem Rel.filter {r : V → W → Prop} {m : BTreeMap K V} {m' : BTreeMap K W} (h : Rel r m m')
    {p : K → V → Bool} {q : K → W → Bool} (same : ∀ k v w, r v w → p k v = q k w) :
    Rel r (m.filter p) (m'.filter q) := by
  intro k
  have bound := h k
  rw [get?_filter, get?_filter]
  generalize m.get? k = value, m'.get? k = value' at bound ⊢
  cases bound with
  | some related =>
    rename_i v w
    rw [Option.filter_some, Option.filter_some, same k v w related]
    cases q k w with
    | true => exact Option.Rel.some related
    | false => exact Option.Rel.none
  | none => exact Option.Rel.none

theorem Rel.mapValues {V' W' : Type*} {r : V → W → Prop} {r' : V' → W' → Prop} {m : BTreeMap K V}
    {m' : BTreeMap K W} (h : Rel r m m') {f : V → V'} {g : W → W'}
    (maps : ∀ v w, r v w → r' (f v) (g w)) : Rel r' (m.mapValues f) (m'.mapValues g) := by
  intro k
  have bound := h k
  rw [get?_mapValues, get?_mapValues]
  generalize m.get? k = value, m'.get? k = value' at bound ⊢
  cases bound with
  | some related => exact Option.Rel.some (maps _ _ related)
  | none => exact Option.Rel.none

/-- The map of the listed keys that `f` has a value for. -/
def collect (keys : List K) (f : K → Option V) : BTreeMap K V :=
  keys.foldr (fun k m =>
    match f k with
    | some v => m.insert k v
    | none => m) empty

theorem get?_collect (keys : List K) (f : K → Option V) (k : K) :
    (collect keys f).get? k = if k ∈ keys then f k else none := by
  induction keys with
  | nil => rfl
  | cons j keys ih =>
    have unfolded : collect (j :: keys) f =
        match f j with
        | some v => (collect keys f).insert j v
        | none => collect keys f := rfl
    rw [unfolded]
    by_cases same : k = j
    · subst same
      cases bound : f k with
      | some v => simp [get?_insert]
      | none => simp [ih, bound]
    · cases f j with
      | some v => simp [get?_insert, same, ih]
      | none => simp [same, ih]

end BTreeMap

end Orderbook
