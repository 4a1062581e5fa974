import Mathlib.Data.Set.Card
import Mathlib.Data.List.Sort
import Mathlib.Order.Basic

/-!
# Partial maps over a linear order, and the sorted lists that hold them

A map is its lookup function. `best n` restricts a map to the keys that have fewer than `n` keys of
the map below them. `Lists key val l m` says that `l` holds the map `m`: its entries are in strictly
increasing key order and are exactly the bindings of `m`. The operations on maps are matched by
operations on the lists that hold them: `take` by `best`, removing a key by `erase`, replacing an
entry by `insert`.
-/

namespace Orderbook

namespace OrderedMap

variable {K V α : Type*} [LinearOrder K]

/-- The map without a binding for `k`. -/
def erase (m : K → Option V) (k : K) : K → Option V := fun j => if j = k then none else m j

/-- The map with `k` bound to `v`. -/
def insert (m : K → Option V) (k : K) (v : V) : K → Option V :=
  fun j => if j = k then some v else m j

/-- How many keys of the map lie below `k`. -/
noncomputable def rank (m : K → Option V) (k : K) : ℕ∞ := {j | j < k ∧ m j ≠ none}.encard

open Classical in
/-- The map restricted to its `n` lowest keys. -/
noncomputable def best (n : Nat) (m : K → Option V) : K → Option V :=
  fun k => if rank m k < n then m k else none

/-- The entries of `l`, in strictly increasing key order, are the bindings of `m`. -/
structure Lists (key : α → K) (val : α → V) (l : List α) (m : K → Option V) : Prop where
  sorted : l.Pairwise (fun a b => key a < key b)
  bound : ∀ k v, m k = some v ↔ ∃ a ∈ l, key a = k ∧ val a = v

variable {key : α → K} {val : α → V} {l : List α} {m : K → Option V}

theorem Lists.nil : Lists key val [] (fun _ => none) := ⟨by simp, by simp⟩

theorem Lists.lookup_of_mem (h : Lists key val l m) {a : α} (member : a ∈ l) :
    m (key a) = some (val a) := (h.bound _ _).mpr ⟨a, member, rfl, rfl⟩

theorem Lists.lookup_eq_none (h : Lists key val l m) {k : K} (absent : ∀ a ∈ l, key a ≠ k) :
    m k = none := by
  rw [Option.eq_none_iff_forall_ne_some]
  intro v hv
  obtain ⟨a, member, same, -⟩ := (h.bound k v).mp hv
  exact absent a member same

theorem Lists.lookup_ne_none (h : Lists key val l m) {k : K} :
    m k ≠ none ↔ ∃ a ∈ l, key a = k := by
  rw [Option.ne_none_iff_exists']
  constructor
  · rintro ⟨v, hv⟩
    obtain ⟨a, member, same, -⟩ := (h.bound k v).mp hv
    exact ⟨a, member, same⟩
  · rintro ⟨a, member, rfl⟩
    exact ⟨val a, h.lookup_of_mem member⟩

/-- A list holds one map. -/
theorem Lists.map_unique {m' : K → Option V} (h : Lists key val l m) (h' : Lists key val l m') :
    m = m' := by
  funext k
  apply Option.ext
  intro v
  rw [h.bound, h'.bound]

/-- The map a strictly sorted list holds, read entry by entry. -/
theorem Lists.of_cons {a : α} (h : Lists key val (a :: l) m) :
    Lists key val l (erase m (key a)) := by
  obtain ⟨above, sorted⟩ := List.pairwise_cons.mp h.sorted
  refine ⟨sorted, fun k v => ?_⟩
  unfold erase
  by_cases same : k = key a
  · subst same
    simp only [if_true, reduceCtorEq, false_iff, not_exists, not_and]
    intro b member equal
    exact absurd equal (ne_of_gt (above b member))
  · rw [if_neg same, h.bound]
    simp only [List.mem_cons, exists_eq_or_imp, Ne.symm same, false_and, false_or]

theorem rank_cons_of_gt {a : α} (h : Lists key val (a :: l) m) {k : K} (above : key a < k) :
    rank m k = rank (erase m (key a)) k + 1 := by
  have split : {j | j < k ∧ m j ≠ none} =
      Insert.insert (key a) {j | j < k ∧ erase m (key a) j ≠ none} := by
    ext j
    simp only [Set.mem_ofPred_eq, Set.mem_insert_iff, erase]
    by_cases same : j = key a
    · subst same
      simp [above, h.lookup_of_mem (List.mem_cons_self ..)]
    · simp [same]
  rw [rank, split, Set.encard_insert_of_notMem]
  · rfl
  · simp [erase]

theorem rank_le_head {a : α} (h : Lists key val (a :: l) m) {k : K} (below : k ≤ key a) :
    rank m k = 0 := by
  rw [rank, Set.encard_eq_zero, Set.eq_empty_iff_forall_notMem]
  rintro j ⟨lower, present⟩
  obtain ⟨b, member, rfl⟩ := h.lookup_ne_none.mp present
  rcases List.mem_cons.mp member with rfl | member
  · exact absurd below (not_le.mpr lower)
  · have := (List.pairwise_cons.mp h.sorted).1 b member
    exact absurd (this.trans lower) (not_lt.mpr below)

/-- Cutting the list after `n` entries restricts the map to its `n` lowest keys. The induction is
on the list: the head has rank 0, and it adds one to the rank of every key above it. -/
theorem Lists.take (h : Lists key val l m) (n : Nat) : Lists key val (l.take n) (best n m) := by
  refine ⟨h.sorted.sublist (List.take_sublist n l), fun k v => ?_⟩
  induction l generalizing n m with
  | nil =>
    have absent : m k = none := h.lookup_eq_none (by simp)
    simp [best, absent]
  | cons a l ih =>
    cases n with
    | zero => simp [best]
    | succ n =>
      have tail := ih h.of_cons n
      rw [List.take_succ_cons]
      simp only [List.mem_cons, exists_eq_or_imp]
      rcases lt_trichotomy k (key a) with below | same | above
      · have absent : m k = none := by
          apply h.lookup_eq_none
          intro b member equal
          rcases List.mem_cons.mp member with rfl | member
          · exact absurd equal (ne_of_gt below)
          · have := (List.pairwise_cons.mp h.sorted).1 b member
            exact absurd (equal ▸ this.trans' below) (lt_irrefl _)
        have tailAbsent : erase m (key a) k = none := by simp [erase, absent]
        simp only [best, absent, tailAbsent, ite_self, reduceCtorEq, false_iff] at tail ⊢
        simp only [not_or]
        exact ⟨fun equal => absurd equal.1 (ne_of_gt below), tail⟩
      · subst same
        have zero : rank m (key a) < ((n + 1 : Nat) : ℕ∞) := by
          rw [rank_le_head h le_rfl]
          exact_mod_cast Nat.succ_pos n
        have bound := h.lookup_of_mem (List.mem_cons_self ..)
        simp only [best, zero, if_true, bound, Option.some_inj, true_and]
        constructor
        · exact Or.inl
        · rintro (equal | ⟨b, member, equal, -⟩)
          · exact equal
          · have := (List.pairwise_cons.mp h.sorted).1 b (List.mem_of_mem_take member)
            exact absurd equal (ne_of_gt this)
      · have other : erase m (key a) k = m k := by simp [erase, ne_of_gt above]
        have step : rank m k < ((n + 1 : Nat) : ℕ∞) ↔ rank (erase m (key a)) k < (n : ℕ∞) := by
          rw [rank_cons_of_gt h above]
          push_cast
          exact ENat.add_lt_add_iff_right (by simp)
        simp only [best, step, other] at tail ⊢
        rw [tail]
        simp only [ne_of_lt above, false_and, false_or]

/-- Dropping the entry of a key removes the key from the map. -/
theorem Lists.filter_ne (h : Lists key val l m) (k : K) :
    Lists key val (l.filter (fun a => key a ≠ k)) (erase m k) := by
  refine ⟨h.sorted.filter _, fun j v => ?_⟩
  unfold erase
  by_cases same : j = k
  · subst same
    simp only [if_true, reduceCtorEq, false_iff, not_exists, not_and]
    intro a member equal
    exact absurd equal (by simpa using (List.mem_filter.mp member).2)
  · rw [if_neg same, h.bound]
    simp only [List.mem_filter, decide_eq_true_eq]
    constructor
    · rintro ⟨a, member, rfl, rfl⟩
      exact ⟨a, ⟨member, same⟩, rfl, rfl⟩
    · rintro ⟨a, ⟨member, -⟩, rfl, rfl⟩
      exact ⟨a, member, rfl, rfl⟩

/-- A strictly sorted rearrangement of `l` with the entry for the key of `a` replaced by `a` holds
the map with that key rebound. -/
theorem Lists.insert_of_perm (h : Lists key val l m) {a : α} {l' : List α}
    (perm : l'.Perm (a :: l.filter (fun b => key b ≠ key a)))
    (sorted : l'.Pairwise (fun a b => key a < key b)) :
    Lists key val l' (insert m (key a) (val a)) := by
  refine ⟨sorted, fun k v => ?_⟩
  have removed := (h.filter_ne (key a)).bound k v
  simp only [perm.mem_iff, List.mem_cons, exists_eq_or_imp, ← removed]
  unfold insert erase
  by_cases same : k = key a
  · subst same
    simp
  · simp [same, Ne.symm same]

/-- The map after a list of insertions with distinct keys: the inserted values, and the old map
elsewhere. -/
theorem foldl_insert_eq_some_iff {l : List α} (distinct : (l.map key).Nodup) (m : K → Option V)
    (k : K) (v : V) :
    l.foldl (fun m a => insert m (key a) (val a)) m k = some v ↔
      (∃ a ∈ l, key a = k ∧ val a = v) ∨ ((∀ a ∈ l, key a ≠ k) ∧ m k = some v) := by
  induction l generalizing m with
  | nil => simp
  | cons a l ih =>
    obtain ⟨fresh, distinct⟩ := List.nodup_cons.mp distinct
    rw [List.foldl_cons, ih distinct]
    simp only [List.mem_cons, exists_eq_or_imp, forall_eq_or_imp, insert]
    by_cases same : k = key a
    · subst same
      have absent : ∀ b ∈ l, key b ≠ key a := by
        intro b member equal
        exact fresh (List.mem_map.mpr ⟨b, member, equal⟩)
      have none_later : ¬ ∃ b ∈ l, key b = key a ∧ val b = v :=
        fun ⟨b, member, equal, _⟩ => absent b member equal
      simp only [none_later, or_false, ne_eq, not_true_eq_false, true_and, false_and, if_true,
        Option.some_inj, or_false, false_or]
      exact ⟨fun both => both.2, fun equal => ⟨absent, equal⟩⟩
    · simp [same, Ne.symm same]

theorem keys_nodup (sorted : l.Pairwise (fun a b => key a < key b)) : (l.map key).Nodup := by
  rw [List.Nodup, List.pairwise_map]
  exact sorted.imp fun lt => ne_of_lt lt

theorem pairs_nodup (sorted : l.Pairwise (fun a b => key a < key b)) :
    (l.map fun a => (key a, val a)).Nodup := by
  apply List.Nodup.of_map Prod.fst
  rw [List.map_map]
  exact keys_nodup sorted

/-- Lists in strictly increasing key order with the same elements are equal. -/
theorem eq_of_perm {l' : List α} (perm : l.Perm l')
    (sorted : l.Pairwise (fun a b => key a < key b))
    (sorted' : l'.Pairwise (fun a b => key a < key b)) : l = l' :=
  perm.eq_of_pairwise (fun _ _ _ _ lower upper => absurd (lower.trans upper) (lt_irrefl _))
    sorted sorted'

/-- Two lists that hold the same map agree entry by entry. -/
theorem Lists.unique {β : Type*} {key' : β → K} {val' : β → V} {l' : List β}
    (h : Lists key val l m) (h' : Lists key' val' l' m) :
    l.map (fun a => (key a, val a)) = l'.map (fun b => (key' b, val' b)) := by
  have perm : (l.map fun a => (key a, val a)).Perm (l'.map fun b => (key' b, val' b)) := by
    rw [List.perm_ext_iff_of_nodup (pairs_nodup h.sorted) (pairs_nodup h'.sorted)]
    rintro ⟨k, v⟩
    simp only [List.mem_map, Prod.mk.injEq]
    rw [← h.bound, ← h'.bound]
  have sorted : (l.map fun a => (key a, val a)).Pairwise (fun p q => p.1 < q.1) :=
    List.pairwise_map.mpr h.sorted
  have sorted' : (l'.map fun b => (key' b, val' b)).Pairwise (fun p q => p.1 < q.1) :=
    List.pairwise_map.mpr h'.sorted
  exact eq_of_perm perm sorted sorted'

open Classical in
/-- The bindings of a finite map in increasing key order. -/
noncomputable def enumerate (m : K → Option V) : List (K × V) :=
  if h : ∃ l : List (K × V), Lists Prod.fst Prod.snd l m then h.choose else []

/-- What a list holds is what enumerating the map gives. -/
theorem Lists.enumerate_eq (h : Lists key val l m) :
    enumerate m = l.map (fun a => (key a, val a)) := by
  have pairs : Lists Prod.fst Prod.snd (l.map fun a => (key a, val a)) m := by
    refine ⟨?_, fun k v => ?_⟩
    · rw [List.pairwise_map]; exact h.sorted
    · rw [h.bound]
      simp
  have exists_list : ∃ l : List (K × V), Lists Prod.fst Prod.snd l m := ⟨_, pairs⟩
  rw [enumerate, dif_pos exists_list]
  have chosen := (exists_list.choose_spec).unique h
  simpa only [Prod.mk.eta, List.map_id'] using chosen

/-- A map with at most `n` keys is its own restriction. -/
theorem Lists.best_eq_self (h : Lists key val l m) {n : Nat} (short : l.length ≤ n) :
    best n m = m := by
  have cut := h.take n
  rw [List.take_of_length_le short] at cut
  exact cut.map_unique h

/-- A sorted list that contains the first `n` entries of another, and no key that the other lacks,
starts with the same `n` entries. The induction is on the other list: its head is in both, and
nothing in either is below it. -/
theorem take_eq_of_covers {l l' : List α} (sorted : l.Pairwise (fun a b => key a < key b))
    (sorted' : l'.Pairwise (fun a b => key a < key b)) (n : Nat)
    (covers : ∀ a ∈ l'.take n, a ∈ l) (within : ∀ a ∈ l, ∃ b ∈ l', key b = key a) :
    l.take n = l'.take n := by
  induction l' generalizing l n with
  | nil =>
    cases l with
    | nil => rfl
    | cons a l => simpa using within a (by simp)
  | cons b l' ih =>
    cases n with
    | zero => simp
    | succ n =>
      have headIn : b ∈ l := covers b (by simp)
      cases l with
      | nil => simp at headIn
      | cons a l =>
        obtain ⟨above, sorted⟩ := List.pairwise_cons.mp sorted
        obtain ⟨above', sortedTail⟩ := List.pairwise_cons.mp sorted'
        have same : a = b := by
          rcases List.mem_cons.mp headIn with equal | member
          · exact equal.symm
          · obtain ⟨c, hc, equal⟩ := within a (by simp)
            have lower := above b member
            rcases List.mem_cons.mp hc with rfl | hc
            · exact absurd equal (ne_of_gt lower)
            · have := above' c hc
              exact absurd (equal ▸ this.trans' lower) (lt_irrefl _)
        subst same
        rw [List.take_succ_cons, List.take_succ_cons]
        congr 1
        apply ih sorted sortedTail
        · intro c member
          rcases List.mem_cons.mp (covers c (by simp [member])) with equal | member'
          · have := above' c (List.mem_of_mem_take member)
            exact absurd (equal ▸ this) (lt_irrefl _)
          · exact member'
        · intro c member
          obtain ⟨d, hd, equal⟩ := within c (by simp [member])
          rcases List.mem_cons.mp hd with rfl | hd
          · exact absurd equal (ne_of_lt (above c member))
          · exact ⟨d, hd, equal⟩

end OrderedMap

end Orderbook
