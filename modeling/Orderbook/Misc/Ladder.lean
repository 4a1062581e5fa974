import Orderbook.Misc.OrderedMap
import Orderbook.Misc.StableMerge

/-!
# Ladders: keyed lists kept sorted by a comparator

A ladder is a list kept sorted by a comparator that refines the order of a key. `put` is the
upsert of such a list: the elements with the key of the new one go, the new one is appended or
not, and the list is sorted again. Where keys are distinct a ladder holds a map
(`OrderedMap.Lists`) and `put` is an insertion or a removal of that map. Where they may repeat, a
ladder is still determined by its slots, the elements of each key in order (`eq_of_slot_eq`).
-/

namespace Orderbook

namespace Ladder

open OrderedMap StableMerge

variable {K V α : Type*} [LinearOrder K]

/-- The comparator never puts an element before one with a smaller key. -/
def Refines (cmp : α → α → Ordering) (key : α → K) : Prop :=
  ∀ a b, NotAfter cmp a b → key a ≤ key b

/-- Drops the elements with the key of `a`, appends `a` if it is to be kept, and sorts. -/
def put (cmp : α → α → Ordering) (key : α → K) (l : List α) (a : α) (keep : Bool) : List α :=
  sortBy cmp (l.filter (fun b => key b ≠ key a) ++ if keep then [a] else [])

/-- The elements of a key, in order. -/
def slot (key : α → K) (l : List α) (k : K) : List α := l.filter fun a => key a = k

variable {cmp : α → α → Ordering} {key : α → K} {val : α → V} {m : K → Option V}

/-- Sorted with distinct keys is strictly sorted by key. -/
theorem strict_of_nodup (refines : Refines cmp key) {l : List α}
    (sorted : l.Pairwise (NotAfter cmp)) (distinct : (l.map key).Nodup) :
    l.Pairwise (fun a b => key a < key b) := by
  rw [List.Nodup, List.pairwise_map] at distinct
  exact (sorted.and distinct).imp fun both => lt_of_le_of_ne (refines _ _ both.1) both.2

variable [Std.TransCmp cmp]

theorem put_sorted (l : List α) (a : α) (keep : Bool) :
    (put cmp key l a keep).Pairwise (NotAfter cmp) := sortBy_sorted _

theorem sortBy_strict (refines : Refines cmp key) {l : List α} (distinct : (l.map key).Nodup) :
    (sortBy cmp l).Pairwise (fun a b => key a < key b) :=
  strict_of_nodup refines (sortBy_sorted l) (((sortBy_perm l).map key).nodup_iff.mpr distinct)

/-- `put` keeps a ladder with distinct keys strictly sorted. -/
theorem put_strict (refines : Refines cmp key) {l : List α}
    (strict : l.Pairwise (fun a b => key a < key b)) (a : α) (keep : Bool) :
    (put cmp key l a keep).Pairwise (fun a b => key a < key b) := by
  have kept : ((l.filter fun b => key b ≠ key a).map key).Nodup :=
    (keys_nodup strict).sublist (List.filter_sublist.map key)
  apply sortBy_strict refines
  cases keep with
  | false => simpa using kept
  | true =>
    have absent : key a ∉ (l.filter fun b => key b ≠ key a).map key := by simp
    have appended := List.nodup_append_comm.mp
      (List.nodup_append.mpr ⟨List.nodup_singleton (key a), kept, by
        intro k single j member equal
        have first : j = key a := equal.symm.trans (List.mem_singleton.mp single)
        rw [first] at member
        exact absent member⟩)
    simpa using appended

/-- `put` on a list that holds a map is the insertion or the removal in the map. -/
theorem lists_put (refines : Refines cmp key) {l : List α} (h : Lists key val l m) (a : α)
    (keep : Bool) :
    Lists key val (put cmp key l a keep)
      (if keep then insert m (key a) (val a) else erase m (key a)) := by
  have strict := put_strict refines h.sorted a keep
  cases keep with
  | false =>
    have perm : (put cmp key l a false).Perm (l.filter fun b => key b ≠ key a) := by
      rw [put, if_neg Bool.false_ne_true, List.append_nil]
      exact sortBy_perm _
    refine ⟨strict, fun k v => ?_⟩
    simp only [Bool.false_eq_true, if_false, (h.filter_ne (key a)).bound, perm.mem_iff]
  | true =>
    have perm : (put cmp key l a true).Perm (a :: l.filter fun b => key b ≠ key a) :=
      (sortBy_perm _).trans (List.perm_append_singleton a _)
    exact h.insert_of_perm perm strict

/-- Sorting a list with distinct keys gives a list of its bindings. -/
theorem lists_sortBy (refines : Refines cmp key) {l : List α} (distinct : (l.map key).Nodup)
    (bound : ∀ k v, m k = some v ↔ ∃ a ∈ l, key a = k ∧ val a = v) :
    Lists key val (sortBy cmp l) m := by
  refine ⟨sortBy_strict refines distinct, fun k v => ?_⟩
  simp only [bound, (sortBy_perm l).mem_iff]

/-! ## Slots -/

omit [Std.TransCmp cmp] in
theorem mem_slot {l : List α} {k : K} {a : α} : a ∈ slot key l k ↔ a ∈ l ∧ key a = k := by
  simp [slot]

omit [Std.TransCmp cmp] in
theorem slot_append (l l' : List α) (k : K) :
    slot key (l ++ l') k = slot key l k ++ slot key l' k := List.filter_append ..

omit [Std.TransCmp cmp] in
/-- Stability: sorting keeps the slots of a list whose slots are sorted. -/
theorem slot_sortBy {l : List α} {k : K} (sorted : (slot key l k).Pairwise (NotAfter cmp)) :
    slot key (sortBy cmp l) k = slot key l k := by
  have inside : (slot key l k).Sublist (sortBy cmp l) :=
    List.sublist_insertionSort sorted List.filter_sublist
  have kept : (slot key l k).filter (fun a => key a = k) = slot key l k := by
    simp [slot, List.filter_filter]
  have sub : (slot key l k).Sublist (slot key (sortBy cmp l) k) := by
    have := inside.filter fun a => key a = k
    rwa [kept] at this
  have len : (slot key (sortBy cmp l) k).length = (slot key l k).length :=
    ((sortBy_perm l).filter _).length_eq
  exact (sub.eq_of_length len.symm).symm

omit [Std.TransCmp cmp] in
/-- What `put` leaves in each slot. -/
theorem slot_put {l : List α} (sorted : l.Pairwise (NotAfter cmp)) (a : α) (keep : Bool) (k : K) :
    slot key (put cmp key l a keep) k =
      if k = key a then (if keep then [a] else []) else slot key l k := by
  have parts : slot key (l.filter (fun b => key b ≠ key a) ++ if keep then [a] else []) k =
      if k = key a then (if keep then [a] else []) else slot key l k := by
    rw [slot_append]
    by_cases same : k = key a
    · subst same
      cases keep <;> simp [slot, List.filter_filter]
    · have other : slot key (if keep then [a] else []) k = [] := by
        cases keep <;> simp [slot, Ne.symm same]
      rw [other, List.append_nil, if_neg same, slot, slot, List.filter_filter]
      apply List.filter_congr
      intro b _
      by_cases equal : key b = k
      · simp [equal, same]
      · simp [equal]
  rw [put, slot_sortBy, parts]
  rw [parts]
  split
  · cases keep <;> simp
  · exact sorted.filter _

omit [Std.TransCmp cmp] in
/-- Two sorted lists with equal slots are equal. The induction is on both lists: the heads have
the least key of both lists, so they head the same slot. -/
theorem eq_of_slot_eq (refines : Refines cmp key) {l l' : List α}
    (sorted : l.Pairwise (NotAfter cmp)) (sorted' : l'.Pairwise (NotAfter cmp))
    (same : ∀ k, slot key l k = slot key l' k) : l = l' := by
  induction l generalizing l' with
  | nil =>
    cases l' with
    | nil => rfl
    | cons b l' => simpa [slot] using same (key b)
  | cons a l ih =>
    cases l' with
    | nil => simpa [slot] using same (key a)
    | cons b l' =>
      have inLeft : b ∈ a :: l := by
        have member : b ∈ slot key (b :: l') (key b) := mem_slot.mpr ⟨by simp, rfl⟩
        rw [← same (key b)] at member
        exact (mem_slot.mp member).1
      have inRight : a ∈ b :: l' := by
        have member : a ∈ slot key (a :: l) (key a) := mem_slot.mpr ⟨by simp, rfl⟩
        rw [same (key a)] at member
        exact (mem_slot.mp member).1
      have le : ∀ {c d : α} {r : List α}, (c :: r).Pairwise (NotAfter cmp) → d ∈ c :: r →
          key c ≤ key d := by
        intro c d r pairwise member
        rcases List.mem_cons.mp member with rfl | member
        · exact le_rfl
        · exact refines c d ((List.pairwise_cons.mp pairwise).1 d member)
      have keys : key a = key b := le_antisymm (le sorted inLeft) (le sorted' inRight)
      have heads : a = b ∧ slot key l (key a) = slot key l' (key a) := by
        have whole := same (key a)
        simpa [slot, keys] using whole
      obtain ⟨rfl, tails⟩ := heads
      congr 1
      apply ih sorted.of_cons sorted'.of_cons
      intro k
      by_cases first : k = key a
      · rw [first, tails]
      · have whole := same k
        simpa [slot, Ne.symm first] using whole

/-- A run of `put`s. -/
def putAll (cmp : α → α → Ordering) (key : α → K) (keep : α → Bool) (l : List α)
    (changes : List α) : List α := changes.foldl (fun l a => put cmp key l a (keep a)) l

omit [Std.TransCmp cmp] in
@[simp] theorem putAll_nil (keep : α → Bool) (l : List α) : putAll cmp key keep l [] = l := rfl

omit [Std.TransCmp cmp] in
@[simp] theorem putAll_cons (keep : α → Bool) (l : List α) (a : α) (changes : List α) :
    putAll cmp key keep l (a :: changes) =
      putAll cmp key keep (put cmp key l a (keep a)) changes := rfl

theorem putAll_sorted (keep : α → Bool) {l : List α} (sorted : l.Pairwise (NotAfter cmp))
    (changes : List α) : (putAll cmp key keep l changes).Pairwise (NotAfter cmp) := by
  induction changes generalizing l with
  | nil => exact sorted
  | cons a changes ih => exact ih (put_sorted l a (keep a))

theorem putAll_strict (refines : Refines cmp key) (keep : α → Bool) {l : List α}
    (strict : l.Pairwise (fun a b => key a < key b)) (changes : List α) :
    (putAll cmp key keep l changes).Pairwise (fun a b => key a < key b) := by
  induction changes generalizing l with
  | nil => exact strict
  | cons a changes ih => exact ih (put_strict refines strict a (keep a))

/-- A run of `put`s on a list that holds a map is the run of insertions and removals. -/
theorem lists_putAll (refines : Refines cmp key) (keep : α → Bool) {l : List α}
    (h : Lists key val l m) (changes : List α) :
    Lists key val (putAll cmp key keep l changes)
      (changes.foldl
        (fun m a => if keep a then insert m (key a) (val a) else erase m (key a)) m) := by
  induction changes generalizing l m with
  | nil => exact h
  | cons a changes ih => exact ih (lists_put refines h a (keep a))

/-- After a run of `put`s each slot holds what the last change of its key left. -/
theorem slot_putAll (keep : α → Bool) {l : List α} (sorted : l.Pairwise (NotAfter cmp))
    (changes : List α) (k : K) :
    slot key (putAll cmp key keep l changes) k =
      match (slot key changes k).getLast? with
      | some a => if keep a then [a] else []
      | none => slot key l k := by
  induction changes generalizing l with
  | nil => simp [slot]
  | cons a changes ih =>
    rw [putAll_cons, ih (put_sorted l a (keep a)), slot_put sorted]
    by_cases same : key a = k
    · have grown : slot key (a :: changes) k = a :: slot key changes k := by simp [slot, same]
      rw [grown, List.getLast?_cons]
      cases (slot key changes k).getLast? with
      | none => simp [same]
      | some b => simp
    · have kept : slot key (a :: changes) k = slot key changes k := by simp [slot, same]
      rw [kept, if_neg (Ne.symm same)]

theorem mem_putAll_iff (keep : α → Bool) {l : List α} (sorted : l.Pairwise (NotAfter cmp))
    (changes : List α) (a : α) :
    a ∈ putAll cmp key keep l changes ↔
      match (slot key changes (key a)).getLast? with
      | some b => keep b = true ∧ a = b
      | none => a ∈ l := by
  have member : a ∈ putAll cmp key keep l changes ↔
      a ∈ slot key (putAll cmp key keep l changes) (key a) := by simp [mem_slot]
  rw [member, slot_putAll keep sorted changes]
  cases (slot key changes (key a)).getLast? with
  | none => simp [mem_slot]
  | some b => cases keep b <;> simp

/-- An element whose key no change mentions stays. -/
theorem mem_putAll_of_unmentioned (keep : α → Bool) {l : List α}
    (sorted : l.Pairwise (NotAfter cmp)) {changes : List α} {a : α}
    (unmentioned : ∀ b ∈ changes, key b ≠ key a) (member : a ∈ l) :
    a ∈ putAll cmp key keep l changes := by
  have empty : slot key changes (key a) = [] := by
    simpa [slot, List.filter_eq_nil_iff] using unmentioned
  simpa [mem_putAll_iff keep sorted, empty] using member

/-- If a key is mentioned and every change that mentions it keeps its element, one of those
elements is there. -/
theorem exists_mem_putAll (keep : α → Bool) {l : List α} (sorted : l.Pairwise (NotAfter cmp))
    {changes : List α} {k : K} (mentioned : ∃ b ∈ changes, key b = k)
    (kept : ∀ b ∈ changes, key b = k → keep b = true) :
    ∃ b ∈ changes, key b = k ∧ b ∈ putAll cmp key keep l changes := by
  obtain ⟨c, member, same⟩ := mentioned
  have filled : slot key changes k ≠ [] := List.ne_nil_of_mem (mem_slot.mpr ⟨member, same⟩)
  have last := List.getLast?_eq_some_getLast filled
  obtain ⟨inside, atKey⟩ := mem_slot.mp (List.getLast_mem filled)
  refine ⟨_, inside, atKey, (mem_putAll_iff keep sorted changes _).mpr ?_⟩
  rw [atKey, last]
  exact ⟨kept _ inside atKey, rfl⟩

/-- What is there was kept by a change or was there before and is not mentioned. -/
theorem mem_putAll_cases (keep : α → Bool) {l : List α} (sorted : l.Pairwise (NotAfter cmp))
    {changes : List α} {a : α} (member : a ∈ putAll cmp key keep l changes) :
    (a ∈ changes ∧ keep a = true) ∨ (a ∈ l ∧ ∀ b ∈ changes, key b ≠ key a) := by
  rw [mem_putAll_iff keep sorted] at member
  cases last : (slot key changes (key a)).getLast? with
  | some b =>
    rw [last] at member
    obtain ⟨kept, rfl⟩ := member
    exact Or.inl ⟨(mem_slot.mp (List.mem_of_getLast? last)).1, kept⟩
  | none =>
    rw [last] at member
    have empty := List.getLast?_eq_none_iff.mp last
    refine Or.inr ⟨member, ?_⟩
    simpa [slot, List.filter_eq_nil_iff] using empty

/-- A run of `put`s restates a sorted list: the last change of each key it mentions leaves the
slot of that key as it was. -/
def Restates (key : α → K) (keep : α → Bool) (l changes : List α) : Prop :=
  ∀ k a, (slot key changes k).getLast? = some a → slot key l k = if keep a then [a] else []

/-- A run of `put`s gives the list back exactly when it restates it. -/
theorem putAll_eq_self_iff (refines : Refines cmp key) (keep : α → Bool) {l : List α}
    (sorted : l.Pairwise (NotAfter cmp)) (changes : List α) :
    putAll cmp key keep l changes = l ↔ Restates key keep l changes := by
  constructor
  · intro unchanged k a last
    have after : slot key (putAll cmp key keep l changes) k = _ :=
      slot_putAll keep sorted changes k
    rw [unchanged, last] at after
    exact after
  · intro restates
    apply eq_of_slot_eq refines (putAll_sorted keep sorted changes) sorted
    intro k
    rw [slot_putAll keep sorted changes k]
    cases last : (slot key changes k).getLast? with
    | none => rfl
    | some a => exact (restates k a last).symm

/-- A run of `put`s on the cut of its own result changes nothing above the cut. What the second run
adds was mentioned and had been cut off, so it comes after everything that stayed. -/
theorem putAll_take_putAll (refines : Refines cmp key) (keep : α → Bool) {l : List α}
    (sorted : l.Pairwise (NotAfter cmp)) (changes : List α) (n : Nat) :
    (putAll cmp key keep ((putAll cmp key keep l changes).take n) changes).take n =
      (putAll cmp key keep l changes).take n := by
  have slots : ∀ k, slot key (putAll cmp key keep l changes) k = _ :=
    slot_putAll keep sorted changes
  have whole : (putAll cmp key keep l changes).Pairwise (NotAfter cmp) :=
    putAll_sorted keep sorted changes
  generalize putAll cmp key keep l changes = all at slots whole ⊢
  have keptSorted : (all.take n).Pairwise (NotAfter cmp) := whole.sublist (List.take_sublist ..)
  have again : putAll cmp key keep (all.take n) changes =
      all.take n ++ (all.drop n).filter fun a => slot key changes (key a) ≠ [] := by
    apply eq_of_slot_eq refines (putAll_sorted keep keptSorted changes)
    · have within : (all.take n ++
          (all.drop n).filter fun a => slot key changes (key a) ≠ []).Sublist
            (all.take n ++ all.drop n) := (List.Sublist.refl _).append List.filter_sublist
      rw [List.take_append_drop] at within
      exact whole.sublist within
    · intro k
      have added : slot key ((all.drop n).filter fun a => slot key changes (key a) ≠ []) k =
          if slot key changes k = [] then [] else slot key (all.drop n) k := by
        split
        · rename_i unmentioned
          apply List.eq_nil_iff_forall_not_mem.mpr
          intro a member
          obtain ⟨inside, rfl⟩ := mem_slot.mp member
          simpa [unmentioned] using (List.mem_filter.mp inside).2
        · rename_i mentioned
          show List.filter _ (List.filter _ _) = List.filter _ _
          rw [List.filter_filter]
          apply List.filter_congr
          intro a _
          by_cases same : key a = k
          · simp [same, mentioned]
          · simp [same]
      rw [slot_putAll keep keptSorted, slot_append, added]
      cases last : (slot key changes k).getLast? with
      | none =>
        rw [List.getLast?_eq_none_iff.mp last]
        simp
      | some a =>
        have mentioned : slot key changes k ≠ [] := by
          intro empty
          simp [empty] at last
        rw [if_neg mentioned, ← slot_append, List.take_append_drop, slots, last]
  rw [again]
  rcases Nat.le_total n all.length with enough | short
  · exact List.take_left' (List.length_take_of_le enough)
  · rw [List.drop_of_length_le short, List.filter_nil, List.append_nil, List.take_take, min_self]

end Ladder

end Orderbook
