import Orderbook.Misc.StableMerge

/-!
# Ranks of a sorted list

The element at rank `i` of a sorted list is not after `b` exactly where more than `i` elements are
not after `b`. A list with more elements counts more, so at each rank its sort is not after
(`sortBy_rank_of_subperm`).
-/

namespace Orderbook

namespace StableMerge

variable {α : Type*} {cmp : α → α → Ordering} [Std.TransCmp cmp]

/-- How many elements are not after `b`. -/
def countNotAfter (cmp : α → α → Ordering) (b : α) (l : List α) : Nat :=
  l.countP fun a => (cmp a b).isLE

theorem countNotAfter_eq_zero {a b : α} {l : List α} (sorted : (a :: l).Pairwise (NotAfter cmp))
    (after : ¬ NotAfter cmp a b) : countNotAfter cmp b (a :: l) = 0 := by
  refine List.countP_eq_zero.mpr fun c member below => ?_
  rcases List.mem_cons.mp member with rfl | member
  · exact after below
  · exact after (IsTrans.trans a c b ((List.pairwise_cons.mp sorted).1 c member) below)

/-- The induction is on the list: a head that is after `b` leaves nothing to count. -/
theorem notAfter_iff_lt_count {l : List α} (sorted : l.Pairwise (NotAfter cmp)) {i : Nat} {a : α}
    (found : l[i]? = some a) (b : α) : NotAfter cmp a b ↔ i < countNotAfter cmp b l := by
  induction l generalizing i with
  | nil => simp at found
  | cons c l ih =>
    by_cases head : NotAfter cmp c b
    · have counted : countNotAfter cmp b (c :: l) = countNotAfter cmp b l + 1 :=
        List.countP_cons_of_pos head
      rw [counted]
      cases i with
      | zero =>
        obtain rfl : c = a := by simpa using found
        exact ⟨fun _ => Nat.succ_pos _, fun _ => head⟩
      | succ i =>
        rw [ih sorted.of_cons (by simpa using found)]
        omega
    · have within : NotAfter cmp c a := by
        rcases List.mem_cons.mp (List.mem_of_getElem? found) with rfl | member
        · exact notAfter_refl a
        · exact (List.pairwise_cons.mp sorted).1 a member
      have after : ¬ NotAfter cmp a b := fun below => head (IsTrans.trans c a b within below)
      rw [countNotAfter_eq_zero sorted head]
      simp [after]

/-- A sorted list with at least the same elements is at every rank not after. -/
theorem rank_of_subperm {l l' : List α} (more : l.Subperm l')
    (sorted : l.Pairwise (NotAfter cmp)) (sorted' : l'.Pairwise (NotAfter cmp)) {i : Nat} {a : α}
    (found : l[i]? = some a) : ∃ b, l'[i]? = some b ∧ NotAfter cmp b a := by
  have inside : i < l'.length := by
    have short := (List.getElem?_eq_some_iff.mp found).choose
    exact short.trans_le more.length_le
  have counted : i < countNotAfter cmp a l :=
    (notAfter_iff_lt_count sorted found a).mp (notAfter_refl a)
  have grown : countNotAfter cmp a l ≤ countNotAfter cmp a l' := more.countP_le _
  refine ⟨l'[i], List.getElem?_eq_getElem inside, ?_⟩
  exact (notAfter_iff_lt_count sorted' (List.getElem?_eq_getElem inside) a).mpr
    (counted.trans_le grown)

/-- The same for the first `n` elements of the stable sorts. -/
theorem sortBy_rank_of_subperm {l l' : List α} (more : l.Subperm l') {n i : Nat} {a : α}
    (found : ((sortBy cmp l).take n)[i]? = some a) :
    ∃ b, ((sortBy cmp l').take n)[i]? = some b ∧ NotAfter cmp b a := by
  have sorts : (sortBy cmp l).Subperm (sortBy cmp l') :=
    ((sortBy_perm l).subperm_right.mpr ((sortBy_perm l').subperm_left.mpr more))
  rw [List.getElem?_take] at found ⊢
  by_cases within : i < n
  · rw [if_pos within] at found ⊢
    exact rank_of_subperm sorts (sortBy_sorted l) (sortBy_sorted l') found
  · rw [if_neg within] at found
    cases found

end StableMerge

end Orderbook
