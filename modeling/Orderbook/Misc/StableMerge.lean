import Mathlib.Data.List.Sort
import Mathlib.Data.List.Induction

/-!
# Stable sorting and greedy merging under a comparator

`sortBy` is the stable sort of a list under a comparator, `minBy` the first of the least elements.
`greedyMerge` takes labelled lists and repeatedly moves the least front element to the output, the
first of the labels on a tie. On sorted lists it is the stable sort of their concatenation, up to
the number of elements asked for (`greedyMerge_eq_take_sortBy`).
-/

namespace Orderbook

namespace StableMerge

open Std

variable {α ι : Type*}

/-- Not strictly after: `cmp a b` is `Less` or `Equal`. -/
abbrev NotAfter (cmp : α → α → Ordering) (a b : α) : Prop := (cmp a b).isLE = true

/-- `slice::sort_by`: elements that compare equal keep their order. -/
def sortBy (cmp : α → α → Ordering) (l : List α) : List α := l.insertionSort (NotAfter cmp)

/-- `Iterator::min_by`: the first of the least elements. -/
def minBy (cmp : α → α → Ordering) : List α → Option α
  | [] => none
  | a :: l => some (l.foldl (fun least b => if cmp least b = .gt then b else least) a)

/-- The fronts of the labelled lists that have one, each with the position of its list. -/
def fronts (lists : List (ι × List α)) : List (Nat × ι × α) :=
  lists.zipIdx.filterMap fun ((label, rest), i) => rest.head?.map fun a => (i, label, a)

/-- The labelled lists after the front of the `i`-th one is taken. -/
def advance (lists : List (ι × List α)) (i : Nat) : List (ι × List α) :=
  lists.modify i fun (label, rest) => (label, rest.tail)

/-- The comparator on the fronts, which compares only the elements. -/
def byFront (cmp : α → α → Ordering) (a b : Nat × ι × α) : Ordering := cmp a.2.2 b.2.2

/-- The comparator on labelled elements, which ignores the labels. -/
def byElement (cmp : α → α → Ordering) (a b : ι × α) : Ordering := cmp a.2 b.2

/-- Up to `n` elements, always the least front, the first of the labels on a tie. -/
def greedyMerge (cmp : α → α → Ordering) : Nat → List (ι × List α) → List (ι × α)
  | 0, _ => []
  | n + 1, lists =>
      match minBy (byFront cmp) (fronts lists) with
      | none => []
      | some (i, label, a) => (label, a) :: greedyMerge cmp n (advance lists i)

/-- The elements of the labelled lists in order, each with its label. -/
def labelled (lists : List (ι × List α)) : List (ι × α) :=
  lists.flatMap fun (label, rest) => rest.map fun a => (label, a)

variable {cmp : α → α → Ordering}

theorem not_notAfter_iff {a b : α} : ¬ NotAfter cmp a b ↔ cmp a b = .gt := by
  cases h : cmp a b <;> simp [NotAfter, h]

theorem sortBy_perm (l : List α) : (sortBy cmp l).Perm l := List.perm_insertionSort _ l

theorem minBy_eq_none {l : List α} (h : minBy cmp l = none) : l = [] := by
  cases l with
  | nil => rfl
  | cons a l => simp [minBy] at h

/-- An element that is strictly before all elements ahead of it and not after any element behind
it comes first in the stable sort, and the others keep their sort. -/
theorem sortBy_extract {before after : List α} {a : α}
    (strict : ∀ b ∈ before, ¬ NotAfter cmp b a) (least : ∀ b ∈ after, NotAfter cmp a b) :
    sortBy cmp (before ++ a :: after) = a :: sortBy cmp (before ++ after) := by
  induction before with
  | nil =>
    have above : ∀ b ∈ sortBy cmp after, NotAfter cmp a b := by
      intro b member
      exact least b ((sortBy_perm after).mem_iff.mp member)
    show List.orderedInsert _ a (sortBy cmp after) = a :: sortBy cmp after
    cases sorted : sortBy cmp after with
    | nil => rfl
    | cons b rest =>
      exact List.orderedInsert_cons_of_le _ _ (above b (by simp [sorted]))
  | cons b before ih =>
    have rest := ih (fun c member => strict c (by simp [member]))
    show List.orderedInsert _ b (sortBy cmp (before ++ a :: after)) =
      a :: List.orderedInsert _ b (sortBy cmp (before ++ after))
    rw [rest]
    exact List.orderedInsert_of_not_le _ _ (strict b (by simp))

variable [TransCmp cmp]

theorem notAfter_of_not {a b : α} (h : ¬ NotAfter cmp a b) : NotAfter cmp b a := by
  simp only [NotAfter, Bool.not_eq_true] at h ⊢
  have swapped : cmp b a = (cmp a b).swap := OrientedCmp.eq_swap
  cases order : cmp a b <;> simp_all

/-- Nothing is strictly before an element that is not after it. -/
theorem ne_lt_of_notAfter {a b : α} (h : NotAfter cmp a b) : cmp b a ≠ .lt := by
  intro lower
  have swapped : cmp a b = (cmp b a).swap := OrientedCmp.eq_swap
  rw [NotAfter, swapped, lower] at h
  cases h

instance : Std.Total (NotAfter cmp) where
  total a b := by
    by_cases h : NotAfter cmp a b
    · exact Or.inl h
    · exact Or.inr (notAfter_of_not h)

theorem notAfter_refl (a : α) : NotAfter cmp a a := (Std.Total.total a a).elim id id

instance : IsTrans α (NotAfter cmp) where
  trans _ _ _ hab hbc := TransCmp.isLE_trans hab hbc

instance : TransCmp (byFront (ι := ι) cmp) where
  eq_swap {a b} := @OrientedCmp.eq_swap α cmp _ a.2.2 b.2.2
  isLE_trans {a b c} := @TransCmp.isLE_trans α cmp _ a.2.2 b.2.2 c.2.2

instance : TransCmp (byElement (ι := ι) cmp) where
  eq_swap {a b} := @OrientedCmp.eq_swap α cmp _ a.2 b.2
  isLE_trans {a b c} := @TransCmp.isLE_trans α cmp _ a.2 b.2 c.2

theorem sortBy_sorted (l : List α) : (sortBy cmp l).Pairwise (NotAfter cmp) :=
  List.pairwise_insertionSort _ l

/-- The order of a stable sort of a list along which `r` holds. -/
def StablyBefore (cmp : α → α → Ordering) (r : α → α → Prop) (a b : α) : Prop :=
  cmp a b = .lt ∨ cmp a b = .eq ∧ r a b

omit [TransCmp cmp] in
theorem StablyBefore.notAfter {r : α → α → Prop} {a b : α} (h : StablyBefore cmp r a b) :
    NotAfter cmp a b := by
  rcases h with lower | ⟨equal, -⟩
  · simp [NotAfter, lower]
  · simp [NotAfter, equal]

omit [TransCmp cmp] in
theorem stablyBefore_of_notAfter {r : α → α → Prop} {a b : α} (notAfter : NotAfter cmp a b)
    (related : r a b) : StablyBefore cmp r a b := by
  cases order : cmp a b with
  | lt => exact Or.inl order
  | eq => exact Or.inr ⟨order, related⟩
  | gt => simp [NotAfter, order] at notAfter

theorem stablyBefore_of_not {r : α → α → Prop} {a b : α} (h : ¬ NotAfter cmp b a) :
    StablyBefore cmp r a b := by
  left
  have swapped : cmp a b = (cmp b a).swap := OrientedCmp.eq_swap
  rw [swapped, not_notAfter_iff.mp h]
  rfl

theorem orderedInsert_stable {r : α → α → Prop} {a : α} {l : List α}
    (stable : l.Pairwise (StablyBefore cmp r)) (ahead : ∀ b ∈ l, r a b) :
    (l.orderedInsert (NotAfter cmp) a).Pairwise (StablyBefore cmp r) := by
  induction l with
  | nil => simp
  | cons b l ih =>
    obtain ⟨first, rest⟩ := List.pairwise_cons.mp stable
    by_cases notAfter : NotAfter cmp a b
    · rw [List.orderedInsert_cons_of_le _ _ notAfter]
      refine List.pairwise_cons.mpr ⟨fun c member => ?_, stable⟩
      apply stablyBefore_of_notAfter _ (ahead c member)
      rcases List.mem_cons.mp member with rfl | member
      · exact notAfter
      · exact IsTrans.trans a b c notAfter (first c member).notAfter
    · rw [List.orderedInsert_of_not_le _ _ notAfter]
      refine List.pairwise_cons.mpr
        ⟨fun c member => ?_, ih rest fun c member => ahead c (by simp [member])⟩
      rcases (List.mem_orderedInsert _).mp member with rfl | member
      · exact stablyBefore_of_not notAfter
      · exact first c member

/-- Stability: elements that compare equal stay in a relation that holds along the list. -/
theorem sortBy_stable {r : α → α → Prop} {l : List α} (related : l.Pairwise r) :
    (sortBy cmp l).Pairwise (StablyBefore cmp r) := by
  induction l with
  | nil => exact List.Pairwise.nil
  | cons a l ih =>
    obtain ⟨ahead, related⟩ := List.pairwise_cons.mp related
    exact orderedInsert_stable (ih related)
      fun b member => ahead b ((sortBy_perm l).mem_iff.mp member)

/-- The running minimum: where it stands in the list, what it beats strictly and what weakly. -/
theorem foldl_least (l : List α) (a : α) :
    ∃ before after, a :: l = before ++
        (l.foldl (fun least b => if cmp least b = .gt then b else least) a) :: after ∧
      (∀ b ∈ before, ¬ NotAfter cmp b
        (l.foldl (fun least b => if cmp least b = .gt then b else least) a)) ∧
      ∀ b ∈ after, NotAfter cmp
        (l.foldl (fun least b => if cmp least b = .gt then b else least) a) b := by
  induction l using List.reverseRecOn with
  | nil => exact ⟨[], [], by simp⟩
  | append_singleton l b ih =>
    obtain ⟨before, after, split, strict, least⟩ := ih
    rw [List.foldl_append, List.foldl_cons, List.foldl_nil]
    generalize l.foldl (fun least b => if cmp least b = .gt then b else least) a = c at *
    by_cases beaten : cmp c b = .gt
    · rw [if_pos beaten]
      have below : ¬ NotAfter cmp c b := not_notAfter_iff.mpr beaten
      refine ⟨a :: l, [], by simp, ?_, by simp⟩
      intro d member
      rw [split] at member
      rcases List.mem_append.mp member with member | member
      · intro notAfter
        exact strict d member (IsTrans.trans d b c notAfter (notAfter_of_not below))
      · rcases List.mem_cons.mp member with rfl | member
        · exact below
        · intro notAfter
          exact below (IsTrans.trans c d b (least d member) notAfter)
    · rw [if_neg beaten]
      refine ⟨before, after ++ [b], ?_, strict, ?_⟩
      · rw [← List.cons_append, split]
        simp
      · intro d member
        rcases List.mem_append.mp member with member | member
        · exact least d member
        · rw [List.mem_singleton.mp member]
          exact not_not.mp (fun h => beaten (not_notAfter_iff.mp h))

theorem minBy_split {l : List α} {a : α} (h : minBy cmp l = some a) :
    ∃ before after, l = before ++ a :: after ∧ (∀ b ∈ before, ¬ NotAfter cmp b a) ∧
      ∀ b ∈ after, NotAfter cmp a b := by
  cases l with
  | nil => simp [minBy] at h
  | cons b l =>
    simp only [minBy, Option.some_inj] at h
    subst h
    exact foldl_least l b

omit [TransCmp cmp] in
theorem fronts_eq_nil {lists : List (ι × List α)} (h : fronts lists = []) :
    ∀ list ∈ lists, list.2 = [] := by
  rintro ⟨label, rest⟩ member
  obtain ⟨i, inside, found⟩ := List.mem_iff_getElem.mp member
  have indexed : ((label, rest), i) ∈ lists.zipIdx := by
    rw [List.mem_zipIdx_iff_getElem?]
    simp [found, inside]
  have empty := List.filterMap_eq_nil_iff.mp h _ indexed
  cases rest with
  | nil => rfl
  | cons a rest => simp at empty

theorem advance_append (before after : List (ι × List α)) (label : ι) (list : List α) :
    advance (before ++ (label, list) :: after) before.length =
      before ++ (label, list.tail) :: after := by
  rw [advance, List.modify_eq_take_cons_drop (by simp)]
  simp

/-- The front a merge step takes: the list it heads, and how it compares with the fronts of the
lists before and after that one. -/
theorem minBy_fronts_split {lists : List (ι × List α)} {i : Nat} {label : ι} {a : α}
    (h : minBy (byFront cmp) (fronts lists) = some (i, label, a)) :
    ∃ before rest after, lists = before ++ (label, a :: rest) :: after ∧
      advance lists i = before ++ (label, rest) :: after ∧
      (∀ list ∈ before, ∀ b ∈ list.2.head?, ¬ NotAfter cmp b a) ∧
      ∀ list ∈ after, ∀ b ∈ list.2.head?, NotAfter cmp a b := by
  obtain ⟨ahead, behind, split, strict, least⟩ := minBy_split h
  obtain ⟨left, right, zipped, leftFronts, rightFronts⟩ := List.filterMap_eq_append_iff.mp split
  obtain ⟨blank, ⟨⟨label', list⟩, j⟩, right', rightSplit, blankNone, headSome, rightRest⟩ :=
    List.filterMap_eq_cons_iff.mp rightFronts
  rw [rightSplit, ← List.append_assoc] at zipped
  obtain ⟨before, tail, whole, beforeZip, tailZip⟩ := List.zipIdx_eq_append_iff.mp zipped
  obtain ⟨entry, after, tailSplit, entryEq, afterZip⟩ := List.zipIdx_eq_cons_iff.mp tailZip.symm
  subst tailSplit
  cases list with
  | nil => simp at headSome
  | cons b rest =>
    simp only [List.head?_cons, Option.map_some, Option.some_inj, Prod.mk.injEq] at headSome
    obtain ⟨rfl, rfl, rfl⟩ := headSome
    simp only [Prod.mk.injEq] at entryEq
    obtain ⟨rfl, position⟩ := entryEq
    refine ⟨before, rest, after, whole, ?_, ?_, ?_⟩
    · rw [whole, position, Nat.zero_add]
      exact advance_append before after label' (b :: rest)
    · rintro ⟨label, list⟩ member b front
      obtain ⟨k, inside, found⟩ := List.mem_iff_getElem.mp member
      have indexed : ((label, list), k) ∈ left ++ blank := by
        rw [beforeZip, List.mem_zipIdx_iff_getElem?]
        simp [found, inside]
      rcases List.mem_append.mp indexed with member | member
      · apply strict (k, label, b)
        rw [← leftFronts, List.mem_filterMap]
        exact ⟨_, member, by simp_all⟩
      · have := blankNone _ member
        simp_all
    · rintro ⟨label, list⟩ member b front
      obtain ⟨k, inside, found⟩ := List.mem_iff_getElem.mp member
      apply least (0 + before.length + 1 + k, label, b)
      rw [← rightRest, afterZip, List.mem_filterMap]
      refine ⟨((label, list), 0 + before.length + 1 + k), ?_, by simp_all⟩
      rw [List.mem_iff_getElem]
      exact ⟨k, by simpa using inside, by simp [found]⟩

theorem labelled_append (lists lists' : List (ι × List α)) :
    labelled (lists ++ lists') = labelled lists ++ labelled lists' := List.flatMap_append

theorem labelled_cons (label : ι) (list : List α) (lists : List (ι × List α)) :
    labelled ((label, list) :: lists) = list.map (fun a => (label, a)) ++ labelled lists := rfl

theorem mem_labelled {lists : List (ι × List α)} {label : ι} {a : α} :
    (label, a) ∈ labelled lists ↔ ∃ list, (label, list) ∈ lists ∧ a ∈ list := by
  simp only [labelled, List.mem_flatMap, List.mem_map, Prod.mk.injEq, Prod.exists]
  constructor
  · rintro ⟨label', list, member, b, inside, rfl, rfl⟩
    exact ⟨list, member, inside⟩
  · rintro ⟨list, member, inside⟩
    exact ⟨label, list, member, a, inside, rfl, rfl⟩

/-- The front of a sorted list is not after any of its elements. -/
theorem notAfter_of_front {list : List α} (sorted : list.Pairwise (NotAfter cmp)) {b : α}
    (member : b ∈ list) : ∃ c ∈ list.head?, NotAfter cmp c b := by
  cases list with
  | nil => simp at member
  | cons c rest =>
    refine ⟨c, rfl, ?_⟩
    rcases List.mem_cons.mp member with rfl | member
    · exact notAfter_refl b
    · exact (List.pairwise_cons.mp sorted).1 b member

/-- A merge gives only elements of its lists, each with its label. -/
theorem mem_labelled_of_mem_greedyMerge {n : Nat} {lists : List (ι × List α)} {x : ι × α}
    (member : x ∈ greedyMerge cmp n lists) : x ∈ labelled lists := by
  induction n generalizing lists with
  | zero => simp [greedyMerge] at member
  | succ n ih =>
    rw [greedyMerge] at member
    cases chosen : minBy (byFront cmp) (fronts lists) with
    | none => simp [chosen] at member
    | some front =>
      obtain ⟨i, label, a⟩ := front
      obtain ⟨before, rest, after, rfl, advanced, -, -⟩ := minBy_fronts_split chosen
      simp only [chosen, advanced, List.mem_cons] at member
      rcases member with rfl | member
      · simp [labelled_append, labelled_cons]
      · have := ih member
        simp only [labelled_append, labelled_cons, List.mem_append, List.map_cons,
          List.mem_cons] at this ⊢
        tauto

/-- The greedy merge of sorted lists is the stable sort of their concatenation, cut after `n`
elements. The induction is on `n`: the front a step takes is the element `sortBy_extract` puts
first, and taking it leaves sorted lists. -/
theorem greedyMerge_eq_take_sortBy (n : Nat) (lists : List (ι × List α))
    (sorted : ∀ list ∈ lists, list.2.Pairwise (NotAfter cmp)) :
    greedyMerge cmp n lists = (sortBy (byElement cmp) (labelled lists)).take n := by
  induction n generalizing lists with
  | zero => simp [greedyMerge]
  | succ n ih =>
    rw [greedyMerge]
    cases chosen : minBy (byFront cmp) (fronts lists) with
    | none =>
      have empty := fronts_eq_nil (minBy_eq_none chosen)
      have nothing : labelled lists = [] := by
        rw [labelled, List.flatMap_eq_nil_iff]
        intro list member
        simp [empty list member]
      simp [nothing, sortBy]
    | some front =>
      obtain ⟨i, label, a⟩ := front
      obtain ⟨before, rest, after, rfl, advanced, strict, least⟩ := minBy_fronts_split chosen
      have restSorted : (a :: rest).Pairwise (NotAfter cmp) := sorted (label, a :: rest) (by simp)
      have extract : sortBy (byElement cmp) (labelled (before ++ (label, a :: rest) :: after)) =
          (label, a) :: sortBy (byElement cmp) (labelled (before ++ (label, rest) :: after)) := by
        rw [labelled_append, labelled_append, labelled_cons, labelled_cons, List.map_cons,
          List.cons_append]
        apply sortBy_extract
        · rintro ⟨label', b⟩ member notAfter
          obtain ⟨list, inList, inside⟩ := mem_labelled.mp member
          have listSorted := sorted (label', list) (by simp [inList])
          obtain ⟨c, front, below⟩ := notAfter_of_front listSorted inside
          exact strict (label', list) inList c front (IsTrans.trans c b a below notAfter)
        · rintro ⟨label', b⟩ member
          rcases List.mem_append.mp member with member | member
          · have inside : b ∈ rest := by simp_all
            exact (List.pairwise_cons.mp restSorted).1 b inside
          · obtain ⟨list, inList, inside⟩ := mem_labelled.mp member
            have listSorted := sorted (label', list) (by simp [inList])
            obtain ⟨c, front, below⟩ := notAfter_of_front listSorted inside
            exact IsTrans.trans a c b (least (label', list) inList c front) below
      rw [extract, List.take_succ_cons]
      simp only [advanced]
      congr 1
      apply ih
      intro list member
      rcases List.mem_append.mp member with member | member
      · exact sorted list (by simp [member])
      · rcases List.mem_cons.mp member with rfl | member
        · exact restSorted.of_cons
        · exact sorted list (by simp [member])

end StableMerge

end Orderbook
