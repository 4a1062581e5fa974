import Mathlib.Algebra.GroupWithZero.Nat
import Orderbook.Misc.StableMerge

/-!
# Greedy merging of unsorted lists

What `greedyMerge` does with lists in any order: it gives as many elements as are asked for and
there are, it takes each list from the front without gaps, and it looks no deeper into a list than
the number of elements asked for.
-/

namespace Orderbook

namespace StableMerge

variable {α ι : Type*} {cmp : α → α → Ordering}

/-! ## How many elements -/

/-- The number of elements of all the lists. -/
def total (lists : List (ι × List α)) : Nat := (lists.map fun list => list.2.length).sum

theorem total_append (lists lists' : List (ι × List α)) :
    total (lists ++ lists') = total lists + total lists' := by
  simp [total]

theorem total_cons (list : ι × List α) (lists : List (ι × List α)) :
    total (list :: lists) = list.2.length + total lists := by
  simp [total]

theorem total_eq_zero_iff {lists : List (ι × List α)} :
    total lists = 0 ↔ ∀ list ∈ lists, list.2 = [] := by
  induction lists with
  | nil => simp [total]
  | cons list lists ih => simp [total_cons, ih]

theorem length_greedyMerge [Std.TransCmp cmp] (n : Nat) (lists : List (ι × List α)) :
    (greedyMerge cmp n lists).length = min n (total lists) := by
  induction n generalizing lists with
  | zero => simp [greedyMerge]
  | succ n ih =>
    rw [greedyMerge]
    cases chosen : minBy (byFront cmp) (fronts lists) with
    | none =>
      have empty := total_eq_zero_iff.mpr (fronts_eq_nil (minBy_eq_none chosen))
      rw [empty]
      rfl
    | some front =>
      obtain ⟨i, label, a⟩ := front
      obtain ⟨before, rest, after, rfl, advanced, -, -⟩ := minBy_fronts_split chosen
      have left : total (before ++ (label, a :: rest) :: after) =
          total (before ++ (label, rest) :: after) + 1 := by
        simp only [total_append, total_cons, List.length_cons]
        omega
      simp only [List.length_cons, ih, advanced, left]
      omega

/-! ## What is taken from each list -/

/-- The elements with a label, in order. -/
def ofLabel [DecidableEq ι] (label : ι) (out : List (ι × α)) : List α :=
  (out.filter fun x => x.1 = label).map Prod.snd

theorem ofLabel_cons_self [DecidableEq ι] (label : ι) (a : α) (out : List (ι × α)) :
    ofLabel label ((label, a) :: out) = a :: ofLabel label out := by
  simp [ofLabel]

theorem ofLabel_cons_of_ne [DecidableEq ι] {label label' : ι} (other : label' ≠ label) (a : α)
    (out : List (ι × α)) : ofLabel label ((label', a) :: out) = ofLabel label out := by
  simp [ofLabel, other]

theorem labels_replace {before after : List (ι × List α)} {label : ι} (list list' : List α) :
    (before ++ (label, list) :: after).map Prod.fst =
      (before ++ (label, list') :: after).map Prod.fst := by
  simp

/-- With distinct labels the elements of one label are taken from the front of its list, in order
and without gaps. The induction is on `n`: a step takes one front and leaves the other lists. -/
theorem ofLabel_greedyMerge_prefix [DecidableEq ι] [Std.TransCmp cmp] (n : Nat)
    {lists : List (ι × List α)} (distinct : (lists.map Prod.fst).Nodup) {label : ι} {list : List α}
    (member : (label, list) ∈ lists) : ofLabel label (greedyMerge cmp n lists) <+: list := by
  induction n generalizing lists list with
  | zero => simp [greedyMerge, ofLabel]
  | succ n ih =>
    rw [greedyMerge]
    cases chosen : minBy (byFront cmp) (fronts lists) with
    | none => simp [ofLabel]
    | some front =>
      obtain ⟨i, taken, a⟩ := front
      obtain ⟨before, rest, after, rfl, advanced, -, -⟩ := minBy_fronts_split chosen
      simp only [advanced]
      have distinct' := distinct
      rw [labels_replace (a :: rest) rest] at distinct'
      by_cases same : taken = label
      · subst same
        have only : list = a :: rest := by
          have := List.inj_on_of_nodup_map distinct member
            (show (taken, a :: rest) ∈ _ by simp) rfl
          exact congrArg Prod.snd this
        rw [only, ofLabel_cons_self, List.cons_prefix_cons]
        exact ⟨rfl, ih distinct' (by simp)⟩
      · rw [ofLabel_cons_of_ne same]
        apply ih distinct'
        have elsewhere : (label, list) ≠ (taken, a :: rest) := by
          intro equal
          exact same (congrArg Prod.fst equal).symm
        simp only [List.mem_append, List.mem_cons] at member ⊢
        tauto

/-! ## How deep a merge looks -/

/-- The lists cut after `n` elements. -/
def cutAt (n : Nat) (lists : List (ι × List α)) : List (ι × List α) :=
  lists.map fun list => (list.1, list.2.take n)

theorem fronts_cutAt (n : Nat) (lists : List (ι × List α)) :
    fronts (cutAt (n + 1) lists) = fronts lists := by
  rw [fronts, fronts, cutAt, List.zipIdx_map, List.filterMap_map]
  congr 1
  funext ⟨⟨label, list⟩, i⟩
  simp [List.head?_take]

/-- Advancing a cut list uncovers nothing below the cut. -/
theorem cutAt_advance (n : Nat) (lists : List (ι × List α)) (i : Nat) :
    cutAt n (advance (cutAt (n + 1) lists) i) = cutAt n (advance lists i) := by
  apply List.ext_getElem?
  intro j
  simp only [cutAt, advance, List.getElem?_map, List.getElem?_modify]
  cases lists[j]? with
  | none => rfl
  | some list =>
    by_cases here : i = j
    · cases tail : list.2 <;> simp [here, tail, List.take_take]
    · simp [here, List.take_take]

/-- A merge up to `n` elements reads no list beyond its first `n`. The induction is on `n`: a step
reads fronts only, and the lists it leaves agree one element less deep. -/
theorem greedyMerge_cutAt (n : Nat) (lists : List (ι × List α)) :
    greedyMerge cmp n (cutAt n lists) = greedyMerge cmp n lists := by
  induction n generalizing lists with
  | zero => rfl
  | succ n ih =>
    rw [greedyMerge, greedyMerge, fronts_cutAt]
    cases minBy (byFront cmp) (fronts lists) with
    | none => rfl
    | some front =>
      simp only
      rw [← ih (advance (cutAt (n + 1) lists) front.1), cutAt_advance, ih]

/-! ## Other elements in the same order -/

section Map

variable {β : Type*} {cmp' : β → β → Ordering} {f : α → β}

/-- The lists with every element replaced. -/
def mapElements (f : α → β) (lists : List (ι × List α)) : List (ι × List β) :=
  lists.map fun list => (list.1, list.2.map f)

theorem foldl_least_map (same : ∀ a b, cmp' (f a) (f b) = cmp a b) (l : List α) (a : α) :
    (l.map f).foldl (fun least b => if cmp' least b = .gt then b else least) (f a) =
      f (l.foldl (fun least b => if cmp least b = .gt then b else least) a) := by
  induction l generalizing a with
  | nil => rfl
  | cons b l ih =>
    rw [List.map_cons, List.foldl_cons, List.foldl_cons, same, ← apply_ite f, ih]

theorem minBy_map (same : ∀ a b, cmp' (f a) (f b) = cmp a b) (l : List α) :
    minBy cmp' (l.map f) = (minBy cmp l).map f := by
  cases l with
  | nil => rfl
  | cons a l => exact congrArg some (foldl_least_map same l a)

theorem fronts_mapElements (f : α → β) (lists : List (ι × List α)) :
    fronts (mapElements f lists) =
      (fronts lists).map fun front => (front.1, front.2.1, f front.2.2) := by
  rw [fronts, fronts, mapElements, List.zipIdx_map, List.filterMap_map, List.map_filterMap]
  congr 1
  funext ⟨⟨label, list⟩, i⟩
  cases list <;> rfl

theorem advance_mapElements (f : α → β) (lists : List (ι × List α)) (i : Nat) :
    advance (mapElements f lists) i = mapElements f (advance lists i) := by
  apply List.ext_getElem?
  intro j
  simp only [mapElements, advance, List.getElem?_map, List.getElem?_modify]
  cases lists[j]? with
  | none => rfl
  | some list =>
    by_cases here : i = j
    · simp [here, List.map_tail]
    · simp [here]

/-- A merge only compares: where the replacements compare as the elements did, it replaces what it
gives. -/
theorem greedyMerge_mapElements (same : ∀ a b, cmp' (f a) (f b) = cmp a b) (n : Nat)
    (lists : List (ι × List α)) :
    greedyMerge cmp' n (mapElements f lists) =
      (greedyMerge cmp n lists).map fun x => (x.1, f x.2) := by
  induction n generalizing lists with
  | zero => rfl
  | succ n ih =>
    have least : minBy (byFront cmp') ((fronts lists).map fun front =>
        (front.1, front.2.1, f front.2.2)) =
        (minBy (byFront cmp) (fronts lists)).map fun front => (front.1, front.2.1, f front.2.2) :=
      minBy_map (fun a b => same a.2.2 b.2.2) (fronts lists)
    rw [greedyMerge, greedyMerge, fronts_mapElements, least]
    cases minBy (byFront cmp) (fronts lists) with
    | none => rfl
    | some front =>
      simp only [Option.map_some, List.map_cons]
      rw [advance_mapElements, ih]

end Map

end StableMerge

end Orderbook
