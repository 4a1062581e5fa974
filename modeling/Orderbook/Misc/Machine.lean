import Mathlib.Data.List.Induction
import Mathlib.Tactic.Common

/-!
# Machines and their runs

A machine reads one input at a time, changes its state and gives one output for each input.
`run` is the state after a list of inputs together with the outputs in order. The rules below are
the inductions over runs: an invariant every step keeps, what a step keeps of the inputs and outputs
so far, a relation between two machines, the run without some of its inputs, a machine inside
another one, and the split of a run at a point of its input.
-/

namespace Orderbook

/-- One step of a machine: from a state and an input to the next state and an output. -/
abbrev Machine (σ ι ο : Type*) := σ → ι → σ × ο

namespace Machine

variable {σ τ ι ο : Type*}

/-- The state after a list of inputs, and the output of each of them in order. -/
def run (m : Machine σ ι ο) : σ → List ι → σ × List ο
  | s, [] => (s, [])
  | s, i :: is => ((run m (m s i).1 is).1, (m s i).2 :: (run m (m s i).1 is).2)

/-- The state a run ends in. -/
def final (m : Machine σ ι ο) (s : σ) (is : List ι) : σ := (m.run s is).1

/-- The outputs of a run. -/
def outputs (m : Machine σ ι ο) (s : σ) (is : List ι) : List ο := (m.run s is).2

variable (m : Machine σ ι ο)

@[simp] theorem final_nil (s : σ) : m.final s [] = s := rfl

@[simp] theorem final_cons (s : σ) (i : ι) (is : List ι) :
    m.final s (i :: is) = m.final (m s i).1 is := rfl

@[simp] theorem outputs_nil (s : σ) : m.outputs s [] = [] := rfl

@[simp] theorem outputs_cons (s : σ) (i : ι) (is : List ι) :
    m.outputs s (i :: is) = (m s i).2 :: m.outputs (m s i).1 is := rfl

theorem final_append (s : σ) (is js : List ι) :
    m.final s (is ++ js) = m.final (m.final s is) js := by
  induction is generalizing s with
  | nil => rfl
  | cons i is ih => exact ih (m s i).1

theorem outputs_append (s : σ) (is js : List ι) :
    m.outputs s (is ++ js) = m.outputs s is ++ m.outputs (m.final s is) js := by
  induction is generalizing s with
  | nil => rfl
  | cons i is ih => simp [ih]

theorem final_concat (s : σ) (is : List ι) (i : ι) :
    m.final s (is ++ [i]) = (m (m.final s is) i).1 := by
  rw [final_append]
  rfl

theorem outputs_concat (s : σ) (is : List ι) (i : ι) :
    m.outputs s (is ++ [i]) = m.outputs s is ++ [(m (m.final s is) i).2] := by
  rw [outputs_append]
  rfl

/-- Every output of a run is that of a step from a state the run reached. -/
theorem exists_of_mem_outputs {s : σ} {is : List ι} {o : ο} (member : o ∈ m.outputs s is) :
    ∃ before i, before ++ [i] <+: is ∧ (m (m.final s before) i).2 = o := by
  induction is generalizing s with
  | nil => cases member
  | cons i is ih =>
    rcases List.mem_cons.mp member with rfl | later
    · exact ⟨[], i, ⟨is, rfl⟩, rfl⟩
    · obtain ⟨before, j, inside, step⟩ := ih later
      exact ⟨i :: before, j, List.cons_prefix_cons.mpr ⟨rfl, inside⟩, step⟩

/-- What every step with an admissible input keeps holds at the end of every such run. -/
theorem invariant {P : σ → Prop} {C : ι → Prop} (step : ∀ s i, C i → P s → P (m s i).1)
    {s : σ} (start : P s) : ∀ is : List ι, (∀ i ∈ is, C i) → P (m.final s is) := by
  intro is
  induction is generalizing s with
  | nil => intro _; exact start
  | cons i is ih =>
    intro admissible
    have first : C i := admissible i (by simp)
    exact ih (step s i first start) (fun j member => admissible j (by simp [member]))

/-- What the inputs read so far, the state and the outputs satisfy together: it holds at the start
and every further step keeps it. The induction is on the inputs, from the last one. -/
theorem history {P : List ι → σ → List ο → Prop} {s : σ} (start : P [] s [])
    (step : ∀ before i, P before (m.final s before) (m.outputs s before) →
      P (before ++ [i]) (m (m.final s before) i).1
        (m.outputs s before ++ [(m (m.final s before) i).2])) :
    ∀ is, P is (m.final s is) (m.outputs s is) := by
  intro is
  induction is using List.reverseRecOn with
  | nil => exact start
  | append_singleton before i ih =>
    rw [final_concat, outputs_concat]
    exact step before i ih

/-- Two machines that agree on the output of every step from related states, and step to related
states, give the same outputs over whole runs and end in related states. -/
theorem simulation {m' : Machine τ ι ο} {R : σ → τ → Prop} {C : ι → Prop}
    (step : ∀ s t i, C i → R s t → R (m s i).1 (m' t i).1 ∧ (m s i).2 = (m' t i).2)
    {s : σ} {t : τ} (start : R s t) :
    ∀ is : List ι, (∀ i ∈ is, C i) →
      R (m.final s is) (m'.final t is) ∧ m.outputs s is = m'.outputs t is := by
  intro is
  induction is generalizing s t with
  | nil => intro _; exact ⟨start, rfl⟩
  | cons i is ih =>
    intro admissible
    have first : C i := admissible i (by simp)
    obtain ⟨related, output⟩ := step s t i first start
    obtain ⟨finals, rest⟩ := ih related (fun j member => admissible j (by simp [member]))
    refine ⟨finals, ?_⟩
    rw [outputs_cons, outputs_cons, output, rest]

/-- The same where the two machines read inputs that are only related: they give the same outputs
and end in related states. -/
theorem lockstep {κ : Type*} {m' : Machine τ κ ο} {R : σ → τ → Prop} {C : ι → κ → Prop}
    (step : ∀ s t i j, C i j → R s t → R (m s i).1 (m' t j).1 ∧ (m s i).2 = (m' t j).2)
    {s : σ} {t : τ} (start : R s t) {is : List ι} {js : List κ} (inputs : List.Forall₂ C is js) :
    R (m.final s is) (m'.final t js) ∧ m.outputs s is = m'.outputs t js := by
  induction inputs generalizing s t with
  | nil => exact ⟨start, rfl⟩
  | @cons i j is js first _ ih =>
    obtain ⟨related, output⟩ := step s t i j first start
    obtain ⟨finals, rest⟩ := ih related
    refine ⟨finals, ?_⟩
    rw [outputs_cons, outputs_cons, output, rest]

/-- The same where the outputs of the one machine are those of the other under a map: the one
refines the other. -/
theorem refinement {κ ρ : Type*} {m' : Machine τ κ ρ} {f : ρ → ο} {R : σ → τ → Prop}
    {C : ι → κ → Prop}
    (step : ∀ s t i j, C i j → R s t → R (m s i).1 (m' t j).1 ∧ (m s i).2 = f (m' t j).2)
    {s : σ} {t : τ} (start : R s t) {is : List ι} {js : List κ} (inputs : List.Forall₂ C is js) :
    R (m.final s is) (m'.final t js) ∧ m.outputs s is = (m'.outputs t js).map f := by
  induction inputs generalizing s t with
  | nil => exact ⟨start, rfl⟩
  | @cons i j is js first _ ih =>
    obtain ⟨related, output⟩ := step s t i j first start
    obtain ⟨finals, rest⟩ := ih related
    refine ⟨finals, ?_⟩
    rw [outputs_cons, outputs_cons, List.map_cons, output, rest]

/-- Inputs that keep a relation to the other run and show an observer nothing can be left out: the
run without them ends related to the whole one and shows the observer the same. -/
theorem filter_inputs {ν : Type*} {f : ο → Option ν} {p : ι → Bool} {R : σ → σ → Prop}
    (skip : ∀ s t i, p i = false → R s t → R (m s i).1 t ∧ f (m s i).2 = none)
    (keep : ∀ s t i, p i = true → R s t → R (m s i).1 (m t i).1 ∧ (m s i).2 = (m t i).2)
    {s t : σ} (start : R s t) (is : List ι) :
    R (m.final s is) (m.final t (is.filter p)) ∧
      (m.outputs s is).filterMap f = (m.outputs t (is.filter p)).filterMap f := by
  induction is generalizing s t with
  | nil => exact ⟨start, rfl⟩
  | cons i is ih =>
    cases own : p i with
    | true =>
      obtain ⟨related, output⟩ := keep s t i own start
      obtain ⟨finals, rest⟩ := ih related
      rw [List.filter_cons_of_pos own]
      refine ⟨finals, ?_⟩
      rw [outputs_cons, outputs_cons, output, List.filterMap_cons, List.filterMap_cons, rest]
    | false =>
      obtain ⟨related, silent⟩ := skip s t i own start
      obtain ⟨finals, rest⟩ := ih related
      have left : ¬ p i = true := by rw [own]; exact Bool.false_ne_true
      rw [List.filter_cons_of_neg left]
      refine ⟨finals, ?_⟩
      rw [outputs_cons, List.filterMap_cons_none silent, rest]

/-- A machine inside another one: a step of the outer machine leaves the inner state as it is or is
one step of the inner machine, and its output shows which and with what input. An outer run then
holds a run of the inner machine over the inputs it shows. -/
theorem embeds {κ ρ : Type*} {inner : Machine τ κ ρ} {view : σ → τ} {shows : ο → Option (κ × ρ)}
    (step : ∀ s i, (shows (m s i).2 = none ∧ view (m s i).1 = view s) ∨
      ∃ k, shows (m s i).2 = some (k, (inner (view s) k).2) ∧
        view (m s i).1 = (inner (view s) k).1)
    (s : σ) (is : List ι) :
    view (m.final s is) =
        inner.final (view s) (((m.outputs s is).filterMap shows).map Prod.fst) ∧
      ((m.outputs s is).filterMap shows).map Prod.snd =
        inner.outputs (view s) (((m.outputs s is).filterMap shows).map Prod.fst) := by
  induction is generalizing s with
  | nil => exact ⟨rfl, rfl⟩
  | cons i is ih =>
    obtain ⟨finals, rest⟩ := ih (m s i).1
    rcases step s i with ⟨silent, same⟩ | ⟨k, shown, next⟩
    · rw [outputs_cons, List.filterMap_cons_none silent, final_cons, ← same]
      exact ⟨finals, rest⟩
    · rw [next] at finals rest
      rw [outputs_cons, List.filterMap_cons_some shown, final_cons, List.map_cons, List.map_cons,
        final_cons, outputs_cons]
      exact ⟨finals, congrArg _ rest⟩

end Machine

end Orderbook
