import Orderbook.Report
import Orderbook.Proofs.BasisPoints
import Orderbook.Proofs.DepthBars
import Orderbook.Proofs.ReportWindows

/-!
# The figures of the reports

In every run, what a report says of the rate and of the repeats is what the calls before it give, up
to the roundings of its `f64` arithmetic.
-/

namespace Orderbook

open F64 Factors Repeats Windows

namespace F64

/-! ## Quotients of counts -/

section Quotient

variable {part whole : Nat}

end Quotient

end F64

variable {H : Type}

/-! ## Whole runs -/

/-- The update count at the last report and the updates of the open window make up the update
count. -/
def Opened (state : RunState H) (turns : List (Turned H)) : Prop :=
  state.updateCountAtLastReport + (windows Turned.reported turns).2.countP Turned.published =
    state.aggregator.updateCount

/-- A turn without a report. -/
theorem Opened.push {state next : RunState H} {turns : List (Turned H)}
    (opened : Opened state turns) {turned : Turned H} (silent : turned.shown.report = none)
    (last : next.updateCountAtLastReport = state.updateCountAtLastReport)
    (updates : next.aggregator.updateCount =
      state.aggregator.updateCount + turned.published.toNat) :
    Opened next (turns ++ [turned]) := by
  have inside : turned.reported = false := by rw [Turned.reported, silent, Option.isSome_none]
  rw [Opened] at opened
  rw [Opened, windows_concat_of_not inside, List.countP_append, List.countP_singleton, last,
    updates, ← opened, Nat.add_assoc]
  cases turned.published <;> rfl

end Orderbook
