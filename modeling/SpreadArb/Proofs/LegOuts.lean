import SpreadArb.Proofs.Origins
import SpreadArb.Proofs.Halt

namespace SpreadArb.Proofs.LegOuts
open Interact Machine Origins

/-- The loss of a step by which `check_exits` closes a trade of the portfolio whose record in the
map has a leg-out. -/
def legOutLoss : Runner × RunnerOp → Option ℚ
  | (s,.closeTrade id profit _) =>
    if (s.lookup id).any (fun t => t.legOutEvent.isSome) && profit < 0 &&
        s.portfolio.activeTrades.any (fun t => t.id = id) then some |profit|
    else none
  | _ => none

/-- The losses over all steps of a run. -/
def legOutLosses (steps : List (Runner × RunnerOp)) : List ℚ := steps.filterMap legOutLoss

/-- Each such close is counted when it is made, and the totals at the end of the run are those of
all of them. -/
structure LegOutsCounted (env : Surroundings) (steps : List (Runner × RunnerOp))
    (last : Runner) : Prop where
  each : ∀ step ∈ steps, ∀ loss, legOutLoss step = some loss →
    ((runner env).serve step.2 step.1).2.portfolio.legOutCount = step.1.portfolio.legOutCount + 1 ∧
    ((runner env).serve step.2 step.1).2.portfolio.legOutTotalLoss =
      step.1.portfolio.legOutTotalLoss + loss
  count : last.portfolio.legOutCount = (legOutLosses steps).length
  total : last.portfolio.legOutTotalLoss = (legOutLosses steps).sum

theorem legOutLosses_eq_nil {steps : List (Runner × RunnerOp)} :
    legOutLosses steps = [] ↔ ∀ step ∈ steps, legOutLoss step = none :=
  List.filterMap_eq_nil_iff

/-- After any number of turns the leg-out losses are counted exactly if there were none: the
portfolio closes its own copy of the trade, which never has a leg-out. -/
theorem leg_outs_counted_iff (env : Surroundings) (world : World) (startingCapital : ℚ)
    (inputs : Nat → Input) (n : Nat) :
    LegOutsCounted env ((runner env).trace (runScanningLoop inputs n) (.new world startingCapital))
        ((runner env).run (runScanningLoop inputs n) (.new world startingCapital)).2 ↔
      ∀ step ∈ (runner env).trace (runScanningLoop inputs n) (.new world startingCapital),
        legOutLoss step = none := by
  have hlast : Blank ((runner env).run (runScanningLoop inputs n) (.new world startingCapital)).2 :=
    run_of_wpr (loop_blank inputs n (blank_new world startingCapital))
  rw [← legOutLosses_eq_nil]
  constructor
  · intro h
    have hcount := h.count
    rw [hlast.legOutCount] at hcount
    exact List.length_eq_zero_iff.mp hcount.symm
  · intro hnil
    refine ⟨fun step hstep loss hloss => ?_,?_,?_⟩
    · rw [legOutLosses_eq_nil.mp hnil step hstep] at hloss
      cases hloss
    · rw [hlast.legOutCount,hnil,List.length_nil]
    · rw [hlast.legOutTotalLoss,hnil,List.sum_nil]

/-- The polling loop times out; then the long order is seen to be filled, and the short one fills
before its cancel, so that only the long order is on record as filled. The long exit order is
refused, and the spread widens. -/
def lateFill : Surroundings where
  exchanges t :=
    { value := if t = 14 then 1/2 else if t = 16 then 51/100 else 150
      depth := ⟨[⟨1/2,1000⟩],[],0⟩
      trades := fun i => if i = 0 && t ≥ 17 || i = 1 && t ≥ 19 then 1000 else 0
      delay := if t = 13 then 100000 else 0
      failure := if t = 22 then some "rejected" else none }
  quotes t _ _ _ := (some (1/2),some (if t < 5 then 51/100 else 55/100))

theorem leg_out_loss_uncounted :
    ¬LegOutsCounted lateFill
      ((runner lateFill).trace
        (runScanningLoop (fun _ => { opportunity := some (Halt.penny "BTCUSDT") }) 1)
        (.new .empty 1010))
      ((runner lateFill).run (runScanningLoop (fun _ =>
        { opportunity := some (Halt.penny "BTCUSDT") }) 1) (.new .empty 1010)).2 := by
  intro h
  have hlosses : legOutLosses
      ((runner lateFill).trace
        (runScanningLoop (fun _ => { opportunity := some (Halt.penny "BTCUSDT") }) 1)
        (.new .empty 1010)) = [163721/20000] := by decide +kernel
  have hcount := h.count
  rw [hlosses] at hcount
  revert hcount
  decide +kernel

end SpreadArb.Proofs.LegOuts
