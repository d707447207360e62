import SpreadArb.Interact.Trace
import SpreadArb.Proofs.Halt

namespace SpreadArb.Proofs.Levels
open Interact Machine

variable {W : Type}

/-- The limit orders placed so far, the latest one first. -/
def limitOrders (orders : List SimulatedOrder) (_ : W) : BackendOp → List SimulatedOrder
  | .placeOrder order => order :: orders
  | _ => orders

/-- What an entry comes to on a backend, and the limit orders it placed. -/
def entryOn (m : Machine backend W) (w : W) (opportunity : ArbitrageOpportunity)
    (availableCapital positionSize : ℚ) : Except EntryError PaperTrade × List SimulatedOrder :=
  let out := (m.watch limitOrders).run
      (executeAtomicEntryReal opportunity availableCapital positionSize) (w,[])
  (out.1,out.2.2)

/-- What a contract earns if both exit orders fill at their limit prices. -/
def grossProfit (trade : PaperTrade) (longExit shortExit : SimulatedOrder) : ℚ :=
  (longExit.price - trade.entryLongPrice) + (trade.entryShortPrice - shortExit.price)

def entrySpread (trade : PaperTrade) : ℚ := trade.entryShortPrice - trade.entryLongPrice

/-- The exit orders take the share of the entry spread that the exit is labelled with. -/
def CapturesLabel (trade : PaperTrade) (longExit shortExit : SimulatedOrder) : Prop :=
  grossProfit trade longExit shortExit = 9/10 * entrySpread trade

/-- The stop-loss test is true exactly if the spread has widened by three tenths. -/
def StopsAtWidening (trade : PaperTrade) : Prop :=
  ∀ p : Pass, 0 < p.longPrice → 0 < p.shortPrice →
    (stopLossHit p trade = true ↔ 13/10 * entrySpread trade ≤ p.shortPrice - p.longPrice)

/-- The levels describe the spread, if the entry comes to a trade. -/
def LevelsDescribeSpread (out : Except EntryError PaperTrade × List SimulatedOrder) : Prop :=
  ∀ trade shortExit longExit orders, out = (.ok trade,shortExit :: longExit :: orders) →
    CapturesLabel trade longExit shortExit ∧ StopsAtWidening trade

/-- The levels that the code computes. -/
structure Computed (opportunity : ArbitrageOpportunity) (trade : PaperTrade)
    (longExit shortExit : SimulatedOrder) : Prop where
  longEntry : trade.entryLongPrice = opportunity.longPrice
  shortEntry : trade.entryShortPrice = opportunity.shortPrice
  longExit : longExit.price =
    opportunity.longPrice + (opportunity.shortPrice - opportunity.longPrice) * (9/10)
  shortExit : shortExit.price =
    opportunity.shortPrice - (opportunity.shortPrice - opportunity.longPrice) * (9/10)
  longStop : trade.stopLossLongPrice =
    opportunity.shortPrice - (opportunity.shortPrice - opportunity.longPrice) * (13/10)
  shortStop : trade.stopLossShortPrice =
    opportunity.longPrice + (opportunity.shortPrice - opportunity.longPrice) * (13/10)

section Entries

variable {m : Machine backend W} {opportunity : ArbitrageOpportunity}

/-- The last two limit orders of an entry are its exit orders. -/
theorem createTrade_levels (positionSize : ℚ) (entryTime : Nat) (legs : Legs)
    (a : W × List SimulatedOrder) :
    (m.watch limitOrders).wp (fun _ _ => True) (createTrade opportunity positionSize entryTime legs)
      (fun trade b => ∃ shortExit longExit orders, b.2 = shortExit :: longExit :: orders ∧
        Computed opportunity trade longExit shortExit) a := by
  -- an id, two times and two orders
  intro _ _ _ _ _
  exact ⟨_,_,_,rfl,rfl,rfl,rfl,rfl,rfl,rfl⟩

/-- Every entry that comes to a trade has the levels of its opportunity. -/
theorem entryOn_levels (m : Machine backend W) (w : W) (opportunity : ArbitrageOpportunity)
    (availableCapital positionSize : ℚ) {trade : PaperTrade}
    (h : (entryOn m w opportunity availableCapital positionSize).1 = .ok trade) :
    ∃ shortExit longExit orders,
      entryOn m w opportunity availableCapital positionSize =
        (.ok trade,shortExit :: longExit :: orders) ∧
      Computed opportunity trade longExit shortExit := by
  have hfree : ∀ {α : Type} (x : Entry α) (a : W × List SimulatedOrder),
      (m.watch limitOrders).wp (fun _ _ => True) x (Ends (fun _ => True) (fun _ _ => True)) a := by
    intro α x a
    rw [wp_iff]
    intro _
    cases ((m.watch limitOrders).run x a).1 <;> trivial
  have hwp : (m.watch limitOrders).wp (fun _ _ => True)
      (executeAtomicEntryReal opportunity availableCapital positionSize)
      (Ends (fun _ => True) (fun trade b => ∃ shortExit longExit orders,
        b.2 = shortExit :: longExit :: orders ∧ Computed opportunity trade longExit shortExit))
        (w,[]) := by
    unfold executeAtomicEntryReal
    refine ends_bind (hfree _ _) (fun prepared a _ => ?_)
    refine ends_bind (hfree _ _) (fun placed b _ => ?_)
    refine ends_bind (hfree _ _) (fun filled c _ => ?_)
    exact wp_lift.mpr (createTrade_levels positionSize prepared.2.1 filled c)
  rw [wp_iff] at hwp
  have hends := hwp (along_true _ _)
  have hrun : ((m.watch limitOrders).run
      (executeAtomicEntryReal opportunity availableCapital positionSize) (w,[])).1 =
      .ok trade := h
  rw [hrun] at hends
  obtain ⟨shortExit,longExit,orders,horders,hlevels⟩ := hends
  exact ⟨shortExit,longExit,orders,Prod.ext h horders,hlevels⟩

end Entries

section Spread

variable {opportunity : ArbitrageOpportunity} {trade : PaperTrade}
  {longExit shortExit : SimulatedOrder}

/-- Each exit order alone takes the share of the spread that the trade is labelled with. -/
theorem Computed.grossProfit_eq (h : Computed opportunity trade longExit shortExit) :
    grossProfit trade longExit shortExit = 2 * (9/10 * entrySpread trade) := by
  simp only [grossProfit,entrySpread,h.longEntry,h.shortEntry,h.longExit,h.shortExit]
  ring

/-- The test compares each leg with its own entry price. -/
theorem Computed.stopLossHit_iff (h : Computed opportunity trade longExit shortExit) (p : Pass) :
    stopLossHit p trade = true ↔
      3/10 * entrySpread trade ≤ trade.entryLongPrice - p.longPrice ∨
      3/10 * entrySpread trade ≤ p.shortPrice - trade.entryShortPrice := by
  simp only [stopLossHit,entrySpread,h.longEntry,h.shortEntry,h.longStop,h.shortStop,
    Bool.or_eq_true,decide_eq_true_eq]
  constructor
  · rintro (hl | hs)
    · left
      linarith
    · right
      linarith
  · rintro (hl | hs)
    · left
      linarith
    · right
      linarith

/-- A pass that meets these prices. -/
def passAt (longPrice shortPrice : ℚ) : Pass := ⟨0,"","","",longPrice,shortPrice,0,none,none⟩

/-- A common rise of both prices triggers the stop-loss. -/
theorem Computed.not_stopsAtWidening (h : Computed opportunity trade longExit shortExit)
    (hl : 0 < opportunity.longPrice) (hs : opportunity.longPrice < opportunity.shortPrice) :
    ¬StopsAtWidening trade := by
  intro hstops
  have hrise := hstops (passAt (trade.entryLongPrice + 3/10 * entrySpread trade)
    (trade.entryShortPrice + 3/10 * entrySpread trade))
  rw [h.stopLossHit_iff] at hrise
  simp only [passAt,entrySpread,h.longEntry,h.shortEntry] at hrise
  have hwide := (hrise (by linarith) (by linarith)).mp (.inr (by linarith))
  linarith

/-- Whatever the backend answers: for an entry at prices `0 < L < S` the exit orders take twice the
share of the spread that the exit is labelled with, and the stop-loss test is not that of the
spread. -/
theorem levels_miss_spread (m : Machine backend W) (w : W) (opportunity : ArbitrageOpportunity)
    (availableCapital positionSize : ℚ) (hl : 0 < opportunity.longPrice)
    (hs : opportunity.longPrice < opportunity.shortPrice) (trade : PaperTrade)
    (h : (entryOn m w opportunity availableCapital positionSize).1 = .ok trade) :
    ∃ shortExit longExit orders,
      entryOn m w opportunity availableCapital positionSize =
        (.ok trade,shortExit :: longExit :: orders) ∧
      ¬CapturesLabel trade longExit shortExit ∧ ¬StopsAtWidening trade := by
  obtain ⟨shortExit,longExit,orders,hout,hlevels⟩ :=
    entryOn_levels m w opportunity availableCapital positionSize h
  refine ⟨shortExit,longExit,orders,hout,?_,hlevels.not_stopsAtWidening hl hs⟩
  intro hcaptures
  have hgross := hlevels.grossProfit_eq
  rw [hcaptures] at hgross
  simp only [entrySpread,hlevels.longEntry,hlevels.shortEntry] at hgross
  linarith

end Spread

/-- A trade of the exchanges on which both entry orders fill. -/
def pennyEntry : Except EntryError PaperTrade × List SimulatedOrder :=
  entryOn (exchanges Halt.refusedClose.exchanges) .empty (Halt.penny "BTCUSDT") 1010 101

theorem pennyEntry_trade : ∃ trade, pennyEntry.1 = .ok trade := by
  have hok : pennyEntry.1.isOk = true := by decide +kernel
  cases h : pennyEntry.1 with
  | error e =>
    rw [h] at hok
    cases hok
  | ok trade => exact ⟨trade,rfl⟩

theorem penny_levels_miss :
    ∃ trade, pennyEntry.1 = .ok trade ∧ ∃ shortExit longExit orders,
      pennyEntry = (.ok trade,shortExit :: longExit :: orders) ∧
      ¬CapturesLabel trade longExit shortExit ∧ ¬StopsAtWidening trade := by
  obtain ⟨trade,h⟩ := pennyEntry_trade
  exact ⟨trade,h,levels_miss_spread (exchanges Halt.refusedClose.exchanges) .empty
    (Halt.penny "BTCUSDT") 1010 101 (by decide +kernel) (by decide +kernel) trade h⟩

/-- Bought at 50 and sold at 51 hundredths, the exit orders earn 1.8 hundredths, and at 60 and 61
hundredths the stop-loss is hit. -/
theorem penny_levels : ¬LevelsDescribeSpread pennyEntry := by
  intro h
  obtain ⟨trade,htrade⟩ := pennyEntry_trade
  obtain ⟨shortExit,longExit,orders,hout,hlevels⟩ :=
    entryOn_levels (exchanges Halt.refusedClose.exchanges) .empty
    (Halt.penny "BTCUSDT") 1010 101 htrade
  obtain ⟨hcaptures,hstops⟩ := h trade shortExit longExit orders hout
  have hcommon := hstops (passAt (60/100) (61/100)) (by norm_num [passAt]) (by norm_num [passAt])
  rw [hlevels.stopLossHit_iff] at hcommon
  simp only [entrySpread,hlevels.longEntry,hlevels.shortEntry,passAt,Halt.penny] at hcommon
  norm_num at hcommon

end SpreadArb.Proofs.Levels
