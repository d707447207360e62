import SpreadArb.Monitor

namespace SpreadArb
open Interact

/-- Cancel an exit order during the clean-up, unless it is known to be cancelled. -/
def cleanupExit (id : TradeId) (exchange : String) : Option SimulatedOrder → Run Unit
  | some order => do
    if order.status ≠ .cancelled then
      let _ ← backendCall (.cleanup id) (.cancelOrder exchange order.id)
      pure ()
    else pure ()
  | none => pure ()

/-- The profit that is booked for an exiting trade. -/
def actualProfit (trade : PaperTrade) : ℚ :=
  let spreadReduction := trade.entrySpreadBps - trade.exitSpreadBps.getD 0
  let totalFee := getExchangeTakerFee trade.longExchange + getExchangeTakerFee trade.shortExchange
  (spreadReduction - totalFee) / 10000 * trade.positionSizeUsd

/-- Close an exiting trade. The `Ref` to it is held from here to the end, across the awaits
and the removal. -/
def closeExiting (id : TradeId) (symbol : String) : Run (Except PortfolioError Unit) := do
  match ← holdTrade id with
  | none => pure (.ok ())
  | some trade =>
    let _ ← cleanupExit id trade.longExchange trade.longExitOrder
    let _ ← cleanupExit id trade.shortExchange trade.shortExitOrder
    match ← Prog.call (σ := runnerSig)
        (.closeTrade id (actualProfit trade) (trade.exitReason.getD .manualExit)) .ret with
    | .error e =>
      let _ ← releaseTrade id
      pure (.error e)
    | .ok _ =>
      let _ ← Prog.call (σ := runnerSig) (.trackerMut symbol NegativeFundingTracker.reset) .ret
      let _ ← removeTrade id
      let _ ← releaseTrade id
      pure (.ok ())

/-- The negative funding exit. Without funding rates the trade is skipped. -/
def checkNegativeFunding (id : TradeId) (symbol : String) : Run Bool := do
  let tracker ← Prog.call (σ := runnerSig) (.tracker symbol) .ret
  match tracker.map NegativeFundingTracker.shouldExit with
  | some true =>
    match ← Prog.call (σ := runnerSig) (.getFundingRates symbol) .ret with
    | none => pure false
    | some (long,short) =>
      let _ ← Prog.call (σ := runnerSig)
          (.trackerMut symbol (fun t => t.updateFunding (long - short))) .ret
      let _ ← getMutTrade id (fun t =>
        { t with exitReason := some .negativeFundingExit, status := .exiting })
      pure true
  | _ => pure true

/-- The exit check of one trade. -/
def checkExit (id : TradeId) : Run (Except PortfolioError Unit) := do
  match ← getTrade id with
  | none => pure (.ok ())
  | some trade =>
    if ← checkNegativeFunding id trade.symbol then
      -- the `Ref` of a trade that is not exiting is dropped at once
      match ← getTrade id with
      | none => pure (.ok ())
      | some found =>
        if found.status = .exiting then closeExiting id trade.symbol else pure (.ok ())
    else pure (.ok ())

def checkExitsOf : List TradeId → Run (Except PortfolioError Unit)
  | [] => pure (.ok ())
  | id :: ids => do
    match ← checkExit id with
    | .error e => pure (.error e)
    | .ok _ => checkExitsOf ids

/-- `StrategyRunner::check_exits`. -/
def checkExits : Run (Except PortfolioError Unit) := do
  let ids ← tradeIds
  checkExitsOf ids

/-- `EntryExecutor::calculate_position_size`. -/
def calculatePositionSize (availableCapital startingCapital : ℚ) : ℚ :=
  let positionSize := min (startingCapital * (1/10)) availableCapital
  if positionSize < 10 then 0 else positionSize

def defaultOrder : SimulatedOrder :=
  ⟨0,"","",.long,.limit,0,0,none,0,none,none,.pending⟩

/-- The trade that reserves a symbol while the entry is under way. -/
def placeholderTrade (id : TradeId) (opportunity : ArbitrageOpportunity) : PaperTrade where
  id := id
  symbol := opportunity.symbol
  longExchange := opportunity.longExchange
  shortExchange := opportunity.shortExchange
  entryTime := 0
  entryLongPrice := 0
  entryShortPrice := 0
  entrySpreadBps := 0
  positionSizeUsd := 0
  fundingDeltaEntry := 0
  projectedProfitUsd := 0
  actualProfitUsd := 0
  status := .active
  exitReason := some .placeholder
  exitSpreadBps := none
  exitTime := none
  longOrder := defaultOrder
  shortOrder := defaultOrder
  longExitOrder := none
  shortExitOrder := none
  stopLossTriggered := false
  stopLossLongPrice := 0
  stopLossShortPrice := 0
  legOutEvent := none

/-- A trade of the symbol that is active or exiting. -/
def occupies (symbol : String) (t : PaperTrade) : Bool :=
  t.symbol = symbol && (t.status = .active || t.status = .exiting)

/-- The entry with its result put into the map and the portfolio. -/
def enterTrade (opportunity : ArbitrageOpportunity) (placeholder : TradeId)
    (availableCapital positionSize spread totalFee : ℚ) : Run Unit := do
  let real ← isRealTrading
  let entry := if real then executeAtomicEntryReal opportunity availableCapital positionSize
    else executeAtomicEntry opportunity availableCapital positionSize
  match ← onBackend .entry entry.run with
  | .error _ => removeTrade placeholder
  | .ok trade =>
    let trade := { trade with
      projectedProfitUsd := (spread * (9/10) - totalFee) / 10000 * positionSize }
    let _ ← removeTrade placeholder
    let _ ← insertTrade trade
    let _ ← Prog.call (σ := runnerSig) (.openTrade trade) .ret
    pure ()

/-- The checks between the placeholder and the entry. -/
def enterIfSound (opportunity : ArbitrageOpportunity) (placeholder : TradeId) : Run Unit := do
  match ← getPricesFromStore opportunity.symbol opportunity.longExchange
    opportunity.shortExchange with
  | .error _ => removeTrade placeholder
  | .ok (longPrice,shortPrice) =>
    let spread := calculateSpreadBps longPrice shortPrice
    let totalFee := getExchangeTakerFee opportunity.longExchange +
      getExchangeTakerFee opportunity.shortExchange
    if spread ≤ 0 || spread - totalFee ≤ 0 then removeTrade placeholder
    else
      let availableCapital ← Prog.call (σ := runnerSig) .getAvailableCapital .ret
      if availableCapital ≤ 0 then removeTrade placeholder
      else
        let startingCapital ← Prog.call (σ := runnerSig) .getStartingCapital .ret
        let positionSize := calculatePositionSize availableCapital startingCapital
        if positionSize ≤ 0 || positionSize > availableCapital then removeTrade placeholder
        else enterTrade opportunity placeholder availableCapital positionSize spread totalFee

/-- `StrategyRunner::execute_opportunity`. -/
def executeOpportunity (opportunity : ArbitrageOpportunity) : Run Unit := do
  match ← findTrade (occupies opportunity.symbol) with
  | some _ => pure ()
  | none =>
    let placeholder ← backendCall .entry .newUuid
    let _ ← insertTrade (placeholderTrade placeholder opportunity)
    enterIfSound opportunity placeholder

/-- What one turn of the loop meets: an operator who resumes trading before it, an
opportunity in the queue, and how the two monitoring futures take turns. -/
structure Input where
  resume : Bool := false
  opportunity : Option ArbitrageOpportunity := none
  schedule : Nat → Bool := fun _ => true

/-- The two monitoring futures of one turn, polled by one task. -/
def joinMonitors (schedule : Nat → Bool) :
    Run (Except PriceError Unit × Except PortfolioError Unit) :=
  monitorActivePositions.join RunnerOp.awaits schedule checkExits none 0

/-- One turn of the scanning loop. -/
def scanOnce (input : Input) : Run Unit := do
  if input.resume then Prog.call (σ := runnerSig) .resumeTrading .ret else pure ()
  match input.opportunity with
  | some opportunity => executeOpportunity opportunity
  | none => pure ()
  -- 100 microseconds, below the resolution of the clock
  let _ ← backendCall .entry (.sleep 0)
  let _ ← joinMonitors input.schedule
  pure ()

/-- `StrategyRunner::run_scanning_loop` for this many turns. -/
def runScanningLoop (inputs : Nat → Input) : Nat → Run Unit
  | 0 => pure ()
  | n+1 => do
    let _ ← runScanningLoop inputs n
    scanOnce (inputs n)

end SpreadArb
