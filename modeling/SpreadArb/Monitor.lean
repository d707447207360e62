import SpreadArb.Runner

namespace SpreadArb
open Interact

/-- What a monitor pass over a real trade knows when it looks at the exit orders. -/
structure Pass where
  trade : TradeId
  symbol : String
  longExchange : String
  shortExchange : String
  longPrice : ℚ
  shortPrice : ℚ
  spreadBps : ℚ
  longExit : Option OrderId
  shortExit : Option OrderId

namespace Pass

def exchange (p : Pass) : OrderSide → String
  | .long => p.longExchange
  | .short => p.shortExchange

def price (p : Pass) : OrderSide → ℚ
  | .long => p.longPrice
  | .short => p.shortPrice

def exit (p : Pass) : OrderSide → Option OrderId
  | .long => p.longExit
  | .short => p.shortExit

/-- An order that closes the leg on `leg`. -/
def closeOrder (p : Pass) (leg : OrderSide) (orderType : OrderType) (price size : ℚ) (secs : Nat) :
    SimulatedOrder :=
  ⟨0,p.exchange leg,p.symbol,leg.opposite,orderType,price,size,none,secs,none,none,.pending⟩

end Pass

section Requests

variable (branch : Branch) (p : Pass)

def passCall (op : BackendOp) : Run (BackendOp.Ans op) := backendCall (.monitor p.trade branch) op

def passSecs : Run Nat := onBackend (.monitor p.trade branch) nowSecs

/-- Is the exit order of this leg filled? A failed query counts as no. -/
def exitFilled (leg : OrderSide) : Run Bool :=
  match p.exit leg with
  | none => pure false
  | some id => do
    match ← passCall branch p (.getOrderStatus (p.exchange leg) id) with
    | .ok .filled => pure true
    | _ => pure false

/-- Cancel the exit order of this leg and read what it had filled. -/
def cancelAndRead (leg : OrderSide) : Run ℚ :=
  match p.exit leg with
  | none => pure 0
  | some id => do
    let _ ← passCall branch p (.cancelOrder (p.exchange leg) id)
    let status ← passCall branch p (.getOrderStatusDetailed (p.exchange leg) id p.symbol)
    pure (reportedFill status)

/-- The best price at which the leg can be closed at once. -/
def bestClosePrice (leg : OrderSide) : Run (Except String ℚ) :=
  onBackend (.monitor p.trade branch) (getBestHedgePrice leg.opposite (p.exchange leg) p.symbol)

/-- An aggressive limit order for what is left of the leg. What it is seen to have filled is
added to `filled`; then it is cancelled. -/
def tryLimit (leg : OrderSide) (remaining filled : ℚ) : Run ℚ := do
  match ← bestClosePrice branch p leg with
  | .error _ => pure filled
  | .ok best =>
    let secs ← passSecs branch p
    match ← passCall branch p (.placeOrder (p.closeOrder leg .limit best remaining secs)) with
    | .error _ => pure filled
    | .ok placedOrder =>
      let _ ← passCall branch p (.sleep 2000)
      let status ← passCall branch p
        (.getOrderStatusDetailed (p.exchange leg) placedOrder.id p.symbol)
      let _ ← passCall branch p (.cancelOrder (p.exchange leg) placedOrder.id)
      pure (filled + reportedFill status)

/-- A market order for `size` of the leg. -/
def marketClose (leg : OrderSide) (size : ℚ) : Run (Except String SimulatedOrder) := do
  let secs ← passSecs branch p
  passCall branch p (.placeMarketOrder (p.closeOrder leg .market (p.price leg) size secs))

end Requests

def markExiting (p : Pass) (reason : ExitReason) : Run Unit :=
  getMutTrade p.trade (fun t =>
    { t with status := .exiting, exitReason := some reason, exitSpreadBps := some p.spreadBps })

/-- Remainders up to this size are not closed at market. -/
def dust : ℚ := 1/1000

def exitTimeoutSeconds : Nat := 3

/-- The age of an exit order in the eyes of the monitor. -/
def exitAge (now : Nat) : Option SimulatedOrder → Nat
  | some o => now - o.createdAt
  | none => 0

/-- Close the rest of a leg at market; a refused order is only logged. -/
def closeRest (branch : Branch) (p : Pass) (leg : OrderSide) (remaining : ℚ) : Run Unit := do
  if remaining > dust then
    let _ ← marketClose branch p leg remaining
    pure ()
  else pure ()

/-- The limit order of the timeout branch, unless only dust is left. -/
def timeoutLimit (p : Pass) (leg : OrderSide) (quantity filled : ℚ) : Run ℚ :=
  if quantity - filled > dust then tryLimit .timeout p leg (quantity - filled) filled
  else pure filled

/-- The timeout branch once the sizes of the position are known. -/
def forceClose (p : Pass) (longQuantity shortQuantity : ℚ) : Run Unit := do
  let longFilled ← cancelAndRead .timeout p .long
  let shortFilled ← cancelAndRead .timeout p .short
  let longFilled ← timeoutLimit p .long longQuantity longFilled
  let shortFilled ← timeoutLimit p .short shortQuantity shortFilled
  let _ ← closeRest .timeout p .long (longQuantity - longFilled)
  let _ ← closeRest .timeout p .short (shortQuantity - shortFilled)
  markExiting p (.exitTimeout exitTimeoutSeconds)

/-- The price of the smart limit order: the third level of the book, or the last one
there is. Zero says that there is none. -/
def aggressivePrice (levels : List PriceLevel) : ℚ :=
  match levels with
  | _ :: _ :: third :: _ => third.price
  | [_,second] => second.price
  | [best] => best.price
  | [] => 0

/-- The smart limit order after a long exit. It answers `none` when it has completed the
hedge, and else what is hedged so far. -/
def smartLimit (p : Pass) (price remaining totalFilled : ℚ) : Run (Option ℚ) := do
  let secs ← passSecs .longExitFilled p
  match ← passCall .longExitFilled p
      (.placeOrder (p.closeOrder .short .limit price remaining secs)) with
  | .error _ => pure (some totalFilled)
  | .ok placedOrder =>
    let _ ← passCall .longExitFilled p (.sleep 200)
    match ← passCall .longExitFilled p
        (.getOrderStatusDetailed p.shortExchange placedOrder.id p.symbol) with
    | .ok info =>
      if info.filledQuantity ≥ remaining then
        let _ ← markExiting p .hedgedSmartLimit
        pure none
      else
        let _ ← passCall .longExitFilled p (.cancelOrder p.shortExchange placedOrder.id)
        pure (some (totalFilled + info.filledQuantity))
    | .error _ =>
      let _ ← passCall .longExitFilled p (.cancelOrder p.shortExchange placedOrder.id)
      pure (some totalFilled)

/-- The end of the branch: the rest at market. -/
def hedgeRest (p : Pass) (shortQuantity totalFilled : ℚ) : Run Unit := do
  if totalFilled ≥ shortQuantity then markExiting p .hedgedLimitPartialFill
  else
    match ← marketClose .longExitFilled p .short (shortQuantity - totalFilled) with
    | .ok _ => markExiting p .hedgedMarketOrder
    | .error _ => pure ()

/-- The branch after the long exit filled and the short one did not. -/
def hedgeShortExit (p : Pass) : Run Unit := do
  let _ ← getMutTrade p.trade (fun t => { t with status := .exiting })
  match ← getTrade p.trade with
  | none => pure ()
  | some trade =>
    let shortQuantity := trade.shortOrder.size
    let totalFilled ← cancelAndRead .longExitFilled p .short
    if totalFilled ≥ shortQuantity then markExiting p .hedgedCancelledOrderFilled
    else
      let remaining := shortQuantity - totalFilled
      match ← passCall .longExitFilled p (.getOrderBookDepth p.shortExchange p.symbol 5) with
      | .error _ => hedgeRest p shortQuantity totalFilled
      | .ok book =>
        if aggressivePrice book.asks > 0 then
          match ← smartLimit p (aggressivePrice book.asks) remaining totalFilled with
          | none => pure ()
          | some totalFilled => hedgeRest p shortQuantity totalFilled
        else hedgeRest p shortQuantity totalFilled

/-- The market order for the whole long position. -/
def instantHedge (p : Pass) (longQuantity : ℚ) : Run Unit := do
  match ← marketClose .shortExitFilled p .long longQuantity with
  | .ok _ => markExiting p .hedgedInstantMarket
  | .error _ => pure ()

/-- The limit order of the estimator, and what follows from its status. -/
def intelligentLimit (p : Pass) (price longQuantity : ℚ) (waitTimeMs : Nat) : Run Unit := do
  let secs ← passSecs .shortExitFilled p
  match ← passCall .shortExitFilled p
      (.placeOrder (p.closeOrder .long .limit price longQuantity secs)) with
  | .error _ => instantHedge p longQuantity
  | .ok placedOrder =>
    let _ ← passCall .shortExitFilled p (.sleep waitTimeMs)
    match ← passCall .shortExitFilled p
        (.getOrderStatusDetailed p.longExchange placedOrder.id p.symbol) with
    | .ok info =>
      if info.isFullyFilled then markExiting p .hedgedSmartLimit
      else if info.filledQuantity > 0 then
        let _ ← passCall .shortExitFilled p (.cancelOrder p.longExchange placedOrder.id)
        let _ ← marketClose .shortExitFilled p .long (longQuantity - info.filledQuantity)
        markExiting p .hedgedLimitPartialAndMarket
      else
        let _ ← passCall .shortExitFilled p (.cancelOrder p.longExchange placedOrder.id)
        instantHedge p longQuantity
    | .error _ =>
      let _ ← passCall .shortExitFilled p (.cancelOrder p.longExchange placedOrder.id)
      instantHedge p longQuantity

/-- The price at the level the estimator chose, or the best one. -/
def levelPrice (levels : List PriceLevel) (level : Nat) : ℚ :=
  match levels[level]?, levels with
  | some l, _ => l.price
  | none, best :: _ => best.price
  | none, [] => 0

/-- Cancel the long exit order without looking at what it had filled. -/
def cancelLongExit (p : Pass) : Run Unit :=
  match p.longExit with
  | none => pure ()
  | some id => do
    let _ ← passCall .shortExitFilled p (.cancelOrder p.longExchange id)
    pure ()

/-- The branch after the short exit filled and the long one did not. It closes the whole
long position, whatever the cancelled exit order had filled. -/
def hedgeLongExit (p : Pass) : Run Unit := do
  let _ ← getMutTrade p.trade (fun t => { t with status := .exiting })
  match ← getTrade p.trade with
  | none => pure ()
  | some trade =>
    let longQuantity := trade.longOrder.size
    let _ ← cancelLongExit p
    match ← passCall .shortExitFilled p (.getOrderBookDepth p.longExchange p.symbol 5) with
    | .ok book =>
      let decision := shouldTryLimit book .short (longQuantity * p.longPrice)
      if decision.useLimit then
        intelligentLimit p (levelPrice book.bids decision.priceLevel) longQuantity
          decision.waitTimeMs
      else instantHedge p longQuantity
    | .error _ =>
      let _ ← marketClose .shortExitFilled p .long longQuantity
      markExiting p .hedgedNoOrderBook

/-- The limit order of the stop-loss branch, unless the leg is closed. -/
def stopLossLimit (p : Pass) (leg : OrderSide) (quantity filled : ℚ) : Run ℚ :=
  if filled < quantity then tryLimit .stopLoss p leg (quantity - filled) filled else pure filled

/-- The stop-loss branch after the cancels: limits first, then market orders. -/
def stopLossClose (p : Pass) (longQuantity shortQuantity longFilled shortFilled : ℚ) :
    Run Unit := do
  if longFilled ≥ longQuantity && shortFilled ≥ shortQuantity then pure ()
  else
    let longFilled ← stopLossLimit p .long longQuantity longFilled
    let shortFilled ← stopLossLimit p .short shortQuantity shortFilled
    if longFilled ≥ longQuantity && shortFilled ≥ shortQuantity then pure ()
    else
      let _ ← closeRest .stopLoss p .long (longQuantity - longFilled)
      closeRest .stopLoss p .short (shortQuantity - shortFilled)

def stopLossHit (p : Pass) (trade : PaperTrade) : Bool :=
  p.longPrice ≤ trade.stopLossLongPrice || p.shortPrice ≥ trade.stopLossShortPrice

/-- The stop-loss branch. -/
def stopLossExit (p : Pass) : Run Unit := do
  match ← getTrade p.trade with
  | none => pure ()
  | some trade =>
    let longFilled ← cancelAndRead .stopLoss p .long
    let shortFilled ← cancelAndRead .stopLoss p .short
    let _ ← getMutTrade p.trade (fun t =>
      { t with
        stopLossTriggered := true
        status := .exiting
        exitReason := some (.stopLossTriggered p.longPrice p.shortPrice)
        exitSpreadBps := some p.spreadBps })
    stopLossClose p trade.longOrder.size trade.shortOrder.size longFilled shortFilled

/-- How the exit orders stand in time when neither is filled. -/
inductive ExitClock where
  | gone
  | young
  | timedOut (trade : PaperTrade)

/-- Both exit orders are past the timeout. -/
def pastTimeout (now : Nat) (trade : PaperTrade) : Bool :=
  exitAge now trade.longExitOrder > exitTimeoutSeconds &&
    exitAge now trade.shortExitOrder > exitTimeoutSeconds

/-- The timeout check. -/
def checkTimeout (p : Pass) : Run ExitClock := do
  let now ← passSecs .checks p
  match ← getTrade p.trade with
  | none => pure .gone
  | some trade =>
    if pastTimeout now trade then
      match ← getTrade p.trade with
      | none => pure .gone
      | some trade => pure (.timedOut trade)
    else pure .young

/-- The real monitoring of a trade whose first read gave `info`. -/
def monitorReal (info : PaperTrade) (p : Pass) : Run Unit := do
  let longFilled ← exitFilled .checks p .long
  let shortFilled ← exitFilled .checks p .short
  match longFilled, shortFilled with
  | true, true => markExiting p .exitOrdersFilled
  | true, false => hedgeShortExit p
  | false, true => hedgeLongExit p
  | false, false =>
    match ← checkTimeout p with
    | .gone => pure ()
    | .timedOut trade => forceClose p trade.longOrder.size trade.shortOrder.size
    | .young => if !info.stopLossTriggered && stopLossHit p info then stopLossExit p else pure ()

section Paper

/-- Leave for this reason. -/
def exitFor (reason : ExitReason) (exitSpread : ℚ) (t : PaperTrade) : PaperTrade :=
  { t with status := .exiting, exitReason := some reason, exitSpreadBps := some exitSpread }

/-- Leave for this reason unless there is one already. -/
def exitOnce (condition : Bool) (reason : ExitReason) (exitSpread : ℚ) (t : PaperTrade) :
    PaperTrade :=
  if condition && t.exitReason.isNone then exitFor reason exitSpread t else t

/-- `PositionManager::detect_leg_out`. -/
def detectLegOut (longFilled shortFilled : Bool) (timeSinceEntryMs : Nat) : Bool :=
  (longFilled && !shortFilled || !longFilled && shortFilled) && timeSinceEntryMs > 500

/-- Record a leg-out once. -/
def noteLegOut (ms : Nat) (longPrice shortPrice : ℚ) (t : PaperTrade) : PaperTrade :=
  let longFilled : Bool := t.longOrder.status = .filled
  let shortFilled : Bool := t.shortOrder.status = .filled
  if detectLegOut longFilled shortFilled (ms - t.entryTime * 1000) && t.legOutEvent.isNone then
    { t with
      legOutEvent := some
        { filledLeg := if longFilled then .long else .short
          filledAt := t.longOrder.filledAt.getD 0
          unfilledLeg := if longFilled then .short else .long
          hedgeExecuted := true
          hedgePrice := max longPrice shortPrice } }
  else t

/-- The exit conditions of the paper logic, for a trade first read as `info`. -/
def paperExit (info : PaperTrade) (ms : Nat) (longPrice shortPrice fundingDelta : ℚ)
    (t : PaperTrade) : PaperTrade :=
  let current := calculateSpreadBps longPrice shortPrice
  let entry := info.entrySpreadBps
  let reduction := entry - current
  let pnl := reduction / 10000 * info.positionSizeUsd
  let projected := info.projectedProfitUsd
  let t := if reduction / entry * 100 ≥ 90 && entry > 0 && current > 0 then
    exitFor (.profitHit entry current reduction) current t else t
  let t := exitOnce (pnl ≤ projected * (-2/10) && projected > 0) (.stopLoss entry current) current t
  let t := exitOnce (pnl ≤ -max (projected * (5/10)) 5) (.stopLoss entry current) current t
  let t := exitOnce (current > entry * (13/10)) (.stopLoss entry current) current t
  -- the live funding delta is the one of the entry
  let t := exitOnce (|fundingDelta| > 1/10000 && |fundingDelta| < |fundingDelta| * (2/10))
    .fundingConvergence current t
  let t := exitOnce (|fundingDelta| < 5/100000) .fundingConvergence current t
  noteLegOut ms longPrice shortPrice t

/-- The paper logic, which a real trade without both exit orders goes through too. -/
def monitorPaper (id : TradeId) (info : PaperTrade) : Run (Except PriceError Unit) := do
  match ← getCurrentPrices info.symbol with
  | .error e => pure (.error e)
  | .ok (longPrice,shortPrice) =>
    let fundingDelta := match ← getTrade id with
      | some trade => trade.fundingDeltaEntry
      | none => 0
    let ms ← backendCall (.monitor id .checks) .now
    let _ ← getMutTrade id (paperExit info ms longPrice shortPrice fundingDelta)
    pure (.ok ())

end Paper

/-- What a pass knows from its first read of the trade and from its read of the exit orders. -/
def passOver (id : TradeId) (info trade : PaperTrade) (longPrice shortPrice : ℚ) : Pass where
  trade := id
  symbol := info.symbol
  longExchange := info.longExchange
  shortExchange := info.shortExchange
  longPrice := longPrice
  shortPrice := shortPrice
  spreadBps := calculateSpreadBps longPrice shortPrice
  longExit := trade.longExitOrder.map SimulatedOrder.id
  shortExit := trade.shortExitOrder.map SimulatedOrder.id

/-- A pass over one trade. -/
def monitorTrade (real : Bool) (id : TradeId) : Run (Except PriceError Unit) := do
  match ← getTrade id with
  | none => pure (.ok ())
  | some info =>
    match ← getCurrentPrices info.symbol with
    | .error _ => pure (.ok ())
    | .ok (longPrice,shortPrice) =>
      if real && (info.longExitOrder.isSome && info.shortExitOrder.isSome) then
        match ← getTrade id with
        | none => pure (.ok ())
        | some trade =>
          let _ ← monitorReal info (passOver id info trade longPrice shortPrice)
          pure (.ok ())
      else monitorPaper id info

/-- The turn of one trade in the round of the monitor. -/
def monitorPass (real : Bool) (id : TradeId) : Run (Except PriceError Unit) := do
  let _ ← Prog.call (σ := runnerSig) (.monitoring (some id)) .ret
  let result ← monitorTrade real id
  let _ ← Prog.call (σ := runnerSig) (.monitoring none) .ret
  pure result

/-- The passes over these trades; an error ends the round. -/
def monitorTrades (real : Bool) : List TradeId → Run (Except PriceError Unit)
  | [] => pure (.ok ())
  | id :: ids => do
    match ← monitorPass real id with
    | .error e => pure (.error e)
    | .ok _ => monitorTrades real ids

/-- `StrategyRunner::monitor_active_positions`. -/
def monitorActivePositions : Run (Except PriceError Unit) := do
  let ids ← tradeIds
  let real ← isRealTrading
  monitorTrades real ids

end SpreadArb
