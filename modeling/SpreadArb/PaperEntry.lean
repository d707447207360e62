import SpreadArb.Entry

namespace SpreadArb
open Interact Backend

/-- The liquidity tiers by lower-cased name; a lower number is more liquid. -/
def tierOf : String → Nat
  | "binance" | "bybit" | "okx" | "deribit" => 1
  | "bitget" | "kucoin" | "gate" | "gateio" | "gate.io" => 2
  | _ => 3

/-- Liquidity tier of an exchange. -/
def getExchangeTier (exchange : String) : Nat := tierOf exchange.toLower

/-- The leg on the less liquid exchange; between equals, the first one by name. `lower` stands for
`to_lowercase`. -/
def harderLegBy (lower : String → String) (longExchange shortExchange : String) : OrderSide :=
  let longTier := tierOf (lower longExchange)
  let shortTier := tierOf (lower shortExchange)
  if longTier > shortTier then .long
  else if shortTier > longTier then .short
  else if lower longExchange < lower shortExchange then .long
  else if lower shortExchange < lower longExchange then .short
  else .long

/-- `identify_harder_leg` for the names of exchanges, which are ASCII. -/
def identifyHarderLeg (longExchange shortExchange : String) : OrderSide :=
  harderLegBy String.toLower longExchange shortExchange

/-- `EntryExecutor::create_limit_order`. The id is a UUID and names no order of an exchange. -/
def createLimitOrder (exchange symbol : String) (side : OrderSide) (price size restingDepth : ℚ) :
    Prog backend SimulatedOrder := do
  let secs ← nowSecs
  let id ← newUuid
  pure {
    id, exchange, symbol, side, price, size
    orderType := .limit
    queuePosition := some ⟨price,0,restingDepth,2/10,false⟩
    createdAt := secs
    filledAt := none
    fillPrice := none
    status := .pending }

/-- `EntryExecutor::simulate_order_fill`: the order as it is left, which is filled or not. -/
def simulateOrderFill (order : SimulatedOrder) (cumulativeVolume : ℚ) :
    Prog backend (Bool × SimulatedOrder) :=
  match order.queuePosition with
  | none => pure (false,order)
  | some queue =>
    let queue := { queue with cumulativeVolumeAtPrice := cumulativeVolume }
    if cumulativeVolume ≥ queue.restingDepthAtEntry * queue.fillThresholdPct then do
      let secs ← nowSecs
      pure (true,{ order with
        queuePosition := some { queue with isFilled := true }
        status := .filled
        fillPrice := some queue.price
        filledAt := some secs })
    else pure (false,{ order with queuePosition := some queue })

def ArbitrageOpportunity.depth (o : ArbitrageOpportunity) : OrderSide → ℚ
  | .long => o.orderBookDepthLong
  | .short => o.orderBookDepthShort

/-- The two simulated fills, the harder leg first. Its volume is always a share of the long
depth. -/
def simulateLegs (opportunity : ArbitrageOpportunity) (longOrder shortOrder : SimulatedOrder) :
    Entry (SimulatedOrder × SimulatedOrder) := do
  let side := identifyHarderLeg opportunity.longExchange opportunity.shortExchange
  let (harder,easier) := match side with
    | .long => (longOrder,shortOrder)
    | .short => (shortOrder,longOrder)
  let (harderFilled,harder) ← simulateOrderFill harder (opportunity.orderBookDepthLong * (25/100))
  failWhen (!harderFilled) (.harderLegUnfilled harder.side harder.exchange)
  let (easierFilled,easier) ← simulateOrderFill easier (opportunity.depth easier.side * (30/100))
  failWhen (!easierFilled) (.easierLegUnfilled easier.side easier.exchange)
  match side with
  | .long => pure (harder,easier)
  | .short => pure (easier,harder)

/-- `EntryExecutor::execute_atomic_entry`, the entry of paper trading. -/
def executeAtomicEntry (opportunity : ArbitrageOpportunity) (availableCapital positionSize : ℚ) :
    Entry PaperTrade := do
  failWhen (positionSize ≤ 0) .sizeNotPositive
  failWhen (positionSize > availableCapital) (.exceedsCapital positionSize availableCapital)
  let secs ← nowSecs
  let longOrder ← createLimitOrder opportunity.longExchange opportunity.symbol .long
    opportunity.longPrice positionSize opportunity.orderBookDepthLong
  let shortOrder ← createLimitOrder opportunity.shortExchange opportunity.symbol .short
    opportunity.shortPrice positionSize opportunity.orderBookDepthShort
  let (longOrder,shortOrder) ← simulateLegs opportunity longOrder shortOrder
  let id ← newUuid
  pure {
    id, longOrder, shortOrder
    symbol := opportunity.symbol
    longExchange := opportunity.longExchange
    shortExchange := opportunity.shortExchange
    entryTime := secs
    entryLongPrice := opportunity.longPrice
    entryShortPrice := opportunity.shortPrice
    entrySpreadBps := spreadBps opportunity.longPrice opportunity.shortPrice
    positionSizeUsd := positionSize
    fundingDeltaEntry := opportunity.fundingDelta8h
    projectedProfitUsd := opportunity.projectedProfitAfterSlippage
    actualProfitUsd := 0
    status := .active
    exitReason := none
    exitSpreadBps := none
    exitTime := none
    longExitOrder := none
    shortExitOrder := none
    stopLossTriggered := false
    stopLossLongPrice := 0
    stopLossShortPrice := 0
    legOutEvent := none }

end SpreadArb
