import SpreadArb.Retry
import SpreadArb.DepthChecker
import SpreadArb.PriceChaser

namespace SpreadArb
open Interact Backend

/-- Why `execute_atomic_entry_real` returns `Err`, with the values its texts show. -/
inductive EntryError where
  | halted
  | sizeNotPositive
  | exceedsCapital (positionSize availableCapital : ℚ)
  | quantityTooSmall
  | balanceQuery (exchange : String) (e : String)
  | insufficientBalance (exchange : String) (balance required : ℚ)
  | depthQuery (leg : OrderSide) (e : String)
  | insufficientDepth (long short : ℚ)
  | placement (leg : OrderSide) (e : String)
  | hedgeLock (e : String)
  | hedgeDepth (leg : OrderSide) (depthRatio : ℚ)
  | closeFailed (e : String)
  | hedgeFailed (filled : OrderSide) (e : MarketOrderError)
  | hedgeAndCloseFailed (filled : OrderSide) (e : MarketOrderError) (closeErr : String)
  | spreadCollapsed (initial current : ℚ)
  | maxReprices (leg : OrderSide) (reprices : Nat)
  | neitherFilled
  | oneLegUnhedged
  | harderLegUnfilled (leg : OrderSide) (exchange : String)
  | easierLegUnfilled (leg : OrderSide) (exchange : String)

abbrev Entry := ExceptT EntryError (Prog backend)

/-- Return `Err` when the condition holds. -/
def failWhen (condition : Bool) (e : EntryError) : Entry Unit :=
  if condition then throw e else pure ()

/-- `SystemTime::now()` in seconds. -/
def nowSecs : Prog backend Nat := do
  let ms ← now
  pure (ms / 1000)

structure Leg where
  order : SimulatedOrder
  filled : Bool
  repriceCount : Nat
  metrics : RepricingMetrics

/-- A leg whose limit order has just been placed. -/
def Leg.new (order : SimulatedOrder) : Leg := ⟨order,false,0,.new order.price⟩

/-- A leg found filled at `secs` with `quantity`. -/
def Leg.fill (leg : Leg) (secs : Nat) (quantity : ℚ) : Leg :=
  { leg with
    filled := true
    order := { leg.order with
      status := .filled
      filledAt := some secs
      fillPrice := some leg.order.price
      size := quantity } }

def Leg.resize (leg : Leg) (size : ℚ) : Leg := { leg with order := { leg.order with size } }

/-- The variables of the polling loop: both legs and the depth checker's cache. -/
structure Legs where
  long : Leg
  short : Leg
  cache : DepthCache

namespace Legs

def leg (l : Legs) : OrderSide → Leg
  | .long => l.long
  | .short => l.short

def set (l : Legs) (s : OrderSide) (leg : Leg) : Legs :=
  match s with
  | .long => { l with long := leg }
  | .short => { l with short := leg }

def bothFilled (l : Legs) : Bool := l.long.filled && l.short.filled

def neitherFilled (l : Legs) : Bool := !l.long.filled && !l.short.filled

end Legs

/-- How a turn of the polling loop goes on: with its next statement, with
`continue` or with `break`. -/
inductive Flow where
  | next (legs : Legs)
  | again (legs : Legs)
  | stop (legs : Legs)

section Templates

variable (opportunity : ArbitrageOpportunity)

def limitTemplate (side : OrderSide) (size : ℚ) (secs : Nat) : SimulatedOrder :=
  ⟨0,opportunity.exchange side,opportunity.symbol,side,.limit,opportunity.price side,size,none,secs,
    none,none,.pending⟩

def marketTemplate (side : OrderSide) (size : ℚ) (secs : Nat) : SimulatedOrder :=
  { limitTemplate opportunity side size secs with orderType := .market }

/-- The order that sells what the leg on `side` holds too much of. -/
def balanceTemplate (side : OrderSide) (diff : ℚ) (secs : Nat) : SimulatedOrder :=
  { marketTemplate opportunity side diff secs with side := side.opposite }

/-- The order that takes the leg on `side` out again. -/
def exitTemplate (side : OrderSide) (price size : ℚ) (secs : Nat) : SimulatedOrder :=
  { limitTemplate opportunity side size secs with side := side.opposite, price }

def spreadBps (longPrice shortPrice : ℚ) : ℚ := (shortPrice - longPrice) / longPrice * 10000

end Templates

/-- A section that holds the symbol's hedge lock. The guard is dropped on every
way out of it. -/
def withHedgeLock (symbol : String) (body : Entry α) : Entry α := ExceptT.mk do
  match ← tryAcquireHedgeLock symbol with
  | .error e => pure (.error (.hedgeLock e))
  | .ok _ =>
    let result ← body.run
    let _ ← dropHedgeLock symbol
    pure result

inductive BothLegsStatus where
  | bothFilled (longQty shortQty : ℚ)
  | onlyLongFilled (longQty : ℚ)
  | onlyShortFilled (shortQty : ℚ)
  | neitherFilled

/-- `RaceConditionGuard::check_both_legs_status`. Both queries are sent before
either answer is looked at. -/
def checkBothLegsStatus (longOrder shortOrder : SimulatedOrder) :
    Prog backend (Except String BothLegsStatus) := do
  let longResult ← getOrderStatusDetailed longOrder.exchange longOrder.id longOrder.symbol
  let shortResult ← getOrderStatusDetailed shortOrder.exchange shortOrder.id shortOrder.symbol
  match longResult, shortResult with
  | .error e, _ => pure (.error e)
  | .ok _, .error e => pure (.error e)
  | .ok long, .ok short =>
    match long.isFullyFilled, short.isFullyFilled with
    | true, true => pure (.ok (.bothFilled long.filledQuantity short.filledQuantity))
    | true, false => pure (.ok (.onlyLongFilled long.filledQuantity))
    | false, true => pure (.ok (.onlyShortFilled short.filledQuantity))
    | false, false => pure (.ok .neitherFilled)

/-- The quantities of two filled legs may differ by this much. -/
def balanceTolerance : ℚ := 1/1000

/-- Sell the surplus of the leg on `side`. A refused order is only logged. -/
def balanceLeg (opportunity : ArbitrageOpportunity) (side : OrderSide) (diff target : ℚ)
    (legs : Legs) : Prog backend Legs := do
  let secs ← nowSecs
  match ← placeMarketOrder (balanceTemplate opportunity side diff secs) with
  | .ok _ => pure (legs.set side ((legs.leg side).resize target))
  | .error _ => pure legs

/-- The quantity check after both legs were found filled. -/
def balanceLegs (opportunity : ArbitrageOpportunity) (longQty shortQty : ℚ) (legs : Legs) :
    Prog backend Legs :=
  if |longQty - shortQty| > balanceTolerance then
    if longQty > shortQty then
      balanceLeg opportunity .long (longQty - shortQty) shortQty legs
    else
      balanceLeg opportunity .short (shortQty - longQty) longQty legs
  else pure legs

/-- The depth check before the leg opposite to `side` is hedged. Critically low
depth closes the filled leg and gives up; a failed check is ignored. -/
def depthGate (opportunity : ArbitrageOpportunity) (side : OrderSide) (hedgeQuantity : ℚ)
    (legs : Legs) : Entry Legs := do
  match ← checkDepthForHedge legs.cache (legs.leg side.opposite).order.exchange opportunity.symbol
      hedgeQuantity with
  | (.ok hedgeDepth,cache) =>
    if hedgeDepth.shouldAbort then
      match ← emergencyClosePosition (legs.leg side).order with
      | .error e => throw (.closeFailed e)
      | .ok _ => throw (.hedgeDepth side.opposite hedgeDepth.depthRatio)
    else pure { legs with cache }
  | (.error _,cache) => pure { legs with cache }

/-- Hedge the leg opposite to `side` with market orders, or close the filled leg. -/
def marketHedge (template : SimulatedOrder) (side : OrderSide) (quantity : ℚ) (legs : Legs) :
    Entry Legs := do
  match ← placeMarketOrderWithRetry template quantity with
  | .ok filledOrder =>
    pure (legs.set side.opposite
      { legs.leg side.opposite with order := filledOrder, filled := true })
  | .error e =>
    match ← emergencyClosePosition (legs.leg side).order with
    | .error closeErr => throw (.hedgeAndCloseFailed side e closeErr)
    | .ok _ => throw (.hedgeFailed side e)

/-- The hedge of the polling loop, after the leg on `side` was found filled. It
does not look at what the cancelled order had filled. -/
def hedgeInLoop (opportunity : ArbitrageOpportunity) (side : OrderSide) (hedgeQuantity : ℚ)
    (legs : Legs) : Entry Flow := do
  match ← checkBothLegsStatus legs.long.order legs.short.order with
  | .ok (.bothFilled longQty shortQty) =>
    let legs ← balanceLegs opportunity longQty shortQty legs
    let secs ← nowSecs
    -- the size set by the balancing order is overwritten here
    let otherQty := match side with | .long => shortQty | .short => longQty
    pure (.again (legs.set side.opposite ((legs.leg side.opposite).fill secs otherQty)))
  | _ =>
    let legs ← depthGate opportunity side hedgeQuantity legs
    let secs ← nowSecs
    let other := (legs.leg side.opposite).order
    let _ ← cancelOrder other.exchange other.id
    let legs ← marketHedge (marketTemplate opportunity side.opposite hedgeQuantity secs) side
      hedgeQuantity legs
    pure (.next legs)

/-- The status check of one leg in a turn of the polling loop. -/
def pollLeg (opportunity : ArbitrageOpportunity) (side : OrderSide) (legs : Legs) : Entry Flow := do
  let leg := legs.leg side
  if leg.filled then pure (.next legs)
  else
    match ← getOrderStatusDetailed leg.order.exchange leg.order.id opportunity.symbol with
    | .error _ => pure (.next legs)
    | .ok info =>
      if info.isFullyFilled then
        let secs ← nowSecs
        let legs := legs.set side (leg.fill secs info.filledQuantity)
        if (legs.leg side.opposite).filled then pure (.next legs)
        else
          withHedgeLock opportunity.symbol
            (hedgeInLoop opportunity side info.filledQuantity legs)
      else if info.isPartiallyFilled then pure (.next legs)
      else if info.status = .cancelled then pure (.stop legs)
      else pure (.next legs)

/-- The price chasing of one leg in a turn of the polling loop. -/
def chaseLeg (config : RepricingConfig) (side : OrderSide) (legs : Legs) : Prog backend Legs := do
  let leg := legs.leg side
  if !leg.filled && leg.repriceCount < config.maxReprices then
    match ← getBestPriceForOrder leg.order with
    | .error _ => pure legs
    | .ok bestPrice =>
      if shouldReprice config leg.order.price bestPrice then
        match ← repriceOrder leg.order bestPrice leg.metrics with
        | .error _ => pure legs
        | .ok (newOrder,metrics) =>
          pure (legs.set side
            { leg with order := newOrder, repriceCount := leg.repriceCount+1, metrics })
      else pure legs
  else pure legs

/-- Cancel both legs, whatever becomes of it. -/
def cancelBoth (legs : Legs) : Prog backend Unit := do
  let _ ← cancelOrder legs.long.order.exchange legs.long.order.id
  let _ ← cancelOrder legs.short.order.exchange legs.short.order.id

/-- The spread collapse check. -/
def checkSpread (opportunity : ArbitrageOpportunity) (config : RepricingConfig) (legs : Legs) :
    Entry Unit := do
  let initial := spreadBps opportunity.longPrice opportunity.shortPrice
  let current := spreadBps legs.long.order.price legs.short.order.price
  if legs.neitherFilled && |initial - current| > config.spreadCollapseThresholdBps then
    let _ ← cancelBoth legs
    throw (.spreadCollapsed initial current)

/-- The check of the number of reprices of one leg. -/
def checkReprices (config : RepricingConfig) (side : OrderSide) (legs : Legs) : Entry Unit := do
  if (legs.leg side).repriceCount ≥ config.maxReprices && !(legs.leg side).filled then
    let _ ← cancelBoth legs
    throw (.maxReprices side config.maxReprices)

/-- The second half of a turn: the short leg and the checks that end the loop. -/
def pollShort (opportunity : ArbitrageOpportunity) (config : RepricingConfig) (legs : Legs) :
    Entry Flow := do
  match ← pollLeg opportunity .short legs with
  | .next legs =>
    let legs ← chaseLeg config .short legs
    checkSpread opportunity config legs
    checkReprices config .long legs
    checkReprices config .short legs
    if legs.bothFilled then pure (.stop legs) else pure (.next legs)
  | flow => pure flow

/-- One turn of the polling loop. -/
def pollOnce (opportunity : ArbitrageOpportunity) (config : RepricingConfig) (legs : Legs) :
    Entry Flow := do
  let _ ← sleep config.repriceIntervalMs
  match ← pollLeg opportunity .long legs with
  | .next legs =>
    let legs ← chaseLeg config .long legs
    pollShort opportunity config legs
  | flow => pure flow

/-- The polling loop from `start` on, for at most `turns` turns. -/
def pollLoop (opportunity : ArbitrageOpportunity) (config : RepricingConfig) (start : Nat) :
    Nat → Legs → Entry Legs
  | 0, legs => pure legs
  | turns+1, legs => do
    let instant ← now
    if instant - start < config.totalTimeoutSeconds * 1000 && !legs.bothFilled then
      match ← pollOnce opportunity config legs with
      | .next legs => pollLoop opportunity config start turns legs
      | .again legs => pollLoop opportunity config start turns legs
      | .stop legs => pure legs
    else pure legs

/-- Every turn sleeps for the reprice interval, so the loop is over after this many. -/
def maxTurns (config : RepricingConfig) : Nat :=
  config.totalTimeoutSeconds * 1000 / config.repriceIntervalMs + 1

/-- The last look at one leg before the entry gives up. -/
def verifyLeg (opportunity : ArbitrageOpportunity) (side : OrderSide) (legs : Legs) :
    Prog backend Legs := do
  let leg := legs.leg side
  match ← getOrderStatusDetailed leg.order.exchange leg.order.id opportunity.symbol with
  | .error _ => pure legs
  | .ok info =>
    if info.isFullyFilled then
      pure (legs.set side { leg with
        filled := true
        order := { leg.order with status := .filled, size := info.filledQuantity } })
    else pure legs

/-- The final verification check. -/
def finalCheck (opportunity : ArbitrageOpportunity) (legs : Legs) : Entry Legs := do
  if legs.neitherFilled then
    let legs ← verifyLeg opportunity .long legs
    let legs ← verifyLeg opportunity .short legs
    if legs.neitherFilled then
      let _ ← cancelBoth legs
      throw .neitherFilled
    else pure legs
  else pure legs

/-- The price at which an order of this side trades at once. -/
def getBestHedgePrice (side : OrderSide) (exchange symbol : String) :
    Prog backend (Except String ℚ) :=
  match side with
  | .long => getBestAsk exchange symbol
  | .short => getBestBid exchange symbol

/-- The aggressive limit order of the final hedge. It adds what the order is
seen to have filled to `totalFilled`. -/
def aggressiveLimit (opportunity : ArbitrageOpportunity) (side : OrderSide)
    (remaining totalFilled : ℚ) (leg : Leg) : Prog backend (ℚ × Leg) := do
  match ← getBestHedgePrice side (opportunity.exchange side) opportunity.symbol with
  | .error _ => pure (totalFilled,leg)
  | .ok best =>
    let secs ← nowSecs
    match ← placeOrder { limitTemplate opportunity side remaining secs with price := best } with
    | .error _ => pure (totalFilled,leg)
    | .ok placedOrder =>
      let _ ← sleep 2000
      match ← getOrderStatusDetailed (opportunity.exchange side) placedOrder.id
          opportunity.symbol with
      | .ok info =>
        let totalFilled := totalFilled + info.filledQuantity
        if info.filledQuantity ≥ remaining then
          pure (totalFilled,{ leg with
            order := { placedOrder with size := totalFilled }, filled := true })
        else
          let _ ← cancelOrder (opportunity.exchange side) placedOrder.id
          pure (totalFilled,leg)
      | .error _ =>
        let _ ← cancelOrder (opportunity.exchange side) placedOrder.id
        pure (totalFilled,leg)

/-- What a status answer adds to the quantity hedged so far. -/
def reportedFill : Except String OrderStatusInfo → ℚ
  | .ok info => info.filledQuantity
  | .error _ => 0

/-- The final hedge once its quantity is known: what the cancelled order filled,
an aggressive limit, and market orders for the rest. The last overwrite the leg
with their own quantity only. -/
def completeHedge (opportunity : ArbitrageOpportunity) (side : OrderSide) (hedgeQuantity : ℚ)
    (legs : Legs) : Entry Legs := do
  let other := legs.leg side.opposite
  let _ ← cancelOrder other.order.exchange other.order.id
  let status ← getOrderStatusDetailed other.order.exchange other.order.id opportunity.symbol
  let totalFilled := reportedFill status
  if totalFilled ≥ hedgeQuantity then
    pure (legs.set side.opposite { other.resize totalFilled with filled := true })
  else
    let (totalFilled,other) ← aggressiveLimit opportunity side.opposite
      (hedgeQuantity - totalFilled) totalFilled other
    if totalFilled ≥ hedgeQuantity then
      pure (legs.set side.opposite { other.resize totalFilled with filled := true })
    else
      let secs ← nowSecs
      let remaining := hedgeQuantity - totalFilled
      marketHedge (marketTemplate opportunity side.opposite remaining secs) side remaining legs

/-- The hedge after the loop, for a filled leg on `side` whose other leg is not. -/
def finalHedge (opportunity : ArbitrageOpportunity) (side : OrderSide) (legs : Legs) :
    Entry Legs := do
  if (legs.leg side).filled && !(legs.leg side.opposite).filled then
    withHedgeLock opportunity.symbol do
      let hedgeQuantity := (legs.leg side).order.size
      let legs ← depthGate opportunity side hedgeQuantity legs
      completeHedge opportunity side hedgeQuantity legs
  else pure legs

/-- The exit orders and the trade record of two filled legs. -/
def createTrade (opportunity : ArbitrageOpportunity) (positionSize : ℚ) (entryTime : Nat)
    (legs : Legs) : Prog backend PaperTrade := do
  let id ← newUuid
  let spreadAmount := opportunity.shortPrice - opportunity.longPrice
  let targetCapture := spreadAmount * (9/10)
  let stopLossSpread := spreadAmount * (13/10)
  let longSecs ← nowSecs
  let shortSecs ← nowSecs
  let longExit ← placeOrder (exitTemplate opportunity .long (opportunity.longPrice + targetCapture)
    legs.long.order.size longSecs)
  let shortExit ← placeOrder
      (exitTemplate opportunity .short (opportunity.shortPrice - targetCapture)
      legs.short.order.size shortSecs)
  pure {
    id, entryTime
    symbol := opportunity.symbol
    longExchange := opportunity.longExchange
    shortExchange := opportunity.shortExchange
    entryLongPrice := opportunity.longPrice
    entryShortPrice := opportunity.shortPrice
    entrySpreadBps := spreadBps opportunity.longPrice opportunity.shortPrice
    positionSizeUsd := positionSize
    fundingDeltaEntry := opportunity.fundingDelta8h
    projectedProfitUsd := opportunity.projectedProfitAfterSlippage
    actualProfitUsd := 0
    status := .active
    exitReason := none
    exitSpreadBps := none
    exitTime := none
    longOrder := legs.long.order
    shortOrder := legs.short.order
    longExitOrder := longExit.toOption
    shortExitOrder := shortExit.toOption
    stopLossTriggered := false
    stopLossLongPrice := opportunity.shortPrice - stopLossSpread
    stopLossShortPrice := opportunity.longPrice + stopLossSpread
    legOutEvent := none }

/-- The quantity step an exchange answers, or its default. -/
def stepOr : Except String ℚ → ℚ
  | .ok step => step
  | .error _ => 1/10

def roundToStep (raw step : ℚ) : ℚ := ⌊raw / step⌋ * step

/-- The pre-rounded quantity of both legs. -/
def contractQuantity (opportunity : ArbitrageOpportunity) (positionSize : ℚ) : Prog backend ℚ := do
  let raw := positionSize / max opportunity.longPrice opportunity.shortPrice
  let longStep ← getQuantityStep opportunity.longExchange opportunity.symbol
  let shortStep ← getQuantityStep opportunity.shortExchange opportunity.symbol
  pure (min (roundToStep raw (stepOr longStep)) (roundToStep raw (stepOr shortStep)))

/-- An exchange must hold the position and a margin of a fifth of it. -/
def marginBuffer : ℚ := 12/10

def availableBalance (exchange : String) : Entry ℚ := do
  match ← getAvailableBalance exchange with
  | .error e => throw (.balanceQuery exchange e)
  | .ok balance => pure balance

/-- The balance checks on both exchanges. -/
def checkBalances (opportunity : ArbitrageOpportunity) (positionSize : ℚ) : Entry Unit := do
  let longBalance ← availableBalance opportunity.longExchange
  let shortBalance ← availableBalance opportunity.shortExchange
  let required := positionSize * marginBuffer
  failWhen (longBalance < required)
    (.insufficientBalance opportunity.longExchange longBalance required)
  failWhen (shortBalance < required)
    (.insufficientBalance opportunity.shortExchange shortBalance required)

/-- The verdict on the two depth checks before the entry. -/
def depthVerdict (longResult shortResult : Except String DepthCheckResult) : Entry Unit := do
  match longResult, shortResult with
  | .error e, _ => throw (.depthQuery .long e)
  | .ok _, .error e => throw (.depthQuery .short e)
  | .ok long, .ok short =>
    failWhen (long.shouldAbort || short.shouldAbort)
      (.insufficientDepth long.depthRatio short.depthRatio)

/-- The depth checks before the entry. The balanced mode sends both queries
before it looks at the cache again; the safe mode stops at a failed first one. -/
def preflight (opportunity : ArbitrageOpportunity) (mode : ExecutionMode) (quantity : ℚ) :
    Entry DepthCache := do
  match mode with
  | .ultraFast => pure []
  | .balanced =>
    let start ← now
    let (longResult,cache) ← queryDepth [] opportunity.longExchange opportunity.symbol
        quantity start
    let (shortResult,cache) ← queryDepth cache opportunity.shortExchange opportunity.symbol
        quantity start
    depthVerdict longResult shortResult
    pure cache
  | .safe =>
    let (longResult,cache) ← checkDepthForHedge [] opportunity.longExchange
        opportunity.symbol quantity
    match longResult with
    | .error e => throw (.depthQuery .long e)
    | .ok _ =>
      let (shortResult,cache) ← checkDepthForHedge cache opportunity.shortExchange
          opportunity.symbol
        quantity
      depthVerdict longResult shortResult
      pure cache

/-- Place both entry orders. The long answer is looked at after the short order
was sent. -/
def placeEntry (opportunity : ArbitrageOpportunity) (quantity : ℚ) (secs : Nat)
    (cache : DepthCache) : Entry Legs := do
  let longResult ← placeOrder (limitTemplate opportunity .long quantity secs)
  let shortResult ← placeOrder (limitTemplate opportunity .short quantity secs)
  match longResult with
  | .error e => throw (.placement .long e)
  | .ok longOrder =>
    match shortResult with
    | .error e =>
      let _ ← cancelOrder longOrder.exchange longOrder.id
      throw (.placement .short e)
    | .ok shortOrder => pure ⟨.new longOrder,.new shortOrder,cache⟩

/-- Everything the entry checks before it places an order. -/
def prepareEntry (opportunity : ArbitrageOpportunity) (availableCapital positionSize : ℚ) :
    Entry (ℚ × Nat × DepthCache) := do
  failWhen (← isTradingHalted) .halted
  failWhen (positionSize ≤ 0) .sizeNotPositive
  failWhen (positionSize > availableCapital) (.exceedsCapital positionSize availableCapital)
  let secs ← nowSecs
  let quantity ← contractQuantity opportunity positionSize
  failWhen (quantity ≤ 0) .quantityTooSmall
  checkBalances opportunity positionSize
  let _ ← setLeverage opportunity.longExchange opportunity.symbol 1
  let _ ← setLeverage opportunity.shortExchange opportunity.symbol 1
  let _ ← setMarginTypeIsolated opportunity.longExchange opportunity.symbol
  let _ ← setMarginTypeIsolated opportunity.shortExchange opportunity.symbol
  let cache ← preflight opportunity
    (RepricingConfig.fromConfidence opportunity.confidenceScore).executionMode quantity
  pure (quantity,secs,cache)

/-- From two placed entry orders to two filled legs. -/
def fillLegs (opportunity : ArbitrageOpportunity) (legs : Legs) : Entry Legs := do
  let config := RepricingConfig.fromConfidence opportunity.confidenceScore
  let start ← now
  let legs ← pollLoop opportunity config start (maxTurns config) legs
  let legs ← finalCheck opportunity legs
  let legs ← finalHedge opportunity .long legs
  let legs ← finalHedge opportunity .short legs
  failWhen (!legs.long.filled || !legs.short.filled) .oneLegUnhedged
  pure legs

/-- `EntryExecutor::execute_atomic_entry_real`. -/
def executeAtomicEntryReal (opportunity : ArbitrageOpportunity)
    (availableCapital positionSize : ℚ) : Entry PaperTrade := do
  let (quantity,secs,cache) ← prepareEntry opportunity availableCapital positionSize
  let legs ← placeEntry opportunity quantity secs cache
  let legs ← fillLegs opportunity legs
  createTrade opportunity positionSize secs legs

end SpreadArb
