import SpreadArb.Backend

namespace SpreadArb
open Interact Backend

inductive ExecutionMode where
  | ultraFast
  | balanced
  | safe
deriving DecidableEq, Repr

structure RepricingConfig where
  repriceThresholdBps : ℚ
  maxReprices : Nat
  repriceIntervalMs : Nat
  totalTimeoutSeconds : Nat
  spreadCollapseThresholdBps : ℚ
  executionMode : ExecutionMode

namespace RepricingConfig

/-- The presets differ in their mode only. -/
def preset (mode : ExecutionMode) : RepricingConfig := ⟨5,5,100,3,50,mode⟩

def ultraFast : RepricingConfig := preset .ultraFast

def balanced : RepricingConfig := preset .balanced

def safe : RepricingConfig := preset .safe

def fromConfidence (confidenceScore : Nat) : RepricingConfig :=
  if confidenceScore ≥ 90 then ultraFast
  else if confidenceScore ≥ 75 then balanced
  else safe

end RepricingConfig

structure RepricingEvent where
  timestamp : Nat
  oldPrice : ℚ
  newPrice : ℚ
  reason : String
  elapsedMs : Nat
  exchange : String
  side : OrderSide

structure RepricingMetrics where
  repriceCount : Nat
  repriceTotalTimeMs : Nat
  initialPrice : ℚ
  finalPrice : ℚ
  priceImprovementBps : ℚ
  repricingEvents : List RepricingEvent
  maxRepricesReached : Bool

namespace RepricingMetrics

def new (initialPrice : ℚ) : RepricingMetrics := ⟨0,0,initialPrice,initialPrice,0,[],false⟩

def record (m : RepricingMetrics) (event : RepricingEvent) : RepricingMetrics :=
  { m with
    repriceCount := m.repriceCount+1
    repriceTotalTimeMs := m.repriceTotalTimeMs+event.elapsedMs
    finalPrice := event.newPrice
    repricingEvents := m.repricingEvents ++ [event] }

end RepricingMetrics

def priceMovedAway : String := "price_moved_away"

def shouldReprice (config : RepricingConfig) (orderPrice currentBestPrice : ℚ) : Bool :=
  |currentBestPrice - orderPrice| / orderPrice * 10000 > config.repriceThresholdBps

/-- `PriceChaser::reprice_order`. The new order carries the full size of the old
one, whatever the old one had filled when it was cancelled. -/
def repriceOrder (order : SimulatedOrder) (newPrice : ℚ) (metrics : RepricingMetrics) :
    Prog backend (Except String (SimulatedOrder × RepricingMetrics)) := do
  let start ← now
  match ← cancelOrder order.exchange order.id with
  | .error e => pure (.error s!"Failed to cancel order: {e}")
  | .ok _ =>
    let created ← now
    match ← placeOrder { order with price := newPrice, id := 0, createdAt := created / 1000 } with
    | .error e => pure (.error s!"Failed to place repriced order: {e}")
    | .ok placedOrder =>
      let done ← now
      let event := ⟨done / 1000,order.price,newPrice,priceMovedAway,done - start,order.exchange,
        order.side⟩
      pure (.ok (placedOrder,metrics.record event))

/-- `PriceChaser::get_best_price_for_order`: the passive side of the book. -/
def getBestPriceForOrder (order : SimulatedOrder) : Prog backend (Except String ℚ) :=
  match order.side with
  | .long => do
    let price ← getBestBid order.exchange order.symbol
    pure (price.mapError (fun e => s!"Failed to get best bid: {e}"))
  | .short => do
    let price ← getBestAsk order.exchange order.symbol
    pure (price.mapError (fun e => s!"Failed to get best ask: {e}"))

/-- The loop of `chase_until_filled`, for so many turns; the result is `none` if they do not
suffice. -/
def chaseWhile (config : RepricingConfig) (start timeout : Nat) :
    Nat → SimulatedOrder → RepricingMetrics →
    Prog backend (Option (Except String SimulatedOrder))
  | 0, _, _ => pure none
  | turns+1, order, metrics => do
    let instant ← now
    if instant - start < timeout then
      match ← getOrderStatus order.exchange order.id with
      | .error e => pure (some (.error s!"Failed to get order status: {e}"))
      | .ok status =>
        let limit := config.maxReprices
        if status = .filled then pure (some (.ok order))
        else if metrics.repriceCount ≥ limit then
          pure (some (.error s!"Max reprices ({limit}) reached"))
        else
          match ← getBestPriceForOrder order with
          | .error e => pure (some (.error e))
          | .ok bestPrice =>
            if shouldReprice config order.price bestPrice then
              match ← repriceOrder order bestPrice metrics with
              | .error e => pure (some (.error e))
              | .ok (order,metrics) =>
                let _ ← sleep config.repriceIntervalMs
                chaseWhile config start timeout turns order metrics
            else
              let _ ← sleep config.repriceIntervalMs
              chaseWhile config start timeout turns order metrics
    else pure (some (.error "Timeout reached without fill"))

/-- `PriceChaser::chase_until_filled`, with a timeout in milliseconds. -/
def chaseUntilFilled (config : RepricingConfig) (order : SimulatedOrder) (timeout turns : Nat) :
    Prog backend (Option (Except String SimulatedOrder)) := do
  let start ← now
  chaseWhile config start timeout turns order (.new order.price)

end SpreadArb
