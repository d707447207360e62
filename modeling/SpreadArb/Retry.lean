import SpreadArb.Backend

namespace SpreadArb
open Interact Backend

/-- How a retried market hedge fails: the last placement was refused, the last
fill could not be verified, or three attempts did not fill the target. -/
inductive MarketOrderError where
  | placement (e : String)
  | unverified (e : String)
  | incomplete (totalFilled target : ℚ)

/-- The attempts of `place_market_order_with_retry` that are left. -/
def marketAttempts (template : SimulatedOrder) (target : ℚ) :
    Nat → ℚ → SimulatedOrder → Prog backend (Except MarketOrderError SimulatedOrder)
  | 0, totalFilled, _ => pure (.error (.incomplete totalFilled target))
  | left+1, totalFilled, lastOrder => do
    if target - totalFilled ≤ 0 then
      pure (.ok { lastOrder with size := totalFilled })
    else
      match ← placeMarketOrder { template with size := target - totalFilled } with
      | .ok filledOrder =>
        match ← getOrderStatusDetailed filledOrder.exchange filledOrder.id
            template.symbol with
        | .ok info =>
          let totalFilled := totalFilled + info.filledQuantity
          if totalFilled ≥ target then
            pure (.ok { filledOrder with size := totalFilled })
          else
            marketAttempts template target left totalFilled filledOrder
        | .error e =>
          -- an unverified attempt is not counted, and the next one asks for it again
          if left = 0 then pure (.error (.unverified e))
          else
            let _ ← sleep (100 * 2 ^ (2 - left))
            marketAttempts template target left totalFilled filledOrder
      | .error e =>
        if left = 0 then pure (.error (.placement e))
        else
          let _ ← sleep 500
          marketAttempts template target left totalFilled lastOrder

/-- `EntryExecutor::place_market_order_with_retry`, with `MAX_RETRIES = 3`. -/
def placeMarketOrderWithRetry (template : SimulatedOrder) (target : ℚ) :
    Prog backend (Except MarketOrderError SimulatedOrder) :=
  marketAttempts template target 3 0 template

/-- The status query succeeded and says `Filled`. -/
def reportsFilled : Except String OrderStatusInfo → Bool
  | .ok info => info.status = .filled
  | .error _ => false

def placeFailure (attempts : Nat) (e : String) : String := s!"Failed after {attempts} attempts: {e}"

def noAttempt (attempts : Nat) : String := s!"Failed to place order after {attempts} attempts"

/-- The attempts of `place_with_retry` that are left after `attempts` of them. -/
def placeAttempts (order : SimulatedOrder) (attempts : Nat) :
    Nat → Prog backend (Except String SimulatedOrder)
  | 0 => pure (.error (noAttempt attempts))
  | left+1 => do
    match ← placeMarketOrder order with
    | .ok placedOrder =>
      let status ← getOrderStatusDetailed placedOrder.exchange placedOrder.id order.symbol
      if reportsFilled status then
        pure (.ok placedOrder)
      else if left = 0 then
        pure (.ok placedOrder)
      else
        let _ ← sleep 100
        placeAttempts order (attempts+1) left
    | .error e =>
      if left = 0 then pure (.error (placeFailure (attempts+1) e))
      else
        let _ ← sleep 100
        placeAttempts order (attempts+1) left

/-- `MarketOrderPlacer::place_with_retry`. The target quantity is a parameter of
the source that its body never reads. -/
def placeWithRetry (order : SimulatedOrder) (_targetQuantity : ℚ) (maxRetries : Nat) :
    Prog backend (Except String SimulatedOrder) :=
  placeAttempts order 0 maxRetries

/-- The error texts on which an emergency close is split in two. -/
def quantityLimitHit (e : String) : Bool :=
  decide ("Quantity greater than max quantity".toList <:+: e.toList) ||
    decide ("exceeds minimum limit".toList <:+: e.toList)

/-- The order that closes a filled order: the same size on the other side. -/
def closeOrderOf (filledOrder : SimulatedOrder) (now : Nat) : SimulatedOrder :=
  { filledOrder with
    id := 0
    side := filledOrder.side.opposite
    orderType := .market
    queuePosition := none
    createdAt := now / 1000
    filledAt := none
    fillPrice := none
    status := .pending }

/-- Attempts at the whole order of an emergency close, and at each of its halves. -/
def closeRetries : Nat := 10
def halfRetries : Nat := 5

/-- The second try of an emergency close: two orders of half the size. -/
def closeInHalves (closeOrder : SimulatedOrder) : Prog backend Bool := do
  let half := { closeOrder with size := closeOrder.size / 2 }
  match ← placeWithRetry half half.size halfRetries with
  | .ok _ =>
    match ← placeWithRetry half half.size halfRetries with
    | .ok _ => pure true
    | .error _ => pure false
  | .error _ => pure false

def haltReason (filledOrder : SimulatedOrder) (e : String) : String :=
  s!"Emergency close failed: {filledOrder.symbol} on {filledOrder.exchange} ({e})"

def closeFailure (elapsed : Nat) (e : String) : String :=
  s!"CRITICAL: Failed to emergency close position after {closeRetries} attempts in {elapsed}ms: {e}"

/-- `EntryExecutor::emergency_close_position`. -/
def emergencyClosePosition (filledOrder : SimulatedOrder) : Prog backend (Except String Unit) := do
  let start ← now
  let _ ← alert (.closingNaked filledOrder)
  let created ← now
  let closeOrder := closeOrderOf filledOrder created
  match ← placeWithRetry closeOrder closeOrder.size closeRetries with
  | .ok _ => pure (.ok ())
  | .error e =>
    let closed ← if quantityLimitHit e then closeInHalves closeOrder else pure false
    if closed then pure (.ok ())
    else
      let failed ← now
      let _ ← alert (.closeFailed filledOrder)
      let _ ← haltTrading (haltReason filledOrder e)
      pure (.error (closeFailure (failed - start) e))

end SpreadArb
