import SpreadArb.Backend

namespace SpreadArb
open Interact Backend

structure DepthCheckResult where
  exchange : String
  symbol : String
  availableLiquidity : ℚ
  requiredLiquidity : ℚ
  depthRatio : ℚ
  isSufficient : Bool
  isCritical : Bool
  checkDurationMs : Nat
  timestamp : Nat

def DepthCheckResult.shouldAbort (r : DepthCheckResult) : Bool := r.isCritical

def DepthCheckResult.shouldWarn (r : DepthCheckResult) : Bool := !r.isSufficient && !r.isCritical

/-- The top five bids against one and a half times the quantity to hedge. -/
def calculateDepthResult (exchange symbol : String) (depth : OrderBookDepth) (hedgeQuantity : ℚ)
    (durationMs : Nat) : DepthCheckResult :=
  let availableLiquidity := ((depth.bids.take 5).map PriceLevel.quantity).sum
  let requiredLiquidity := hedgeQuantity * (3/2)
  let depthRatio := if requiredLiquidity > 0 then availableLiquidity / requiredLiquidity else 0
  { exchange, symbol, availableLiquidity, requiredLiquidity, depthRatio
    isSufficient := depthRatio ≥ 1
    isCritical := depthRatio < 73/100
    checkDurationMs := durationMs
    timestamp := depth.timestamp }

/-- The checker's cache, newest entry first: key, depth and the time it was stored. -/
abbrev DepthCache := List (String × OrderBookDepth × Nat)

def cacheKey (exchange symbol : String) : String := exchange ++ ":" ++ symbol

def cacheTtl : Nat := 100

/-- A cached depth that is still fresh at time `instant`. -/
def DepthCache.fresh (cache : DepthCache) (exchange symbol : String) (instant : Nat) :
    Option OrderBookDepth :=
  match cache.lookup (cacheKey exchange symbol) with
  | some (depth,stored) => if instant - stored < cacheTtl then some depth else none
  | none => none

/-- The part of a depth check after a cache miss. -/
def queryDepth (cache : DepthCache) (exchange symbol : String) (hedgeQuantity : ℚ) (start : Nat) :
    Prog backend (Except String DepthCheckResult × DepthCache) := do
  match ← getOrderBookDepth exchange symbol 10 with
  | .error e => pure (.error e,cache)
  | .ok depth =>
    let done ← now
    pure (.ok (calculateDepthResult exchange symbol depth hedgeQuantity (done - start)),
      (cacheKey exchange symbol,depth,done) :: cache)

/-- `DepthChecker::check_depth_for_hedge`. -/
def checkDepthForHedge (cache : DepthCache) (exchange symbol : String) (hedgeQuantity : ℚ) :
    Prog backend (Except String DepthCheckResult × DepthCache) := do
  let start ← now
  match cache.fresh exchange symbol start with
  | some depth => pure (.ok (calculateDepthResult exchange symbol depth hedgeQuantity 0),cache)
  | none => queryDepth cache exchange symbol hedgeQuantity start

end SpreadArb
