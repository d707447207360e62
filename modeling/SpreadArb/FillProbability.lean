import SpreadArb.Types

namespace SpreadArb

inductive OrderAction where
  | useMarket
  | useLimitWithFallback (waitTimeMs : Nat)
deriving DecidableEq

structure FillProbability where
  probability : ℚ
  recommendedAction : OrderAction
  estimatedWaitMs : Nat

structure LimitOrderDecision where
  useLimit : Bool
  priceLevel : Nat
  probability : ℚ
  waitTimeMs : Nat

/-- The thresholds that `FillProbabilityEstimator::new` sets. -/
def minProbabilityThreshold : ℚ := 7/10
def maxWaitTimeMs : Nat := 200

/-- The levels an order of this side takes from. -/
def OrderBookDepth.against (book : OrderBookDepth) : OrderSide → List PriceLevel
  | .long => book.asks
  | .short => book.bids

/-- How likely an order is to fill when the depth is this multiple of its size. -/
def baseProbability (depthRatio : ℚ) : ℚ :=
  if depthRatio ≥ 10 then 95/100
  else if depthRatio ≥ 5 then 85/100
  else if depthRatio ≥ 3 then 75/100
  else if depthRatio ≥ 2 then 60/100
  else if depthRatio ≥ 1 then 40/100
  else 20/100

def levelPenalty : Nat → ℚ
  | 0 => 1
  | 1 => 95/100
  | 2 => 85/100
  | 3 => 70/100
  | _ => 50/100

def estimatedWait (probability : ℚ) : Nat :=
  if probability ≥ 90/100 then 50
  else if probability ≥ 75/100 then 100
  else if probability ≥ 60/100 then 200
  else 500

/-- `FillProbabilityEstimator::calculate_fill_probability`. -/
def calculateFillProbability (book : OrderBookDepth) (side : OrderSide) (priceLevel : Nat)
    (orderSize : ℚ) : FillProbability :=
  if priceLevel ≥ (book.against side).length then ⟨0,.useMarket,0⟩
  else
    let cumulativeDepth := (((book.against side).take (priceLevel+1)).map
      (fun level => level.quantity * level.price)).sum
    let adjusted := baseProbability (cumulativeDepth / orderSize) * levelPenalty priceLevel
    let wait := estimatedWait adjusted
    ⟨adjusted,
      if adjusted ≥ minProbabilityThreshold then .useLimitWithFallback (min wait maxWaitTimeMs)
      else .useMarket,
      wait⟩

/-- One turn of the search for the best level. -/
def betterLevel (book : OrderBookDepth) (side : OrderSide) (orderSize : ℚ)
    (best : LimitOrderDecision) (level : Nat) : LimitOrderDecision :=
  let fillProb := calculateFillProbability book side level orderSize
  if fillProb.probability ≥ minProbabilityThreshold && fillProb.probability > best.probability then
    ⟨true,level,fillProb.probability,fillProb.estimatedWaitMs⟩
  else best

/-- `FillProbabilityEstimator::should_try_limit`. -/
def shouldTryLimit (book : OrderBookDepth) (side : OrderSide)
    (orderSize : ℚ) : LimitOrderDecision :=
  (List.range 3).foldl (betterLevel book side orderSize) ⟨false,0,0,0⟩

end SpreadArb
