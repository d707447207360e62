import SpreadArb.Detector

namespace SpreadArb
open Numeric

/-- What the dashboard reads of one exchange: the quote and the funding rate. -/
structure Ticker where
  exchange : String
  bid : F64
  ask : F64
  fundingRate : F64

namespace Dashboard

/-- `OpportunityScanner::calculate_spread_bps`. -/
def calculateSpreadBps (longPrice shortPrice : F64) : F64 :=
  if longPrice = .fin 0 then .fin 0 else (shortPrice - longPrice) / longPrice * .fin 10000

def confidence (spreadBps fundingDelta : F64) : Nat :=
  (F64.min (spreadBps / .fin 50) (.fin 1) * .fin 50 +
    F64.min (fundingDelta / .round (1/100)) (.fin 1) * .fin 30 + .fin 20).toU8

/-- One direction: long at the ask of the first, short at the bid of the second. -/
def checkDirection (symbol : String) (now : Nat) (long short : Ticker) : Option Opportunity :=
  let spreadBps := calculateSpreadBps long.ask short.bid
  let fundingDelta := (short.fundingRate - long.fundingRate).abs
  let confidenceScore := confidence spreadBps fundingDelta
  if F64.lt (.fin 10) spreadBps && confidenceScore ≥ 70 then
    some
      { symbol, spreadBps, confidenceScore
        longExchange := long.exchange
        shortExchange := short.exchange
        longPrice := long.ask
        shortPrice := short.bid
        fundingDelta8h := fundingDelta
        projectedProfitUsd := spreadBps / .fin 10000 * .fin 1000
        projectedProfitAfterSlippage := spreadBps - .fin 20
        metrics :=
          { fundingDelta
            fundingDeltaProjected := fundingDelta
            hardConstraints := ⟨true,true,F64.le (.round (1/10000)) fundingDelta⟩ }
        orderBookDepthLong := .fin 15000
        orderBookDepthShort := .fin 15000
        timestamp := now }
  else none

/-- The inner loop over the pairs of one ticker with those after it. -/
def checkRow (symbol : String) (now : Nat) (first : Ticker) : List Ticker → List Opportunity
  | [] => []
  | second :: rest =>
    (checkDirection symbol now first second).toList ++
      (checkDirection symbol now second first).toList ++ checkRow symbol now first rest

/-- What `AppState::update_from_redis` shows for the tickers of one symbol. -/
def detect (symbol : String) (now : Nat) : List Ticker → List Opportunity
  | [] => []
  | first :: rest => checkRow symbol now first rest ++ detect symbol now rest

end Dashboard

end SpreadArb
