import SpreadArb.ExchangeParser

namespace SpreadArb
open Numeric

structure HardConstraints where
  orderBookDepthSufficient : Bool
  exchangeLatencyOk : Bool
  fundingDeltaSubstantial : Bool
deriving DecidableEq

/-- `ConfluenceMetrics`; the measures that streaming does not calculate are zero. -/
structure ConfluenceMetrics where
  fundingDelta : F64
  fundingDeltaProjected : F64
  obiRatio : F64 := .fin 0
  oiCurrent : F64 := .fin 0
  oi24hAvg : F64 := .fin 0
  vwapDeviation : F64 := .fin 0
  atr : F64 := .fin 0
  atrTrend : Bool := false
  liquidationClusterDistance : F64 := .fin 0
  hardConstraints : HardConstraints
deriving DecidableEq

/-- An `ArbitrageOpportunity` as it is published, with its doubles. -/
structure Opportunity where
  symbol : String
  longExchange : String
  shortExchange : String
  longPrice : F64
  shortPrice : F64
  spreadBps : F64
  fundingDelta8h : F64
  confidenceScore : Nat
  projectedProfitUsd : F64
  projectedProfitAfterSlippage : F64
  metrics : ConfluenceMetrics
  orderBookDepthLong : F64
  orderBookDepthShort : F64
  timestamp : Nat
deriving DecidableEq

/-- `get_exchange_fee_by_name`, in basis points: the id of the name, then the fee of the id. -/
def getExchangeFeeByName (exchange : String) : F64 :=
  match exchange.toLower with
  | "binance" => .fin 4
  | "okx" => .fin 5
  | "bybit" => .fin (55/10)
  | "bitget" => .fin 6
  | "kucoin" => .fin 6
  | "hyperliquid" => .fin (45/10)
  | "paradex" => .fin 5
  | "gateio" => .fin 6
  | _ => .fin 6

/-- The exchanges the detector looks at. -/
def knownExchanges : List String :=
  ["binance","bybit","okx","kucoin","bitget","gateio","hyperliquid","paradex"]

namespace Detector

def minSpreadBps : F64 := .fin 10

def minFundingDelta : F64 := .round (1/10000)

def minConfidence : Nat := 70

/-- Placeholder of the source. -/
def getFundingDelta (_symbol _longExchange _shortExchange : String) : F64 := .round (2/10000)

/-- Placeholder of the source. -/
def getDepth (_exchange _symbol : String) : F64 := .fin 15000

/-- The spread of the two quotes, in basis points. -/
def spread (longAsk shortBid : F64) : F64 := (shortBid - longAsk) / longAsk * .fin 10000

def calculateConfidence (spreadBps fundingDelta : F64) : Nat :=
  ((F64.min (spreadBps / .fin 50) (.fin 1) * .fin 50 +
    F64.min (fundingDelta.abs / .round (1/100)) (.fin 1) * .fin 30 + .fin 20).clamp (.fin 0)
      (.fin 100)).toU8

def buildMetrics (fundingDelta depthLong depthShort : F64) : ConfluenceMetrics where
  fundingDelta := fundingDelta
  fundingDeltaProjected := fundingDelta
  hardConstraints :=
    { orderBookDepthSufficient :=
        (F64.le (.fin 10000) depthLong) && (F64.le (.fin 10000) depthShort)
      exchangeLatencyOk := true
      fundingDeltaSubstantial := minFundingDelta.le fundingDelta.abs }

/-- The profit after fees, slippage and funding, in basis points. -/
def projectedProfitBps (longExchange shortExchange : String) (spreadBps : F64) : F64 :=
  spreadBps - (getExchangeFeeByName longExchange + getExchangeFeeByName shortExchange) -
    .fin 3 - .fin 10

/-- The opportunity that is pushed for a direction. -/
def buildOpportunity (symbol longExchange shortExchange : String) (longAsk shortBid : F64)
    (secs : Nat) : Opportunity :=
  let spreadBps := spread longAsk shortBid
  let fundingDelta := getFundingDelta symbol longExchange shortExchange
  let profit := projectedProfitBps longExchange shortExchange spreadBps
  let depthLong := getDepth longExchange symbol
  let depthShort := getDepth shortExchange symbol
  { symbol, longExchange, shortExchange, spreadBps
    longPrice := longAsk
    shortPrice := shortBid
    fundingDelta8h := fundingDelta
    confidenceScore := calculateConfidence spreadBps fundingDelta
    projectedProfitUsd := profit / .fin 10000 * .fin 1000
    projectedProfitAfterSlippage := profit
    metrics := buildMetrics fundingDelta depthLong depthShort
    orderBookDepthLong := depthLong
    orderBookDepthShort := depthShort
    timestamp := secs }

/-- `check_opportunity`: the filters in their order. -/
def checkOpportunity (symbol longExchange shortExchange : String) (longAsk shortBid : F64)
    (secs : Nat) : Option Opportunity :=
  let spreadBps := spread longAsk shortBid
  let fundingDelta := getFundingDelta symbol longExchange shortExchange
  if spreadBps.le minSpreadBps then none
  else if fundingDelta.abs.lt minFundingDelta then none
  else if calculateConfidence spreadBps fundingDelta < minConfidence then none
  else if (projectedProfitBps longExchange shortExchange spreadBps).le (.fin 0) then none
  else some (buildOpportunity symbol longExchange shortExchange longAsk shortBid secs)

/-- `get_prices`. It registers the pair. -/
def getPrices (m : SymbolMap) (store : MarketDataStore) (exchange symbol : String) :
    Option (F64 × F64) × SymbolMap :=
  let (symbolId,m) := m.getOrInsert exchange symbol
  match store.getBid symbolId, store.getAsk symbolId with
  | some bid, some ask =>
    if bid.le (.fin 0) || ask.le (.fin 0) then (none,m) else (some (bid,ask),m)
  | _, _ => (none,m)

/-- The exchanges of the list with a positive bid, in its order. Each one is registered. -/
def withValidBid (store : MarketDataStore) (symbol : String) :
    SymbolMap → List String → List String × SymbolMap
  | m, [] => ([],m)
  | m, exchange :: exchanges =>
    let (symbolId,m) := m.getOrInsert exchange symbol
    let (rest,m) := withValidBid store symbol m exchanges
    match store.getBid symbolId with
    | some bid => if F64.lt (.fin 0) bid then (exchange :: rest,m) else (rest,m)
    | none => (rest,m)

def getExchangesForSymbol (m : SymbolMap) (store : MarketDataStore) (symbol : String) :
    List String × SymbolMap :=
  withValidBid store symbol m knownExchanges

section Loops

variable (store : MarketDataStore) (symbol : String) (secs : String → String → Nat)

/-- Both directions between two exchanges. -/
def checkPair (m : SymbolMap) (ex1 ex2 : String) : List Opportunity × SymbolMap :=
  let (prices1,m) := getPrices m store ex1 symbol
  let (prices2,m) := getPrices m store ex2 symbol
  match prices1, prices2 with
  | some (bid1,ask1), some (bid2,ask2) =>
    ((checkOpportunity symbol ex1 ex2 ask1 bid2 (secs ex1 ex2)).toList ++
      (checkOpportunity symbol ex2 ex1 ask2 bid1 (secs ex2 ex1)).toList,m)
  | _, _ => ([],m)

/-- The inner loop: one exchange with each of those after it. -/
def checkRow (ex1 : String) : SymbolMap → List String → List Opportunity × SymbolMap
  | m, [] => ([],m)
  | m, ex2 :: rest =>
    let (found,m) := checkPair store symbol secs m ex1 ex2
    let (more,m) := checkRow ex1 m rest
    (found ++ more,m)

/-- The outer loop. -/
def checkAll : SymbolMap → List String → List Opportunity × SymbolMap
  | m, [] => ([],m)
  | m, ex1 :: rest =>
    let (found,m) := checkRow store symbol secs ex1 m rest
    let (more,m) := checkAll m rest
    (found ++ more,m)

/-- `detect_opportunities_for_symbol`: what it pushes, in this order, and the map it leaves.
`secs` is the second in which each direction is checked. -/
def detectOpportunitiesForSymbol (m : SymbolMap) (_updatedExchange : String) :
    List Opportunity × SymbolMap :=
  let (exchanges,m) := getExchangesForSymbol m store symbol
  if exchanges.length < 2 then ([],m) else checkAll store symbol secs m exchanges

end Loops

end Detector

end SpreadArb
