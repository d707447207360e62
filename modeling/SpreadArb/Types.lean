import Mathlib

namespace SpreadArb

inductive OrderSide where
  | long
  | short
deriving DecidableEq, Repr

/-- The side that closes a position of this side, and the other leg of the pair. -/
def OrderSide.opposite : OrderSide → OrderSide
  | .long => .short
  | .short => .long

@[simp] theorem OrderSide.opposite_ne (s : OrderSide) : s.opposite ≠ s := by
  cases s <;> decide

inductive OrderType where
  | limit
  | market
deriving DecidableEq, Repr

inductive OrderStatus where
  | pending
  | filled
  | cancelled
deriving DecidableEq, Repr

/-- Order identifiers. The exchange numbers the orders it accepts; the empty
string of a template that has not been placed yet is `0`. -/
abbrev OrderId := Nat

structure OrderStatusInfo where
  status : OrderStatus
  filledQuantity : ℚ
  totalQuantity : ℚ
deriving DecidableEq

def OrderStatusInfo.isFullyFilled (i : OrderStatusInfo) : Bool :=
  i.status = .filled && i.filledQuantity ≥ i.totalQuantity

def OrderStatusInfo.isPartiallyFilled (i : OrderStatusInfo) : Bool :=
  i.filledQuantity > 0 && i.filledQuantity < i.totalQuantity

structure QueuePosition where
  price : ℚ
  cumulativeVolumeAtPrice : ℚ
  restingDepthAtEntry : ℚ
  fillThresholdPct : ℚ
  isFilled : Bool
deriving DecidableEq

structure SimulatedOrder where
  id : OrderId
  exchange : String
  symbol : String
  side : OrderSide
  orderType : OrderType
  price : ℚ
  size : ℚ
  queuePosition : Option QueuePosition
  createdAt : Nat
  filledAt : Option Nat
  fillPrice : Option ℚ
  status : OrderStatus
deriving DecidableEq

/-- The fields of an opportunity that the entry and the runner read. -/
structure ArbitrageOpportunity where
  symbol : String
  longExchange : String
  shortExchange : String
  longPrice : ℚ
  shortPrice : ℚ
  fundingDelta8h : ℚ
  confidenceScore : Nat
  projectedProfitAfterSlippage : ℚ
  orderBookDepthLong : ℚ
  orderBookDepthShort : ℚ

def ArbitrageOpportunity.exchange (o : ArbitrageOpportunity) : OrderSide → String
  | .long => o.longExchange
  | .short => o.shortExchange

def ArbitrageOpportunity.price (o : ArbitrageOpportunity) : OrderSide → ℚ
  | .long => o.longPrice
  | .short => o.shortPrice

inductive TradeStatus where
  | pending
  | active
  | exiting
  | closed
deriving DecidableEq, Repr

/-- Why a trade leaves, with the values its text shows. -/
inductive ExitReason where
  | placeholder
  | exitOrdersFilled
  | exitTimeout (secs : Nat)
  | hedgedCancelledOrderFilled
  | hedgedSmartLimit
  | hedgedLimitPartialFill
  | hedgedMarketOrder
  | hedgedLimitPartialAndMarket
  | hedgedInstantMarket
  | hedgedNoOrderBook
  | stopLossTriggered (longPrice shortPrice : ℚ)
  | profitHit (entry exit captured : ℚ)
  | stopLoss (entry exit : ℚ)
  | fundingConvergence
  | negativeFundingExit
  | manualExit
deriving DecidableEq

structure LegOutEvent where
  filledLeg : OrderSide
  filledAt : Nat
  unfilledLeg : OrderSide
  hedgeExecuted : Bool
  hedgePrice : ℚ

/-- Trade identifiers stand for the source's fresh UUID strings. -/
abbrev TradeId := Nat

structure PriceLevel where
  price : ℚ
  quantity : ℚ

structure OrderBookDepth where
  bids : List PriceLevel
  asks : List PriceLevel
  timestamp : Nat

structure PaperTrade where
  id : TradeId
  symbol : String
  longExchange : String
  shortExchange : String
  entryTime : Nat
  entryLongPrice : ℚ
  entryShortPrice : ℚ
  entrySpreadBps : ℚ
  positionSizeUsd : ℚ
  fundingDeltaEntry : ℚ
  projectedProfitUsd : ℚ
  actualProfitUsd : ℚ
  status : TradeStatus
  exitReason : Option ExitReason
  exitSpreadBps : Option ℚ
  exitTime : Option Nat
  longOrder : SimulatedOrder
  shortOrder : SimulatedOrder
  longExitOrder : Option SimulatedOrder
  shortExitOrder : Option SimulatedOrder
  stopLossTriggered : Bool
  stopLossLongPrice : ℚ
  stopLossShortPrice : ℚ
  legOutEvent : Option LegOutEvent

end SpreadArb
