import SpreadArb.Types

namespace SpreadArb

structure PortfolioState where
  startingCapital : ℚ
  availableCapital : ℚ
  totalOpenPositions : ℚ
  activeTrades : List PaperTrade
  closedTrades : List PaperTrade
  cumulativePnl : ℚ
  winCount : Nat
  lossCount : Nat
  legOutCount : Nat
  legOutTotalLoss : ℚ

inductive PortfolioError where
  | exceedsCapital (positionSize availableCapital : ℚ)
  | redis (e : String)

namespace PortfolioState

def new (startingCapital : ℚ) : PortfolioState :=
  ⟨startingCapital,startingCapital,0,[],[],0,0,0,0,0⟩

/-- The state change of `PortfolioManager::open_trade`. -/
def openTrade (s : PortfolioState) (trade : PaperTrade) : Except PortfolioError PortfolioState :=
  if trade.positionSizeUsd > s.availableCapital then
    .error (.exceedsCapital trade.positionSizeUsd s.availableCapital)
  else
    .ok { s with
      availableCapital := s.availableCapital - trade.positionSizeUsd
      totalOpenPositions := s.totalOpenPositions + trade.positionSizeUsd
      activeTrades := s.activeTrades ++ [trade] }

/-- The books of a trade that leaves with this profit. -/
def settle (s : PortfolioState) (trade : PaperTrade) (actualProfit : ℚ) : PortfolioState :=
  let legOutLoss := trade.legOutEvent.isSome && actualProfit < 0
  { s with
    totalOpenPositions := s.totalOpenPositions - trade.positionSizeUsd
    availableCapital := s.availableCapital + (trade.positionSizeUsd + actualProfit)
    cumulativePnl := s.cumulativePnl + actualProfit
    legOutTotalLoss := if legOutLoss then s.legOutTotalLoss + |actualProfit| else s.legOutTotalLoss
    winCount := if actualProfit > 0 then s.winCount+1 else s.winCount
    lossCount := if actualProfit > 0 then s.lossCount else s.lossCount+1
    legOutCount := if legOutLoss then s.legOutCount+1 else s.legOutCount }

/-- The state change of `PortfolioManager::close_trade`; without a trade of this id there
is none. -/
def closeTrade (s : PortfolioState) (id : TradeId) (actualProfit : ℚ) (exitReason : ExitReason)
    (secs : Nat) : Option PortfolioState :=
  match s.activeTrades.findIdx? (fun t => t.id = id), s.activeTrades.find? (fun t => t.id = id) with
  | some pos, some trade =>
    let closed := { trade with
      actualProfitUsd := actualProfit
      exitReason := some exitReason
      status := .closed
      exitTime := some secs }
    some { s.settle trade actualProfit with
      activeTrades := s.activeTrades.eraseIdx pos
      closedTrades := s.closedTrades ++ [closed] }
  | _, _ => none

end PortfolioState

/-- What becomes of the Redis requests at the end of a call: the entry in the trade log, the
snapshot of the state and the one of the metrics. -/
structure RedisAnswers where
  log : Option String := none
  state : Option String := none
  metrics : Option String := none

/-- The first request that fails ends the call. -/
def RedisAnswers.failure (io : RedisAnswers) : Option String :=
  io.log.or (io.state.or io.metrics)

def RedisAnswers.result (io : RedisAnswers) : Except PortfolioError Unit :=
  match io.failure with
  | some e => .error (.redis e)
  | none => .ok ()

/-- A call of `PortfolioManager`. A close also reads the clock. -/
inductive PortfolioCall where
  | openTrade (trade : PaperTrade)
  | closeTrade (id : TradeId) (actualProfit : ℚ) (exitReason : ExitReason) (secs : Nat)

namespace PortfolioState

/-- `PortfolioManager::open_trade` and `close_trade`: the state is changed first, then Redis
is told. -/
def call (s : PortfolioState) (io : RedisAnswers) :
    PortfolioCall → Except PortfolioError Unit × PortfolioState
  | .openTrade trade =>
    match s.openTrade trade with
    | .error e => (.error e,s)
    | .ok s' => (io.result,s')
  | .closeTrade id actualProfit exitReason secs =>
    match s.closeTrade id actualProfit exitReason secs with
    | none => (.ok (),s)
    | some s' => (io.result,s')

/-- The state after these calls, whatever each of them returned. -/
def calls (s : PortfolioState) : List (PortfolioCall × RedisAnswers) → PortfolioState
  | [] => s
  | (c,io) :: rest => ((s.call io c).2).calls rest

end PortfolioState

end SpreadArb
