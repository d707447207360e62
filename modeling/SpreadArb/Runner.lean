import SpreadArb.Interact.Join
import SpreadArb.PaperEntry
import SpreadArb.FillProbability
import SpreadArb.Portfolio

namespace SpreadArb
open Interact

structure NegativeFundingTracker where
  consecutiveNegativeCycles : Nat
  lastFundingRate : ℚ

namespace NegativeFundingTracker

def updateFunding (t : NegativeFundingTracker) (fundingRate : ℚ) : NegativeFundingTracker :=
  ⟨if fundingRate < 0 then t.consecutiveNegativeCycles+1 else 0,fundingRate⟩

def shouldExit (t : NegativeFundingTracker) : Bool := t.consecutiveNegativeCycles ≥ 2

def reset (_ : NegativeFundingTracker) : NegativeFundingTracker := ⟨0,0⟩

end NegativeFundingTracker

/-- The branch of the monitor that makes a request. -/
inductive Branch where
  | checks
  | timeout
  | longExitFilled
  | shortExitFilled
  | stopLoss
deriving DecidableEq, Repr

/-- Who asks the exchanges, and for which trade. -/
inductive Caller where
  | entry
  | monitor (trade : TradeId) (branch : Branch)
  | cleanup (trade : TradeId)
deriving DecidableEq, Repr

/-- The requests of the runner: those to the exchanges, the accesses to its maps, the market
data store, Redis and the portfolio. A `Ref` that is dropped before the next await is `get`;
one that lives across awaits is taken by `hold` and dropped by `release`. -/
inductive RunnerOp where
  | backend (caller : Caller) (op : BackendOp)
  | tradeIds
  | find (p : PaperTrade → Bool)
  | get (id : TradeId)
  | hold (id : TradeId)
  | release (id : TradeId)
  | getMut (id : TradeId) (f : PaperTrade → PaperTrade)
  | insert (trade : PaperTrade)
  | remove (id : TradeId)
  | quotes (pair longExchange shortExchange : String)
  | tracker (symbol : String)
  | trackerMut (symbol : String) (f : NegativeFundingTracker → NegativeFundingTracker)
  | getFundingRates (symbol : String)
  | getAvailableCapital
  | getStartingCapital
  | openTrade (trade : PaperTrade)
  | closeTrade (id : TradeId) (actualProfit : ℚ) (exitReason : ExitReason)
  | resumeTrading
  | backendName
  /-- The monitor turns to a trade, or is done with it. -/
  | monitoring (trade : Option TradeId)

abbrev RunnerOp.Ans : RunnerOp → Type
  | .backend _ op => BackendOp.Ans op
  | .tradeIds => List TradeId
  | .find _ | .get _ | .hold _ => Option PaperTrade
  | .release _ | .getMut .. | .insert _ | .remove _ | .trackerMut .. | .resumeTrading
  | .monitoring _ => Unit
  | .quotes .. => Option ℚ × Option ℚ
  | .tracker _ => Option NegativeFundingTracker
  | .getFundingRates _ => Option (ℚ × ℚ)
  | .getAvailableCapital | .getStartingCapital => ℚ
  | .openTrade _ | .closeTrade .. => Except PortfolioError Unit
  | .backendName => String

abbrev runnerSig : Sig := ⟨RunnerOp,RunnerOp.Ans⟩

/-- The requests to the exchanges that are awaited. -/
def BackendOp.awaits : BackendOp → Bool
  | .now | .isTradingHalted | .haltTrading _ | .tryAcquireHedgeLock _ | .dropHedgeLock _
  | .alert _ | .newUuid => false
  | _ => true

/-- The requests at which the task may turn to its other future. -/
def RunnerOp.awaits : RunnerOp → Bool
  | .backend _ op => op.awaits
  | .getFundingRates _ | .getAvailableCapital | .getStartingCapital | .openTrade _
  | .closeTrade .. => true
  | _ => false

/-- What surrounds the runner. All of it may change from one await to the next. -/
structure Surroundings where
  exchanges : Env
  /-- The quotes in the market data store: the long ask and the short bid. -/
  quotes : Nat → String → String → String → Option ℚ × Option ℚ := fun _ _ _ _ => (none,none)
  /-- The funding rates of a symbol: the long and the short one. -/
  funding : Nat → String → Option (ℚ × ℚ) := fun _ _ => none
  /-- Where in the iteration order of the map a new trade comes to stand. -/
  slot : Nat → Nat := fun _ => 0
  /-- The name of the execution backend. -/
  backendName : String := "Demo"

/-- The runner with its surroundings. The last four fields are not read by the code: on
whose behalf each order was placed, what a trade's passes were last told of an order, the
trade the monitor is at, and whether the program has given up on a leg since trading was last
resumed. -/
structure Runner where
  world : World
  trades : List PaperTrade
  held : List TradeId
  trackers : List (String × NegativeFundingTracker)
  portfolio : PortfolioState
  owner : OrderId → Option TradeId
  seen : TradeId → OrderId → ℚ
  monitored : Option TradeId
  gaveUp : Bool

namespace Runner

/-- The runner as `StrategyRunner::new` makes it. -/
def new (world : World) (startingCapital : ℚ) : Runner :=
  ⟨world,[],[],[],.new startingCapital,fun _ => none,fun _ _ => 0,none,false⟩

def lookup (s : Runner) (id : TradeId) : Option PaperTrade := s.trades.find? (fun t => t.id = id)

def update (s : Runner) (id : TradeId) (f : PaperTrade → PaperTrade) : Runner :=
  { s with trades := s.trades.map (fun t => if t.id = id then f t else t) }

/-- A new key gets its place in the iteration order; an old one keeps it. -/
def put (s : Runner) (slot : Nat) (trade : PaperTrade) : Runner :=
  if (s.lookup trade.id).isSome then s.update trade.id (fun _ => trade)
  else { s with trades := s.trades.take slot ++ trade :: s.trades.drop slot }

def erase (s : Runner) (id : TradeId) : Runner :=
  { s with trades := s.trades.filter (fun t => t.id ≠ id) }

def advance (env : Surroundings) (s : Runner) : Runner :=
  { s with world := s.world.advance env.exchanges }

end Runner

/-- The trade an order is placed for. -/
def Caller.trade : Caller → Option TradeId
  | .entry => none
  | .monitor trade _ => some trade
  | .cleanup trade => some trade

/-- The steps by which the program gives up on a leg: an emergency close has failed, or a
market close of the monitor is refused. -/
def givesUp (caller : Caller) (op : BackendOp) (refused : Bool) : Bool :=
  match caller, op with
  | _, .alert (.closeFailed _) => true
  | .monitor .., .placeMarketOrder _ => refused
  | _, _ => false

/-- The fill that an answer tells of. -/
def sees : (op : BackendOp) → BackendOp.Ans op → Option (OrderId × ℚ)
  | .getOrderStatusDetailed _ id _ => fun answer =>
    answer.toOption.map (fun info => (id,info.filledQuantity))
  | _ => fun _ => none

/-- What the trades' passes know after an answer. -/
def note (caller : Caller) (told : Option (OrderId × ℚ)) (seen : TradeId → OrderId → ℚ) :
    TradeId → OrderId → ℚ :=
  match caller.trade, told with
  | some trade, some (id,x) => fun t i => if t = trade ∧ i = id then x else seen t i
  | _, _ => seen

open Runner in
/-- The runner's surroundings as a machine. It answers every request; one that is not `Unblocked`
waits for ever in the code. -/
def runner (env : Surroundings) : Machine runnerSig Runner where
  serve
    | .backend caller op, s =>
      let out := (exchanges env.exchanges).serve op s.world
      (out.1,{ s with
        world := out.2
        owner := fun i => if s.world.count ≤ i ∧ i < out.2.count then caller.trade else s.owner i
        seen := note caller (sees op out.1) s.seen
        gaveUp := s.gaveUp || givesUp caller op (env.exchanges s.world.tick).failure.isSome })
    | .tradeIds, s => (s.trades.map PaperTrade.id,s)
    | .find p, s => (s.trades.find? p,s)
    | .get id, s => (s.lookup id,s)
    | .hold id, s =>
      (s.lookup id,if (s.lookup id).isSome then { s with held := id :: s.held } else s)
    | .release id, s => ((),{ s with held := s.held.erase id })
    | .getMut id f, s => ((),s.update id f)
    | .insert trade, s => ((),s.put (env.slot s.world.tick) trade)
    | .remove id, s => ((),s.erase id)
    | .quotes pair long short, s => (env.quotes s.world.tick pair long short,s)
    | .tracker symbol, s => (s.trackers.lookup symbol,s)
    | .trackerMut symbol f, s =>
      ((),{ s with trackers := s.trackers.map (fun t => if t.1 = symbol then (t.1,f t.2) else t) })
    | .getFundingRates symbol, s => (env.funding s.world.tick symbol,s.advance env)
    | .getAvailableCapital, s => (s.portfolio.availableCapital,s.advance env)
    | .getStartingCapital, s => (s.portfolio.startingCapital,s.advance env)
    | .openTrade trade, s =>
      match s.portfolio.openTrade trade with
      | .error e => (.error e,s.advance env)
      | .ok portfolio =>
        ((World.answer (env.exchanges s.world.tick) ()).mapError .redis,
          { s.advance env with portfolio })
    | .closeTrade id actualProfit exitReason, s =>
      match s.portfolio.closeTrade id actualProfit exitReason (s.world.clock / 1000) with
      | none => (.ok (),s.advance env)
      | some portfolio =>
        ((World.answer (env.exchanges s.world.tick) ()).mapError .redis,
          { s.advance env with portfolio })
    | .resumeTrading, s => ((),
      { s with world := { s.world with halted := false }, gaveUp := false })
    | .backendName, s => (env.backendName,s)
    | .monitoring trade, s => ((),{ s with monitored := trade })

/-- The key whose shard of the map a request locks for writing. -/
def writes : RunnerOp → Option TradeId
  | .getMut id _ => some id
  | .insert trade => some trade.id
  | .remove id => some id
  | _ => none

/-- The request does not wait for a shard on which the task itself holds a `Ref`. -/
def Unblocked (shard : TradeId → Nat) (s : Runner) (op : RunnerOp) : Prop :=
  ∀ id ∈ writes op, ∀ h ∈ s.held, shard id ≠ shard h

instance (shard : TradeId → Nat) (s : Runner) (op : RunnerOp) : Decidable (Unblocked shard s op) :=
  inferInstanceAs (Decidable (∀ id ∈ writes op, ∀ h ∈ s.held, shard id ≠ shard h))

/-! The requests as the source writes them. -/

abbrev Run := Prog runnerSig

def backendCall (caller : Caller) (op : BackendOp) : Run (BackendOp.Ans op) :=
  .call (.backend caller op) .ret

/-- A program of the execution backend as a part of the runner. -/
def onBackend (caller : Caller) (p : Prog backend α) : Run α :=
  p.embed (τ := runnerSig) (fun op => .backend caller op) (fun _ r => r)

abbrev tradeIds : Run (List TradeId) := .call .tradeIds .ret

abbrev findTrade (p : PaperTrade → Bool) : Run (Option PaperTrade) := .call (.find p) .ret

abbrev getTrade (id : TradeId) : Run (Option PaperTrade) := .call (.get id) .ret

abbrev holdTrade (id : TradeId) : Run (Option PaperTrade) := .call (.hold id) .ret

abbrev releaseTrade (id : TradeId) : Run Unit := .call (.release id) .ret

abbrev getMutTrade (id : TradeId) (f : PaperTrade → PaperTrade) : Run Unit :=
  .call (.getMut id f) .ret

abbrev insertTrade (trade : PaperTrade) : Run Unit := .call (.insert trade) .ret

abbrev removeTrade (id : TradeId) : Run Unit := .call (.remove id) .ret

/-- Whether the execution backend trades for real. -/
def isRealTrading : Run Bool := do
  let name ← Prog.call (σ := runnerSig) .backendName .ret
  pure (name = "Demo" || name = "Live")

inductive PriceError where
  | noTrade (pair : String)
  | noAsk (pair exchange : String)
  | noBid (pair exchange : String)
  | invalid (pair : String) (ask bid : ℚ)

/-- `StrategyRunner::get_prices_from_store`. -/
def getPricesFromStore (pair longExchange shortExchange : String) :
    Run (Except PriceError (ℚ × ℚ)) := do
  match ← Prog.call (σ := runnerSig) (.quotes pair longExchange shortExchange) .ret with
  | (none,_) => pure (.error (.noAsk pair longExchange))
  | (some _,none) => pure (.error (.noBid pair shortExchange))
  | (some ask,some bid) =>
    if ask ≤ 0 || bid ≤ 0 then pure (.error (.invalid pair ask bid))
    else pure (.ok (ask,bid))

/-- `StrategyRunner::get_current_prices`. It takes the exchanges of the first trade of the
pair that it comes across. -/
def getCurrentPrices (pair : String) : Run (Except PriceError (ℚ × ℚ)) := do
  match ← findTrade (fun t => t.symbol = pair) with
  | none => pure (.error (.noTrade pair))
  | some trade => getPricesFromStore pair trade.longExchange trade.shortExchange

/-- `OpportunityScanner::calculate_spread_bps`. -/
def calculateSpreadBps (longPrice shortPrice : ℚ) : ℚ :=
  if longPrice = 0 then 0 else spreadBps longPrice shortPrice

/-- `StrategyRunner::get_exchange_taker_fee`, in basis points. -/
def getExchangeTakerFee (exchange : String) : ℚ :=
  match exchange.toLower with
  | "binance" => 4
  | "okx" => 5
  | "bybit" => 55/10
  | "bitget" => 6
  | "kucoin" => 6
  | "hyperliquid" => 45/10
  | "paradex" => 5
  | "gateio" => 6
  | _ => 6

end SpreadArb
