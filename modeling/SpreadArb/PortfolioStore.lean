import SpreadArb.Interact.Pool
import SpreadArb.Portfolio

namespace SpreadArb
open Interact

/-- A ratio that is no number is `null` in JSON. -/
structure PortfolioMetrics where
  totalTrades : Nat
  winRate : ℚ
  cumulativePnl : ℚ
  pnlPercentage : Option ℚ
  availableCapital : ℚ
  utilizationPct : Option ℚ
  legOutCount : Nat
  legOutLossPct : ℚ
  realisticApr : Option ℚ

namespace PortfolioState

/-- The quotient of two doubles, if it is a number. -/
def quotient (a b : ℚ) : Option ℚ := if b = 0 then none else some (a / b)

/-- `get_portfolio_metrics`, so many seconds after the start. -/
def getPortfolioMetrics (s : PortfolioState) (elapsed : Nat) : PortfolioMetrics :=
  let totalTrades := s.winCount + s.lossCount
  let daysElapsed : ℚ := elapsed / 86400
  { totalTrades
    winRate := if totalTrades > 0 then (s.winCount : ℚ) / totalTrades * 100 else 0
    cumulativePnl := s.cumulativePnl
    pnlPercentage := (quotient s.cumulativePnl s.startingCapital).map (· * 100)
    availableCapital := s.availableCapital
    utilizationPct := (quotient s.totalOpenPositions s.startingCapital).map (· * 100)
    legOutCount := s.legOutCount
    legOutLossPct := if s.cumulativePnl ≠ 0 then s.legOutTotalLoss / |s.cumulativePnl| * 100 else 0
    realisticApr :=
      if daysElapsed > 0 then
        (quotient s.cumulativePnl s.startingCapital).map (fun gain =>
          gain / (daysElapsed / 365) * 100)
      else some 0 }

end PortfolioState

/-- The texts that the programs put into Redis, by what they were made from. -/
inductive Stored where
  | state (s : PortfolioState)
  | metrics (m : PortfolioMetrics)
  | other (text : String)

inductive TradeLogEntry where
  | entry (trade : PaperTrade)
  | exit (trade : PaperTrade) (exitReason : ExitReason)

/-- The commands to Redis, and the system clock in seconds. -/
inductive StoreOp where
  | del (keys : List String)
  | set (key : String) (value : Stored)
  | lpush (key : String) (entry : TradeLogEntry)
  | get (key : String)
  | systemTime

abbrev StoreOp.Ans : StoreOp → Type
  | .del _ | .set .. | .lpush .. => Except String Unit
  | .get _ => Except String Stored
  | .systemTime => Nat

abbrev storeSig : Sig := ⟨StoreOp,StoreOp.Ans⟩

abbrev StoreM := ExceptT String (Prog storeSig)

namespace Store

def del (keys : List String) : StoreM Unit := Prog.call (σ := storeSig) (.del keys) .ret

def set (key : String) (value : Stored) : StoreM Unit :=
  Prog.call (σ := storeSig) (.set key value) .ret

def lpush (key : String) (entry : TradeLogEntry) : StoreM Unit :=
  Prog.call (σ := storeSig) (.lpush key entry) .ret

def get (key : String) : Prog storeSig (Except String Stored) := .call (.get key) .ret

def systemTime : Prog storeSig Nat := .call .systemTime .ret

end Store

def stateKey (redisPrefix : String) : String := "strategy:" ++ redisPrefix ++ ":portfolio:state"

def metricsKey (redisPrefix : String) : String := "strategy:" ++ redisPrefix ++ ":portfolio:metrics"

/-- The state behind the lock, with what the manager was made with. -/
structure PortfolioManager where
  redisPrefix : String
  startTime : Nat
  state : PortfolioState

/-- A call of a manager's. -/
inductive ManagerCall where
  | openTrade (trade : PaperTrade)
  | closeTrade (id : TradeId) (actualProfit : ℚ) (exitReason : ExitReason)

namespace PortfolioManager
open Store

def persistState (m : PortfolioManager) : StoreM Unit := do
  set (stateKey m.redisPrefix) (.state m.state)
  let secs ← (liftM systemTime : StoreM Nat)
  set (metricsKey m.redisPrefix) (.metrics (m.state.getPortfolioMetrics (secs - m.startTime)))

def logTradeEntry (trade : PaperTrade) : StoreM Unit :=
  lpush "strategy:trade_log:entries" (.entry trade)

def logTradeExit (trade : PaperTrade) (exitReason : ExitReason) : StoreM Unit :=
  lpush "strategy:trade_log:exits" (.exit trade exitReason)

/-- `PortfolioManager::new`. What an earlier manager has left in Redis is deleted. -/
def new (redisPrefix : String) (startingCapital : ℚ) : StoreM PortfolioManager := do
  let startTime ← (liftM systemTime : StoreM Nat)
  let manager : PortfolioManager := ⟨redisPrefix,startTime,.new startingCapital⟩
  del [stateKey redisPrefix,metricsKey redisPrefix]
  persistState manager
  return manager

/-- The end of a call that has changed the state: what it does to Redis decides its result. -/
def tell (m : PortfolioManager) (log : StoreM Unit) :
    Prog storeSig (Except PortfolioError Unit × PortfolioManager) := do
  let told ← (do log; persistState m : StoreM Unit).run
  return (told.mapError .redis,m)

def openTrade (m : PortfolioManager) (trade : PaperTrade) :
    Prog storeSig (Except PortfolioError Unit × PortfolioManager) :=
  match m.state.openTrade trade with
  | .error e => return (.error e,m)
  | .ok state => tell { m with state } (logTradeEntry trade)

/-- The part of `close_trade` after the look at the clock. -/
def closeTradeAt (m : PortfolioManager) (id : TradeId) (actualProfit : ℚ) (exitReason : ExitReason)
    (exitTime : Nat) : Prog storeSig (Except PortfolioError Unit × PortfolioManager) :=
  match m.state.closeTrade id actualProfit exitReason exitTime,
    m.state.activeTrades.find? (fun t => t.id = id) with
  | some state, some trade =>
    let closed := { trade with
      actualProfitUsd := actualProfit
      exitReason := some exitReason
      status := .closed
      exitTime := some exitTime }
    tell { m with state } (logTradeExit closed exitReason)
  | _, _ => return (.ok (),m)

def closeTrade (m : PortfolioManager) (id : TradeId) (actualProfit : ℚ) (exitReason : ExitReason) :
    Prog storeSig (Except PortfolioError Unit × PortfolioManager) := do
  let exitTime ← systemTime
  m.closeTradeAt id actualProfit exitReason exitTime

def call (m : PortfolioManager) :
    ManagerCall → Prog storeSig (Except PortfolioError Unit × PortfolioManager)
  | .openTrade trade => m.openTrade trade
  | .closeTrade id actualProfit exitReason => m.closeTrade id actualProfit exitReason

/-- One call after another, with their results. -/
def calls (m : PortfolioManager) : List ManagerCall →
    Prog storeSig (List (Except PortfolioError Unit) × PortfolioManager)
  | [] => return ([],m)
  | c :: rest => do
    let (result,m) ← m.call c
    let (results,m) ← m.calls rest
    return (result :: results,m)

end PortfolioManager

/-- What the trading monitor shows, without the trades' current prices. -/
structure AppState where
  metrics : Option PortfolioMetrics
  state : Option PortfolioState

/-- The two answers of an update of the monitor. -/
structure Reads where
  metrics : Except String Stored
  state : Except String Stored

namespace TradingMonitor

/-- `serde_json::from_str::<PortfolioMetrics>` of the monitor's own record: every number must be
there, and the counts have 32 bits. -/
def readMetrics : Stored → Option PortfolioMetrics
  | .metrics m =>
    if m.totalTrades < 2^32 && m.legOutCount < 2^32 && m.pnlPercentage.isSome &&
      m.utilizationPct.isSome &&
      m.realisticApr.isSome then some m else none
  | _ => none

/-- `serde_json::from_str::<PortfolioState>` of the monitor's own record. -/
def readState : Stored → Option PortfolioState
  | .state s => if s.winCount < 2^32 && s.lossCount < 2^32 && s.legOutCount < 2^32 then
    some s else none
  | _ => none

/-- The two requests of `update_from_redis`. -/
def reads (redisPrefix : String) : Prog storeSig Reads := do
  let metrics ← Store.get (metricsKey redisPrefix)
  let state ← Store.get (stateKey redisPrefix)
  return ⟨metrics,state⟩

/-- The answers to so many updates. -/
def watch (redisPrefix : String) : Nat → Prog storeSig (List Reads)
  | 0 => return []
  | turns+1 => do
    let first ← reads redisPrefix
    let rest ← watch redisPrefix turns
    return first :: rest

end TradingMonitor

/-- `update_from_redis`, with what Redis answered. Without an answer the old value stays, with an
unreadable one there is none. -/
def AppState.updateFromRedis (app : AppState) (reads : Reads) : AppState where
  metrics :=
    match reads.metrics with
    | .ok json => TradingMonitor.readMetrics json
    | .error _ => app.metrics
  state :=
    match reads.state with
    | .ok json => TradingMonitor.readState json
    | .error _ => app.state

/-- What the monitor shows after these updates. -/
def AppState.after (answers : List Reads) : AppState :=
  answers.foldl AppState.updateFromRedis ⟨none,none⟩

/-- The programs on one Redis. -/
inductive StoreProcess where
  | manager (redisPrefix : String) (startingCapital : ℚ) (calls : List ManagerCall)
  | monitor (redisPrefix : String) (turns : Nat)

inductive StoreResult where
  | stopped (e : String)
  | managed (results : List (Except PortfolioError Unit)) (manager : PortfolioManager)
  | watched (answers : List Reads)

def StoreProcess.body : StoreProcess → Prog storeSig StoreResult
  | .manager redisPrefix startingCapital calls => do
    match ← (PortfolioManager.new redisPrefix startingCapital).run with
    | .error e => return .stopped e
    | .ok m =>
      let (results,m) ← m.calls calls
      return .managed results m
  | .monitor redisPrefix turns => do
    let answers ← TradingMonitor.watch redisPrefix turns
    return .watched answers

/-- What becomes of a command. One that fails may have been carried out all the same. -/
structure StoreMove where
  secs : Nat := 0
  failure : Option String := none
  lost : Bool := false

/-- Redis with the states that its strings have had, the present one last. The code does not keep
those. -/
structure StoreWorld where
  tick : Nat
  strings : String → Option Stored
  lists : String → List TradeLogEntry
  past : List (String → Option Stored)

namespace StoreWorld

def new (strings : String → Option Stored) : StoreWorld := ⟨0,strings,fun _ => [],[strings]⟩

def reply (move : StoreMove) (a : α) : Except String α :=
  match move.failure with
  | some e => .error e
  | none => .ok a

def carriedOut (move : StoreMove) : Bool := move.failure.isNone || !move.lost

/-- The strings after a command that may be carried out. -/
def written (move : StoreMove) (strings : String → Option Stored) : StoreOp → String → Option Stored
  | .del keys => fun k => if carriedOut move && keys.contains k then none else strings k
  | .set key value => fun k => if carriedOut move && k = key then some value else strings k
  | _ => strings

/-- A key that is not there answers `nil`, which is no text. -/
def answer (move : StoreMove) (strings : String → Option Stored) : (op : StoreOp) → op.Ans
  | .del _ | .set .. | .lpush .. => reply move ()
  | .get key =>
    match strings key with
    | some value => reply move value
    | none => .error "nil"
  | .systemTime => move.secs

def serve (env : Nat → StoreMove) (op : StoreOp) (w : StoreWorld) : op.Ans × StoreWorld :=
  (answer (env w.tick) w.strings op,{
    tick := w.tick+1
    strings := written (env w.tick) w.strings op
    lists :=
      match op with
      | .lpush key entry =>
        fun k => if carriedOut (env w.tick) && k = key then entry :: w.lists k else w.lists k
      | _ => w.lists
    past := w.past ++ [written (env w.tick) w.strings op] })

end StoreWorld

/-- Any number of programs on one Redis. -/
abbrev Desk := Pool StoreProcess storeSig StoreWorld StoreResult

namespace Desk

def machine (env : Nat → StoreMove) (_ : Nat) : Machine storeSig StoreWorld :=
  ⟨StoreWorld.serve env⟩

/-- What the programs come to, on a Redis that may hold something already. -/
def run (env : Nat → StoreMove) (strings : String → Option Stored)
    (acts : List (Act StoreProcess)) : Desk :=
  Pool.run (machine env) StoreProcess.body ⟨.new strings,[]⟩ acts

end Desk

end SpreadArb
