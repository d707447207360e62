import SpreadArb.Workers
import SpreadArb.Interact.Steps

namespace SpreadArb

/-- A channel that an exchange is asked for, of one instrument or of none. -/
structure Topic where
  channel : String
  instrument : Option String
deriving DecidableEq

/-- A message of a worker to the exchange, and how long it sleeps afterwards. -/
structure Subscribe where
  topics : List Topic
  sleepMs : Nat
deriving DecidableEq

/-- The messages with which a worker begins a session. -/
abbrev SessionPlan := List Subscribe

def SessionPlan.topics (opening : SessionPlan) : List Topic := opening.flatMap Subscribe.topics

namespace Subscriptions

section Lists

/-- `slice::chunks`. -/
def slices (size : Nat) : List α → List (List α)
  | [] => []
  | a :: items => (a :: items.take (size-1)) :: slices size (items.drop (size-1))
termination_by items => items.length

/-- `sort` and `dedup`. -/
def sortDedup (names : List String) : List String := dedup (names.mergeSort (fun a b => a ≤ b))

def topicsOf (channel : String) (instruments : List String) : List Topic :=
  instruments.map (fun instrument => ⟨channel,some instrument⟩)

end Lists

section Bybit

structure InstrumentInfo where
  symbol : String
  status : String
  quoteCoin : Option String

structure InstrumentsInfoResponse where
  retCode : Int
  /-- The list and the cursor. -/
  result : Option (List InstrumentInfo × Option String)

/-- The loop of `fetch_valid_linear_symbols`, for the pages as they come. -/
def collectPages (symbols : List String) : List InstrumentsInfoResponse → Option (List String)
  | [] => none
  | page :: pages =>
    if page.retCode ≠ 0 then none
    else match page.result with
      | none => some symbols
      | some (list,nextPageCursor) =>
        let valid := list.filter (fun i => i.status = "Trading" && i.quoteCoin = some "USDT")
        let symbols := symbols ++ valid.map InstrumentInfo.symbol
        match nextPageCursor.filter (fun c => c ≠ "") with
        | none => some symbols
        | some _ => collectPages symbols pages

def fetchValidLinearSymbols (pages : List InstrumentsInfoResponse) : Option (List String) :=
  (collectPages [] pages).map sortDedup

/-- `run_bybit_linear_ws_batch`, up to its loop. -/
def bybitOpening (topics : List Topic) : SessionPlan :=
  (slices 10 topics).map (fun chunk => ⟨chunk,100⟩)

/-- The batches of `BybitLinearConnector::run`. -/
def bybitBatches (bits : Nat) (symbols : List String) : Option (List (List Topic)) :=
  chunkVec bits (topicsOf "tickers" symbols ++ topicsOf "funding" symbols) 100

end Bybit

section Bitget

structure BitgetContract where
  symbol : String
  quoteCoin : String
  symbolType : String
  symbolStatus : String

structure BitgetResponse where
  code : String
  data : List BitgetContract

def fetchBitgetSymbols (resp : BitgetResponse) : Option (List String) :=
  if resp.code ≠ "00000" then none
  else
    let valid := resp.data.filter
      (fun c => c.quoteCoin = "USDT" && c.symbolType = "perpetual" && c.symbolStatus = "normal")
    some (sortDedup (valid.map BitgetContract.symbol))

/-- `run_bitget_ws_batch`, up to its loop. -/
def bitgetOpening (symbols : List String) : SessionPlan :=
  (slices 20 symbols).flatMap
    (fun chunk => [⟨topicsOf "ticker" chunk,100⟩,⟨topicsOf "books5" chunk,100⟩])

end Bitget

section Kucoin

structure ContractInfo where
  symbol : String
  status : String
  quoteCurrency : String
  settleCurrency : String

structure KucoinApiResponse where
  code : String
  data : List ContractInfo

def fetchValidContractSymbols (resp : KucoinApiResponse) : Option (List String) :=
  if resp.code ≠ "200000" then none
  else
    let valid := resp.data.filter
      (fun c => c.status = "Open" && c.quoteCurrency = "USDT" && c.settleCurrency = "USDT")
    some (sortDedup (valid.map ContractInfo.symbol))

/-- `run_ws_batch` of KuCoin, up to its loop. -/
def kucoinOpening (symbols : List String) : SessionPlan :=
  (slices 20 symbols).flatMap (fun chunk =>
    [⟨topicsOf "/contractMarket/tickerV2" chunk,50⟩,⟨topicsOf "/contractMarket/level2" chunk,50⟩,
      ⟨topicsOf "/contract/instrument" chunk,50⟩]) ++ [⟨[⟨"/contract/announcement",none⟩],0⟩]

end Kucoin

section Okx

structure OkxInstrument where
  instId : String
  state : String
  settleCcy : String

structure OkxResponse where
  code : String
  data : List OkxInstrument

def fetchValidUsdtSwapInstruments (resp : OkxResponse) : Option (List String) :=
  if resp.code ≠ "0" then none
  else
    let valid := resp.data.filter (fun i => i.state = "live" && i.settleCcy = "USDT")
    some (sortDedup (valid.map OkxInstrument.instId))

/-- `run_okx_ws_batch`, up to its loop. -/
def okxOpening (instIds : List String) : SessionPlan :=
  (slices 25 instIds).flatMap (fun chunk =>
    [⟨topicsOf "tickers" chunk,50⟩,⟨topicsOf "funding-rate" chunk,50⟩,⟨topicsOf "books5" chunk,50⟩])

end Okx

section Hyperliquid

/-- `run_batch` of Hyperliquid, up to its loop. -/
def hyperliquidOpening (coins : List String) : SessionPlan :=
  coins.flatMap (fun coin => [⟨topicsOf "activeAssetCtx" [coin],0⟩,⟨topicsOf "bbo" [coin],20⟩])

end Hyperliquid

section Paradex

structure ParadexMarket where
  symbol : String
  assetKind : String
  quoteCurrency : String

def fetchPerpMarkets (results : List ParadexMarket) : List String :=
  let valid := results.filter (fun m => m.assetKind = "PERP" && m.quoteCurrency = "USD")
  sortDedup (valid.map ParadexMarket.symbol)

/-- `run_batch` of Paradex, up to its loop. -/
def paradexOpening (markets : List String) : SessionPlan :=
  markets.flatMap (fun market =>
    [⟨topicsOf "bbo" [market],0⟩,⟨topicsOf "funding_data" [market],30⟩])

end Paradex

end Subscriptions

open Subscriptions

/-- What the exchanges that `main` connects to answer when they are asked for their instruments. -/
inductive Listing where
  | bybit (pages : List InstrumentsInfoResponse)
  | bitget (resp : BitgetResponse)
  | kucoin (resp : KucoinApiResponse)
  | okx (resp : OkxResponse)
  | hyperliquid (names : List String)
  | paradex (results : List ParadexMarket)

namespace Listing

/-- The instruments that are subscribed to. -/
def instruments : Listing → Option (List String)
  | .bybit pages => fetchValidLinearSymbols pages
  | .bitget resp => fetchBitgetSymbols resp
  | .kucoin resp => fetchValidContractSymbols resp
  | .okx resp => fetchValidUsdtSwapInstruments resp
  | .hyperliquid names => some (fetchPerpCoins names)
  | .paradex results => some (fetchPerpMarkets results)

/-- The channels that are asked for an instrument. -/
def channels : Listing → List String
  | .bybit _ => ["tickers","funding"]
  | .bitget _ => ["ticker","books5"]
  | .kucoin _ => ["/contractMarket/tickerV2","/contractMarket/level2","/contract/instrument"]
  | .okx _ => ["tickers","funding-rate","books5"]
  | .hyperliquid _ => ["activeAssetCtx","bbo"]
  | .paradex _ => ["bbo","funding_data"]

/-- The sessions of the workers that a connector's `run` starts for these instruments. -/
def openings (bits : Nat) (listing : Listing) (instruments : List String) :
    Option (List SessionPlan) :=
  match listing with
  | .bybit _ => (bybitBatches bits instruments).map (·.map bybitOpening)
  | .bitget _ => (chunkVec bits instruments 40).map (·.map bitgetOpening)
  | .kucoin _ => (chunkVec bits instruments 50).map (·.map kucoinOpening)
  | .okx _ => (chunkVec bits instruments 80).map (·.map okxOpening)
  | .hyperliquid _ => (chunkVec bits instruments coinsPerConnection).map (·.map hyperliquidOpening)
  | .paradex _ => (chunkVec bits instruments 15).map (·.map paradexOpening)

end Listing

/-- `utils::apply_backoff`: the sleep, and the backoff after it. -/
def applyBackoff (backoffMs : Nat) : Nat × Nat :=
  if 0 < backoffMs then (backoffMs,min (backoffMs*2) 10000) else (0,250)

inductive WorkerPhase where
  | connecting
  | subscribing (messages : List Subscribe)
  | reading
deriving DecidableEq

/-- A websocket worker. Instants are nanoseconds. -/
structure WsWorker where
  opening : SessionPlan
  phase : WorkerPhase
  wakeAt : Nat
  backoffMs : Nat
  /-- What the exchange sends on the worker's connection. -/
  subscribed : List Topic

/-- How the next thing goes that a worker waits for. -/
inductive Going where
  | well
  | closed
  | failed

namespace WsWorker

def ms (n : Nat) : Nat := n * 1000000

/-- `run` spawns the worker. -/
def new (opening : SessionPlan) : WsWorker :=
  { opening
    phase := .connecting
    wakeAt := 0
    backoffMs := 0
    subscribed := [] }

/-- The session is over, with an error or without one. -/
def hangUp (failed : Bool) (now : Nat) (w : WsWorker) : WsWorker :=
  let (sleep,backoffMs) := if failed then applyBackoff w.backoffMs else (0,0)
  { w with
    phase := .connecting
    wakeAt := now + ms sleep
    backoffMs
    subscribed := [] }

/-- The worker's next step, when it does not sleep. -/
def turn (now : Nat) (going : Going) (w : WsWorker) : WsWorker :=
  match w.phase with
  | .connecting =>
    match going with
    | .well => { w with phase := .subscribing w.opening }
    | .closed | .failed => w.hangUp true now
  | .subscribing [] => { w with phase := .reading }
  | .subscribing (message :: messages) =>
    match going with
    | .well =>
      { w with
        phase := .subscribing messages
        subscribed := w.subscribed ++ message.topics
        wakeAt := now + ms message.sleepMs }
    | .closed | .failed => w.hangUp true now
  | .reading =>
    match going with
    | .well => w
    | .closed => w.hangUp false now
    | .failed => w.hangUp true now

def step (now : Nat) (going : Going) (w : WsWorker) : WsWorker :=
  if now < w.wakeAt then w else w.turn now going

end WsWorker

/-- The workers of a connector. -/
structure Crew where
  now : Nat
  workers : List WsWorker

inductive CrewAct where
  | pass (ns : Nat)
  | worker (workerId : Nat) (going : Going)

namespace Crew

def new (openings : List SessionPlan) : Crew := ⟨0,openings.map .new⟩

def step (crew : Crew) : CrewAct → Crew
  | .pass ns => { crew with now := crew.now+ns }
  | .worker workerId going =>
    { crew with workers := crew.workers.modify workerId (·.step crew.now going) }

def run (openings : List SessionPlan) (acts : List CrewAct) : Crew := acts.foldl step (new openings)

/-- How often the exchange is sending this to the workers. -/
def streams (crew : Crew) (topic : Topic) : Nat :=
  (crew.workers.map (fun w => w.subscribed.count topic)).sum

end Crew

end SpreadArb
