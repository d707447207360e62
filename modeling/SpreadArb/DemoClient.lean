import SpreadArb.Interact.Pool
import SpreadArb.ExchangeParser

namespace SpreadArb
open Interact Numeric

/-- A level of a demo exchange's book, with the numbers its texts stand for. -/
structure DemoLevel where
  price : F64
  quantity : F64

structure DemoDepth where
  bids : List DemoLevel
  asks : List DemoLevel
  timestamp : Nat

/-- A book in the cache. Instants are nanoseconds. -/
structure CachedOrderBook where
  depth : DemoDepth
  cachedAt : Nat

structure HttpResponse where
  status : String
  isSuccess : Bool
  text : String

inductive DemoError where
  /-- No response. -/
  | transport (text : String)
  /-- A body that is not JSON. -/
  | json (body : String)
  /-- The system clock stands before 1970. -/
  | beforeEpoch
  | message (text : String)

/-- `str::parse::<i64>`. -/
def parseI64 (cs : List Char) : Option Int :=
  let number (negative : Bool) (ds : List Char) : Option Int :=
    if ds ≠ [] && ds.all Char.isDigit then
      some (if negative then -F64.digitsValue ds else F64.digitsValue ds)
    else none
  (match cs with
    | '-' :: ds => number true ds
    | '+' :: ds => number false ds
    | ds => number false ds).filter (fun n => -2^63 ≤ n && n < 2^63)

/-- `Value::as_i64`, for a number that is written as an integer. -/
def Json.asI64 : Json → Option Int
  | .number text => if text = "-0" then none else parseI64 text.toList
  | _ => none

/-- What the demo clients wait for: the rate limiter, a response, the clocks, and the fields they
keep behind mutexes, each access in its own critical section. -/
inductive DemoOp where
  | acquire
  | get (url : String)
  | systemTime
  | lookupBook (symbol : String) (levels : Nat)
  | insertBook (symbol : String) (levels : Nat) (depth : DemoDepth)
  | lastSyncElapsed
  | readOffset
  | storeOffset (offset : Int)
  | storeLastSync

abbrev DemoOp.Ans : DemoOp → Type
  | .get _ => Except DemoError HttpResponse
  | .systemTime => Except DemoError Nat
  -- the depth that is kept, with its age
  | .lookupBook .. => Option (DemoDepth × Nat)
  | .lastSyncElapsed => Nat
  | .readOffset => Int
  | .acquire | .insertBook .. | .storeOffset _ | .storeLastSync => Unit

abbrev demoSig : Sig := ⟨DemoOp,DemoOp.Ans⟩

abbrev DemoM := ExceptT DemoError (Prog demoSig)

/-- What tells the two demo clients apart. -/
structure DemoApi where
  /-- The fields of an error, and how its text begins. -/
  code : String
  msg : String
  failed : String
  depthUrl : String → Nat → String
  /-- The number of levels asked for. -/
  limit : Nat → Nat
  /-- Where the two sides of a book are. -/
  book : Json → Except DemoError Json
  bids : String
  asks : String
  timeUrl : String
  serverTime : Json → Option Int
  /-- Whether the time request waits for the rate limiter. -/
  limited : Bool

namespace DemoClient

def orderBookCacheTtl : Nat := 100 * 10^6

def resyncAfter : Nat := 5 * 10^9

section Requests

def acquire : DemoM Unit := liftM (Prog.call (σ := demoSig) .acquire .ret)

/-- `send().await?` and `text().await?`. -/
def get (url : String) : DemoM HttpResponse := Prog.call (σ := demoSig) (.get url) .ret

/-- Milliseconds since 1970. -/
def systemTime : DemoM Nat := Prog.call (σ := demoSig) .systemTime .ret

def lookupBook (symbol : String) (levels : Nat) : DemoM (Option (DemoDepth × Nat)) :=
  liftM (Prog.call (σ := demoSig) (.lookupBook symbol levels) .ret)

def insertBook (symbol : String) (levels : Nat) (depth : DemoDepth) : DemoM Unit :=
  liftM (Prog.call (σ := demoSig) (.insertBook symbol levels depth) .ret)

def lastSyncElapsed : DemoM Nat := liftM (Prog.call (σ := demoSig) .lastSyncElapsed .ret)

def readOffset : DemoM Int := liftM (Prog.call (σ := demoSig) .readOffset .ret)

def storeOffset (offset : Int) : DemoM Unit :=
  liftM (Prog.call (σ := demoSig) (.storeOffset offset) .ret)

def storeLastSync : DemoM Unit := liftM (Prog.call (σ := demoSig) .storeLastSync .ret)

end Requests

variable (api : DemoApi) (lib : Library)

def decode (text : String) : Except DemoError Json :=
  match lib.fromStr text with
  | some json => .ok json
  | none => .error (.json text)

section Books

/-- A level of two texts that are numbers; others are passed over. -/
def parseLevel (level : Json) : Option DemoLevel := do
  let arr ← level.asArray
  let price ← F64.parse (← (← arr[0]?).asStr).toList
  let quantity ← F64.parse (← (← arr[1]?).asStr).toList
  return ⟨price,quantity⟩

def parseSide (levels : Nat) (missing key : String) (json : Json) :
    Except DemoError (List DemoLevel) :=
  match (json.get key).bind Json.asArray with
  | some items => .ok ((items.take levels).filterMap parseLevel)
  | none => .error (.message missing)

/-- An error of the exchange's in the body of a response. -/
def apiError (json : Json) : Option DemoError :=
  match (json.get api.code).bind Json.asI64 with
  | some code =>
    if code ≠ 0 then
      some (.message (api.failed ++ (((json.get api.msg).bind Json.asStr).getD "Unknown error")))
    else none
  | none => none

/-- The two sides of the book in a response. -/
def parseBook (levels : Nat) (response : HttpResponse) :
    Except DemoError (List DemoLevel × List DemoLevel) := do
  if !response.isSuccess then
    throw (.message s!"HTTP {response.status}: {response.text}")
  let json ← decode lib response.text
  if let some e := apiError api json then throw e
  let book ← api.book json
  let bids ← parseSide levels "Missing bids in response" api.bids book
  let asks ← parseSide levels "Missing asks in response" api.asks book
  return (bids,asks)

/-- The part of `get_order_book_depth` after a miss. -/
def fetchOrderBookDepth (symbol : String) (levels : Nat) : DemoM DemoDepth := do
  let response ← get (api.depthUrl symbol (api.limit levels))
  let (bids,asks) ← (parseBook api lib levels response : DemoM _)
  let timestamp ← systemTime
  let depth : DemoDepth := ⟨bids,asks,timestamp⟩
  insertBook symbol levels depth
  return depth

/-- `get_order_book_depth`. -/
def getOrderBookDepth (symbol : String) (levels : Nat) : DemoM DemoDepth := do
  match ← lookupBook symbol levels with
  | some (depth,age) =>
    if age < orderBookCacheTtl then return depth else fetchOrderBookDepth api lib symbol levels
  | none => fetchOrderBookDepth api lib symbol levels

/-- The price at the top of a side. -/
def topPrice (missing : String) (side : List DemoLevel) : Except DemoError F64 :=
  match side.head? with
  | some level => .ok level.price
  | none => .error (.message missing)

/-- `get_best_bid`. -/
def getBestBid (symbol : String) : DemoM F64 := do
  let depth ← getOrderBookDepth api lib symbol 5
  (topPrice "No bids available in order book" depth.bids : DemoM F64)

/-- `get_best_ask`. -/
def getBestAsk (symbol : String) : DemoM F64 := do
  let depth ← getOrderBookDepth api lib symbol 5
  (topPrice "No asks available in order book" depth.asks : DemoM F64)

end Books

section Clock

/-- The request for the server's time: `rate_limited_get`, or a plain one. -/
def getServerTime : DemoM HttpResponse :=
  if api.limited then do
    acquire
    get api.timeUrl
  else get api.timeUrl

/-- `sync_server_time`. -/
def syncServerTime : DemoM Unit := do
  let localTimeBefore ← systemTime
  let response ← getServerTime api
  let json ← (decode lib response.text : DemoM Json)
  let localTimeAfter ← systemTime
  match api.serverTime json with
  | none => throw (.message "Failed to extract server time")
  | some serverTime =>
    let localTimeAvg := (localTimeBefore+localTimeAfter) / 2
    storeOffset (serverTime - (localTimeAvg : Int))
    storeLastSync

/-- A sync whose failure is only printed. -/
def resync : DemoM Unit := do
  let _ ← (liftM (syncServerTime api lib : Prog demoSig (Except DemoError Unit)) : DemoM
      (Except DemoError Unit))
  return ()

/-- `get_timestamp`. -/
def getTimestamp : DemoM String := do
  let elapsed ← lastSyncElapsed
  if elapsed > resyncAfter then resync api lib
  let localTime ← systemTime
  let offset ← readOffset
  return toString (localTime + offset : Int)

end Clock

end DemoClient

/-- The demo client of Binance futures. -/
def binanceDemo : DemoApi where
  code := "code"
  msg := "msg"
  failed := "Binance API error: "
  depthUrl := fun symbol limit =>
    s!"https://testnet.binancefuture.com/fapi/v1/depth?symbol={symbol}&limit={limit}"
  limit := fun levels =>
    if levels ≤ 5 then 5 else if levels ≤ 10 then 10 else if levels ≤ 20 then 20
      else if levels ≤ 50 then 50
    else if levels ≤ 100 then 100 else if levels ≤ 500 then 500 else 1000
  book := .ok
  bids := "bids"
  asks := "asks"
  timeUrl := "https://testnet.binancefuture.com/fapi/v1/time"
  serverTime := fun json => (json.get "serverTime").bind Json.asI64
  limited := true

/-- The demo client of Bybit. -/
def bybitDemo : DemoApi where
  code := "retCode"
  msg := "retMsg"
  failed := "Bybit API error: "
  depthUrl := fun symbol limit =>
    s!"https://api-demo.bybit.com/v5/market/orderbook?category=linear&symbol={symbol}&limit={limit}"
  limit := fun levels =>
    if levels ≤ 1 then 1 else if levels ≤ 25 then 25 else if levels ≤ 50 then 50
      else if levels ≤ 100 then 100 else 200
  book := fun json =>
    match json.get "result" with
    | some result => .ok result
    | none => .error (.message "Missing result in response")
  bids := "b"
  asks := "a"
  timeUrl := "https://api-demo.bybit.com/v5/market/time"
  serverTime := fun json =>
    let number (key : String) : Option Int :=
      ((json.path ["result",key]).bind Json.asStr).bind (fun text => parseI64 text.toList)
    ((number "timeNano").map (fun nano => nano.tdiv 1000000)).or
      ((number "timeSecond").map (· * 1000))
  limited := false

/-- What the surroundings do up to and at a request: the time that passes, and the response to
it. -/
structure DemoMove where
  delay : Nat := 0
  response : Except DemoError HttpResponse := .error (.transport "")

/-- The surroundings of a client: their moves, and the system clock of the host in milliseconds
since 1970 at each instant. -/
structure DemoEnv where
  move : Nat → DemoMove
  systemClock : Nat → Int

/-- A request that was served. -/
structure DemoServed where
  caller : Nat
  instant : Nat
  op : DemoOp
  ans : op.Ans

/-- A client's state with the time. What was served so far is not kept by the code. -/
structure DemoWorld where
  tick : Nat
  now : Nat
  books : String → Nat → Option CachedOrderBook
  timeOffset : Int
  lastSync : Nat
  history : List DemoServed

namespace DemoWorld

/-- `BinanceDemoClient::new`, `BybitDemoClient::new`. -/
def new (now : Nat) : DemoWorld := ⟨0,now,fun _ _ => none,0,now,[]⟩

/-- The time up to the next request passes. -/
def wait (env : DemoEnv) (w : DemoWorld) : DemoWorld :=
  { w with now := w.now + (env.move w.tick).delay }

/-- What a request answers and changes. -/
def answer (env : DemoEnv) (w : DemoWorld) : (op : DemoOp) → op.Ans × DemoWorld
  | .acquire => ((),w)
  | .get _ => ((env.move w.tick).response,w)
  | .systemTime =>
    (if 0 ≤ env.systemClock w.now then .ok (env.systemClock w.now).toNat else .error .beforeEpoch,w)
  | .lookupBook symbol levels =>
    ((w.books symbol levels).map (fun cached => (cached.depth,w.now - cached.cachedAt)),w)
  | .insertBook symbol levels depth =>
    ((),{ w with books := fun s l => if s = symbol ∧ l = levels then some ⟨depth,
      w.now⟩ else w.books s l })
  | .lastSyncElapsed => (w.now - w.lastSync,w)
  | .readOffset => (w.timeOffset,w)
  | .storeOffset offset => ((),{ w with timeOffset := offset })
  | .storeLastSync => ((),{ w with lastSync := w.now })

/-- A request of a call is served. -/
def serve (env : DemoEnv) (caller : Nat) (op : DemoOp) (w : DemoWorld) : op.Ans × DemoWorld :=
  let out := (w.wait env).answer env op
  (out.1,{ out.2 with
    tick := w.tick+1
    history := w.history ++ [⟨caller,(w.wait env).now,op,out.1⟩] })

end DemoWorld

/-- The methods of a demo client that use the caches and the clocks. -/
inductive DemoCall where
  | syncServerTime
  | getTimestamp
  | getOrderBookDepth (symbol : String) (levels : Nat)
  | getBestBid (symbol : String)
  | getBestAsk (symbol : String)

inductive DemoReply where
  | synced
  | timestamp (text : String)
  | depth (depth : DemoDepth)
  | price (price : F64)

namespace DemoClient

def body (api : DemoApi) (lib : Library) : DemoCall → Prog demoSig (Except DemoError DemoReply)
  | .syncServerTime => (do DemoClient.syncServerTime api lib; return .synced : DemoM DemoReply)
  | .getTimestamp => (return .timestamp (← DemoClient.getTimestamp api lib) : DemoM DemoReply)
  | .getOrderBookDepth symbol levels =>
    (return .depth (← DemoClient.getOrderBookDepth api lib symbol levels) : DemoM DemoReply)
  | .getBestBid symbol => (return .price (← DemoClient.getBestBid api lib symbol) : DemoM DemoReply)
  | .getBestAsk symbol => (return .price (← DemoClient.getBestAsk api lib symbol) : DemoM DemoReply)

/-- The calls of any number of tasks on one client. -/
abbrev Calls := Pool DemoCall demoSig DemoWorld (Except DemoError DemoReply)

def machine (env : DemoEnv) (caller : Nat) : Machine demoSig DemoWorld :=
  ⟨DemoWorld.serve env caller⟩

/-- What the calls come to on a client that was made at this instant, in the order of their
steps. -/
def run (api : DemoApi) (lib : Library) (env : DemoEnv) (start : Nat)
    (acts : List (Act DemoCall)) : Calls :=
  Pool.run (machine env) (body api lib) ⟨.new start,[]⟩ acts

section Serve

variable {env : DemoEnv} {w : DemoWorld} {n : Nat} {op : DemoOp}

theorem serve_history : ((machine env n).serve op w).2.history =
    w.history ++ [⟨n,w.now + (env.move w.tick).delay,op,((machine env n).serve op w).1⟩] := by
  cases op <;> rfl

theorem serve_now : ((machine env n).serve op w).2.now = w.now + (env.move w.tick).delay := by
  cases op <;> rfl

theorem serve_books (h : ∀ s l d, op ≠ .insertBook s l d) :
    ((machine env n).serve op w).2.books = w.books := by
  cases op with
  | insertBook s l d => exact absurd rfl (h s l d)
  | _ => rfl

theorem serve_offset (h : ∀ offset, op ≠ .storeOffset offset) :
    ((machine env n).serve op w).2.timeOffset = w.timeOffset := by
  cases op with
  | storeOffset offset => exact absurd rfl (h offset)
  | _ => rfl

end Serve

end DemoClient

end SpreadArb
