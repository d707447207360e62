import SpreadArb.Interact.Served
import SpreadArb.DemoClient
import SpreadArb.OrderTexts

namespace SpreadArb
open Interact Numeric

/-- A `SimulatedOrder` with the id text of an exchange, and with its doubles. -/
structure DemoOrder where
  id : String
  exchange : String
  symbol : String
  side : OrderSide
  orderType : OrderType
  price : F64
  size : F64
  queuePosition : Option QueuePosition
  createdAt : Nat
  filledAt : Option Nat
  fillPrice : Option F64
  status : OrderStatus

/-- What `exchangeInfo` tells about a symbol. -/
structure SymbolPrecision where
  quantity : Nat
  price : Nat
  minPrice : F64
  tickSize : F64

/-- A status with the executed and the original quantity. -/
structure DemoOrderInfo where
  status : OrderStatus
  filledQuantity : F64
  totalQuantity : F64

/-- What the Binance client waits for: that of any demo client, its cache of precisions, and the
requests with its key. -/
inductive BinanceOp where
  | demo (op : DemoOp)
  | lookupPrecision (symbol : String)
  | insertPrecision (symbol : String) (precision : SymbolPrecision)
  | getWithKey (url : String)
  | post (url : String)
  | delete (url : String)
  | sleep (ms : Nat)

abbrev BinanceOp.Ans : BinanceOp → Type
  | .demo op => op.Ans
  | .lookupPrecision _ => Option SymbolPrecision
  | .getWithKey _ | .post _ | .delete _ => Except DemoError HttpResponse
  | .insertPrecision .. | .sleep _ => Unit

abbrev binanceSig : Sig := ⟨BinanceOp,BinanceOp.Ans⟩

abbrev BinanceM := ExceptT DemoError (Prog binanceSig)

/-- What the client is built on: the texts of doubles, and the signature of a query under its
secret. -/
structure BinanceKit where
  lib : Library
  display : F64 → List Char
  generateSignature : String → String

/-- `Value::as_u64`, for a number that is written as an integer. -/
def Json.asU64 : Json → Option Nat
  | .number text =>
    if text.toList ≠ [] ∧ text.toList.all Char.isDigit ∧ F64.digitsValue text.toList < 2^64 then
      some (F64.digitsValue text.toList)
    else none
  | _ => none

/-- `str::parse::<u64>`. -/
def parseU64 (cs : List Char) : Option Nat :=
  let ds := match cs with
    | '+' :: ds => ds
    | ds => ds
  if ds ≠ [] ∧ ds.all Char.isDigit ∧ F64.digitsValue ds < 2^64 then
    some (F64.digitsValue ds) else none

namespace BinanceDemoClient

section Requests

def lookupPrecision (symbol : String) : BinanceM (Option SymbolPrecision) :=
  liftM (Prog.call (σ := binanceSig) (.lookupPrecision symbol) .ret)

def insertPrecision (symbol : String) (precision : SymbolPrecision) : BinanceM Unit :=
  liftM (Prog.call (σ := binanceSig) (.insertPrecision symbol precision) .ret)

def sleep (ms : Nat) : BinanceM Unit := liftM (Prog.call (σ := binanceSig) (.sleep ms) .ret)

/-- What the client has in common with that of Bybit. -/
def demo (x : DemoM α) : BinanceM α :=
  Prog.embed (σ := demoSig) (τ := binanceSig) BinanceOp.demo (fun _ r => r)
    (x : Prog demoSig (Except DemoError α))

/-- `rate_limited_get`. -/
def rateLimitedGet (url : String) : BinanceM HttpResponse :=
  demo (do DemoClient.acquire; DemoClient.get url)

/-- A request with the client's key, which waits for the rate limiter. -/
def rateLimited (request : BinanceM HttpResponse) : BinanceM HttpResponse := do
  demo DemoClient.acquire
  request

/-- `rate_limited_get_with_key`. -/
def rateLimitedGetWithKey (url : String) : BinanceM HttpResponse :=
  rateLimited (Prog.call (σ := binanceSig) (.getWithKey url) .ret)

/-- `rate_limited_post`. -/
def rateLimitedPost (url : String) : BinanceM HttpResponse :=
  rateLimited (Prog.call (σ := binanceSig) (.post url) .ret)

/-- `rate_limited_delete`. -/
def rateLimitedDelete (url : String) : BinanceM HttpResponse :=
  rateLimited (Prog.call (σ := binanceSig) (.delete url) .ret)

end Requests

def binanceUrl : String := "https://testnet.binancefuture.com"

def exchangeInfoUrl : String := binanceUrl ++ "/fapi/v1/exchangeInfo"

section Precision

/-- The tick size and the smallest price after one more of the filters. -/
def priceFilter (found : F64 × F64) (filter : Json) : F64 × F64 :=
  if (filter.get "filterType").bind Json.asStr = some "PRICE_FILTER" then
    let number (key : String) (old : F64) : F64 :=
      match (filter.get key).bind Json.asStr with
      | some text => (F64.parse text.toList).getD (.fin (1 / 10^8))
      | none => old
    (number "tickSize" found.1,number "minPrice" found.2)
  else found

def readPrecision (sym : Json) : SymbolPrecision :=
  let filters := ((sym.get "filters").bind Json.asArray).getD []
  let found := filters.foldl priceFilter (.fin (1 / 10^8),.fin (1 / 10^8))
  { quantity := (((sym.get "quantityPrecision").bind Json.asU64).getD 8) % 2^32
    price := (((sym.get "pricePrecision").bind Json.asU64).getD 8) % 2^32
    minPrice := found.2
    tickSize := found.1 }

/-- The first entry of this name in the exchange's list of symbols. -/
def findSymbol (json : Json) (symbol : String) : Option Json :=
  (((json.get "symbols").bind Json.asArray).getD []).find? (fun sym =>
    (sym.get "symbol").bind Json.asStr = some symbol)

variable (kit : BinanceKit)

/-- `get_symbol_precision`. -/
def getSymbolPrecision (symbol : String) : BinanceM SymbolPrecision := do
  match ← lookupPrecision symbol with
  | some precision => return precision
  | none =>
    let response ← rateLimitedGet exchangeInfoUrl
    let json ← (DemoClient.decode kit.lib response.text : BinanceM Json)
    match findSymbol json symbol with
    | some sym =>
      insertPrecision symbol (readPrecision sym)
      return readPrecision sym
    | none => throw (.message s!"Symbol {symbol} not found in exchange info")

/-- `is_symbol_tradeable`. -/
def isSymbolTradeable (symbol : String) : BinanceM Bool := do
  let response ← rateLimitedGet exchangeInfoUrl
  let json ← (DemoClient.decode kit.lib response.text : BinanceM Json)
  return (findSymbol json symbol).any (fun sym => (sym.get "status").bind Json.asStr =
    some "TRADING")

end Precision

section Texts

variable (kit : BinanceKit)

/-- `round_price_to_tick`. What is no number or too large keeps to the arithmetic of doubles. -/
def priceText (price tickSize : F64) : List Char :=
  if F64.le tickSize (.fin 0) then kit.display price
  else
    match price,tickSize with
    | .fin price,.fin tickSize => roundPriceToTick (fun q => kit.display (.fin q)) price tickSize
    | _,_ => kit.display (price / tickSize * tickSize)

/-- The price that an order gets from its text. -/
def sentPrice (price tickSize : F64) : F64 := (F64.parse (priceText kit price tickSize)).getD price

def sideText : OrderSide → String
  | .long => "BUY"
  | .short => "SELL"

def signedUrl (path query : String) : String :=
  binanceUrl ++ path ++ "?" ++ query ++ "&signature=" ++ kit.generateSignature query

def limitQuery (order : DemoOrder) (precision : SymbolPrecision) (timestamp : String) : String :=
  s!"symbol={order.symbol}&side={sideText order.side}&type=LIMIT&timeInForce=GTC&quantity=" ++
    String.ofList (kit.display (roundQuantity order.size precision.quantity)) ++ "&price=" ++
    String.ofList (priceText kit order.price precision.tickSize) ++
    s!"&leverage=1&recvWindow=5000&timestamp={timestamp}"

def marketQuery (order : DemoOrder) (precision : SymbolPrecision) (timestamp : String) : String :=
  s!"symbol={order.symbol}&side={sideText order.side}&type=MARKET&quantity=" ++
    String.ofList (kit.display (roundQuantity order.size precision.quantity)) ++
    s!"&recvWindow=5000&timestamp={timestamp}"

def orderQuery (id symbol timestamp : String) : String :=
  s!"symbol={symbol}&orderId={id}&recvWindow=5000&timestamp={timestamp}"

def leverageQuery (symbol timestamp : String) : String :=
  s!"symbol={symbol}&leverage=1&recvWindow=5000&timestamp={timestamp}"

def marginQuery (symbol timestamp : String) : String :=
  s!"symbol={symbol}&marginType=ISOLATED&recvWindow=5000&timestamp={timestamp}"

end Texts

section Orders

variable (kit : BinanceKit)

def getTimestamp : BinanceM String := demo (DemoClient.getTimestamp binanceDemo kit.lib)

/-- The code of an error in a response, if there is one, and its text. -/
def apiFailure (failed : String) (json : Json) : Option DemoError :=
  match (json.get "code").bind Json.asI64 with
  | some code =>
    if code ≠ 0 then some (.message
      (failed ++ (((json.get "msg").bind Json.asStr).getD "Unknown error"))) else none
  | none => none

def orderId (json : Json) : Except DemoError String :=
  match (json.get "orderId").bind Json.asI64 with
  | some id => .ok (toString id)
  | none => .error (.message "Failed to extract order ID from response")

/-- The order id in the response to a placement. -/
def placedId (response : HttpResponse) : Except DemoError String := do
  let json ← DemoClient.decode kit.lib response.text
  match apiFailure "Binance API error: " json with
  | some e => throw e
  | none => orderId json

/-- An average price that is one. -/
def avgPrice (json : Json) : Option F64 :=
  (((json.get "avgPrice").bind Json.asStr).bind (fun text => F64.parse text.toList)).filter
    (F64.lt (.fin 0))

/-- `place_order`. -/
def placeOrder (order : DemoOrder) : BinanceM DemoOrder := do
  let timestamp ← getTimestamp kit
  let precision ← getSymbolPrecision kit order.symbol
  let response ← rateLimitedPost
      (signedUrl kit "/fapi/v1/order" (limitQuery kit order precision timestamp))
  let id ← (placedId kit response : BinanceM String)
  return { order with
    id
    status := .pending
    createdAt := (parseU64 timestamp.toList).getD 0
    size := roundQuantity order.size precision.quantity
    price := sentPrice kit order.price precision.tickSize }

def parseOrderStatus (json : Json) : OrderStatus :=
  match (json.get "status").bind Json.asStr with
  | some "FILLED" => .filled
  | some "CANCELED" | some "CANCELLED" | some "EXPIRED" => .cancelled
  | _ => .pending

/-- The response to a question about an order. -/
def askOrder (id symbol : String) : BinanceM HttpResponse := do
  let timestamp ← getTimestamp kit
  rateLimitedGetWithKey (signedUrl kit "/fapi/v1/order" (orderQuery id symbol timestamp))

/-- `get_order_status`: an error of the exchange's counts as pending. -/
def getOrderStatus (id symbol : String) : BinanceM OrderStatus := do
  let response ← askOrder kit id symbol
  let json ← (DemoClient.decode kit.lib response.text : BinanceM Json)
  if (apiFailure "" json).isSome then return .pending
  return parseOrderStatus json

/-- `get_order_status_detailed`. -/
def getOrderStatusDetailed (id symbol : String) : BinanceM DemoOrderInfo := do
  let response ← askOrder kit id symbol
  let json ← (DemoClient.decode kit.lib response.text : BinanceM Json)
  let quantity (key : String) : F64 :=
    (((json.get key).bind Json.asStr).bind (fun text => F64.parse text.toList)).getD (.fin 0)
  match apiFailure "Binance API error: " json with
  | some e => throw e
  | none => return ⟨parseOrderStatus json,quantity "executedQty",quantity "origQty"⟩

/-- The average price that the exchange tells when it is asked again. -/
def askFillPrice (fillPrice : F64) (id symbol : String) : BinanceM F64 := do
  let timestamp ← getTimestamp kit
  let url := signedUrl kit "/fapi/v1/order" (orderQuery id symbol timestamp)
  let answer ← (liftM (rateLimitedGetWithKey url : Prog binanceSig
      (Except DemoError HttpResponse)) : BinanceM (Except DemoError HttpResponse))
  match answer with
  | .ok response =>
    match kit.lib.fromStr response.text with
    | some json => return (avgPrice json).getD fillPrice
    | none => return fillPrice
  | .error _ => return fillPrice

/-- The price of a market order. The exchange is asked again where it says that the order is
filled. -/
def actualFillPrice (status : Except DemoError OrderStatus) (fillPrice : F64) (id symbol : String) :
    BinanceM F64 :=
  match status with
  | .ok .filled => askFillPrice kit fillPrice id symbol
  | _ => return fillPrice

/-- `place_market_order`. The order is filled, whatever the exchange says to that. -/
def placeMarketOrder (order : DemoOrder) : BinanceM DemoOrder := do
  let timestamp ← getTimestamp kit
  let precision ← getSymbolPrecision kit order.symbol
  let response ← rateLimitedPost
      (signedUrl kit "/fapi/v1/order" (marketQuery kit order precision timestamp))
  let id ← (placedId kit response : BinanceM String)
  let fillPrice := (((kit.lib.fromStr response.text).bind avgPrice).getD order.price)
  sleep 200
  let status ← (liftM (getOrderStatus kit id order.symbol : Prog binanceSig
      (Except DemoError OrderStatus)) : BinanceM (Except DemoError OrderStatus))
  let actualFillPrice ← actualFillPrice kit status fillPrice id order.symbol
  return { order with
    id
    status := .filled
    createdAt := (parseU64 timestamp.toList).getD 0
    filledAt := some ((parseU64 timestamp.toList).getD 0)
    size := roundQuantity order.size precision.quantity
    price := actualFillPrice
    fillPrice := some actualFillPrice }

/-- `cancel_order`. -/
def cancelOrder (id symbol : String) : BinanceM Unit := do
  let timestamp ← getTimestamp kit
  let response ← rateLimitedDelete (signedUrl kit "/fapi/v1/order" (orderQuery id symbol timestamp))
  let json ← (DemoClient.decode kit.lib response.text : BinanceM Json)
  match apiFailure "Failed to cancel order: " json with
  | some e => throw e
  | none => return ()

/-- A setting of the account: an error of the exchange's is only printed. -/
def change (path : String) (query : String → String) : BinanceM Unit := do
  let timestamp ← getTimestamp kit
  let response ← rateLimitedPost (signedUrl kit path (query timestamp))
  let _ ← (DemoClient.decode kit.lib response.text : BinanceM Json)
  return ()

/-- `set_leverage`. -/
def setLeverage (symbol : String) : BinanceM Unit :=
  change kit "/fapi/v1/leverage" (leverageQuery symbol)

/-- `set_margin_type_isolated`. -/
def setMarginTypeIsolated (symbol : String) : BinanceM Unit :=
  change kit "/fapi/v1/marginType" (marginQuery symbol)

/-- What is free of the account's USDT. -/
def usdtBalance (json : Json) : Except DemoError F64 :=
  let assets := ((json.get "assets").bind Json.asArray).getD []
  let usdt := assets.find? (fun asset => (asset.get "asset").bind Json.asStr = some "USDT")
  match ((usdt.bind (·.get "availableBalance")).bind Json.asStr).bind (fun text =>
    F64.parse text.toList) with
  | some balance => .ok balance
  | none => .error (.message "Failed to extract USDT available balance")

/-- `get_balance`. -/
def getBalance : BinanceM F64 := do
  let timestamp ← getTimestamp kit
  let response ← rateLimitedGetWithKey
      (signedUrl kit "/fapi/v2/account" s!"recvWindow=5000&timestamp={timestamp}")
  if !response.isSuccess then throw (.message s!"HTTP {response.status}: {response.text}")
  else if response.text = "" then throw (.message "Empty response from API")
  else do
    let json ← (DemoClient.decode kit.lib response.text : BinanceM Json)
    (usdtBalance json : BinanceM F64)

end Orders

end BinanceDemoClient

/-- The methods of the Binance client. -/
inductive BinanceCall where
  | demo (call : DemoCall)
  | getSymbolPrecision (symbol : String)
  | isSymbolTradeable (symbol : String)
  | setLeverage (symbol : String)
  | setMarginTypeIsolated (symbol : String)
  | placeOrder (order : DemoOrder)
  | placeMarketOrder (order : DemoOrder)
  | getOrderStatus (id symbol : String)
  | getOrderStatusDetailed (id symbol : String)
  | cancelOrder (id symbol : String)
  | getBalance

inductive BinanceReply where
  | demo (reply : DemoReply)
  | precision (precision : SymbolPrecision)
  | tradeable (answer : Bool)
  | placed (order : DemoOrder)
  | status (status : OrderStatus)
  | info (info : DemoOrderInfo)
  | balance (balance : F64)
  | done

/-- The client's state. -/
structure BinanceWorld where
  demo : DemoWorld
  precisions : String → Option SymbolPrecision

namespace BinanceWorld

/-- `BinanceDemoClient::new`. -/
def new (now : Nat) : BinanceWorld := ⟨.new now,fun _ => none⟩

/-- The time of a request passes. -/
def tick (env : DemoEnv) (w : BinanceWorld) : BinanceWorld :=
  { w with demo := { w.demo.wait env with tick := w.demo.tick+1 } }

def serve (env : DemoEnv) (caller : Nat) (op : BinanceOp) (w : BinanceWorld) :
    op.Ans × BinanceWorld :=
  match op with
  | .demo op => ((w.demo.serve env caller op).1,{ w with demo := (w.demo.serve env caller op).2 })
  | .lookupPrecision symbol => (w.precisions symbol,w.tick env)
  | .insertPrecision symbol precision =>
    ((),{ w.tick env with
      precisions := fun s => if s = symbol then some precision else w.precisions s })
  | .getWithKey _ | .post _ | .delete _ => ((env.move w.demo.tick).response,w.tick env)
  | .sleep _ => ((),w.tick env)

end BinanceWorld

namespace BinanceDemoClient

def body (kit : BinanceKit) : BinanceCall → Prog binanceSig (Except DemoError BinanceReply)
  | .demo call => (return .demo (← demo (DemoClient.body binanceDemo kit.lib call)) : BinanceM
    BinanceReply)
  | .getSymbolPrecision symbol =>
    (return .precision (← getSymbolPrecision kit symbol) : BinanceM BinanceReply)
  | .isSymbolTradeable symbol =>
    (return .tradeable (← isSymbolTradeable kit symbol) : BinanceM BinanceReply)
  | .setLeverage symbol => (do setLeverage kit symbol; return .done : BinanceM BinanceReply)
  | .setMarginTypeIsolated symbol =>
    (do setMarginTypeIsolated kit symbol; return .done : BinanceM BinanceReply)
  | .placeOrder order => (return .placed (← placeOrder kit order) : BinanceM BinanceReply)
  | .placeMarketOrder order =>
    (return .placed (← placeMarketOrder kit order) : BinanceM BinanceReply)
  | .getOrderStatus id symbol =>
    (return .status (← getOrderStatus kit id symbol) : BinanceM BinanceReply)
  | .getOrderStatusDetailed id symbol =>
    (return .info (← getOrderStatusDetailed kit id symbol) : BinanceM BinanceReply)
  | .cancelOrder id symbol => (do cancelOrder kit id symbol; return .done : BinanceM BinanceReply)
  | .getBalance => (return .balance (← getBalance kit) : BinanceM BinanceReply)

/-- The calls of any number of tasks on one client, with what they were answered. -/
abbrev Placements := Pool BinanceCall binanceSig (Recorded binanceSig BinanceWorld)
    (Except DemoError BinanceReply)

def clientMachine (env : DemoEnv) (caller : Nat) : Machine binanceSig BinanceWorld :=
  ⟨BinanceWorld.serve env caller⟩

def placements (kit : BinanceKit) (env : DemoEnv) (start : Nat) (acts : List (Act BinanceCall)) :
    Placements :=
  Pool.run (recorded (clientMachine env)) (body kit) ⟨⟨.new start,[]⟩,[]⟩ acts

end BinanceDemoClient

end SpreadArb
