import SpreadArb.Numeric.Grid
import SpreadArb.Types

namespace SpreadArb

/-- Order ids as the two backends tell them apart. -/
inductive OrderKey where
  /-- A text of the caller's; the empty one asks for a new id. -/
  | caller (text : String)
  | uuid (n : Nat)
  /-- `sim_` in front of a fresh UUID. -/
  | simulated (n : Nat)
  | bybit (n : Nat)
deriving DecidableEq

namespace OrderKey

def isSimulated : OrderKey → Bool
  | .simulated _ => true
  | .caller text => text.startsWith "sim_"
  | _ => false

def isEmpty : OrderKey → Bool
  | .caller text => text = ""
  | _ => false

end OrderKey

/-- A `SimulatedOrder` whose id is told apart as above. -/
structure KeyedOrder where
  id : OrderKey
  exchange : String
  symbol : String
  side : OrderSide
  orderType : OrderType
  price : ℚ
  size : ℚ
  queuePosition : Option QueuePosition
  createdAt : Nat
  filledAt : Option Nat
  fillPrice : Option ℚ
  status : OrderStatus

inductive StatusError where
  | notConfigured
  | unsupported (exchange : String)
  | noMetadata (id : OrderKey)
  | notInResponse
  | refused (message : String)
deriving DecidableEq

section Venue

structure VenueOrder where
  id : OrderKey
  symbol : String
  orderStatus : String
  cumExecQty : ℚ
  qty : ℚ

/-- What may happen to orders at Bybit: an order stays listed, what it has filled stays
filled, and a filled order is not changed any more. -/
structure VenueMove where
  act : VenueOrder → VenueOrder
  id_eq : ∀ o, (act o).id = o.id
  symbol_eq : ∀ o, (act o).symbol = o.symbol
  filled_le : ∀ o, o.cumExecQty ≤ (act o).cumExecQty
  filled_stays : ∀ o, o.orderStatus = "Filled" → (act o).orderStatus = "Filled"

/-- What Bybit answers to a placement: a refusal, or the order as it is listed at first. -/
structure VenueReply where
  failure : Option String := none
  orderStatus : String := "New"
  cumExecQty : ℚ := 0
  qty : ℚ := 0

abbrev Venue := List VenueOrder

/-- The first order of the answer to `/v5/order/realtime`. -/
def Venue.realtime (venue : Venue) (id : OrderKey) (symbol : String) : Option VenueOrder :=
  venue.find? (fun o => o.id = id && o.symbol = symbol)

/-- The `orderStatus` texts that `BybitDemoClient` knows. -/
def parseStatus : String → OrderStatus
  | "Filled" => .filled
  | "Cancelled" => .cancelled
  | _ => .pending

namespace BybitDemoClient

/-- `BybitDemoClient::get_order_status`: an order that is not listed is pending. -/
def getOrderStatus (venue : Venue) (id : OrderKey) (symbol : String) : OrderStatus :=
  parseStatus (((venue.realtime id symbol).map VenueOrder.orderStatus).getD "Unknown")

def getOrderStatusDetailed (venue : Venue) (id : OrderKey) (symbol : String) :
    Except StatusError OrderStatusInfo :=
  match venue.realtime id symbol with
  | none => .error .notInResponse
  | some o => .ok ⟨parseStatus o.orderStatus,o.cumExecQty,o.qty⟩

/-- `BybitDemoClient::get_timestamp`: the local time in milliseconds and the offset of Bybit's
clock to it. -/
def getTimestamp (localMs : Nat) (offset : ℤ) : ℤ := localMs + offset

/-- `timestamp.parse().unwrap_or(0)`, to a `u64`. -/
def parseTimestamp (timestamp : ℤ) : Nat := timestamp.toNat

/-- The quantity that both placements of the client send for an order: `(size / qty_step).round() *
qty_step`. -/
def roundedQty (qtyStep size : ℚ) : ℚ := Numeric.Grid.roundTo qtyStep size

/-- What the two placements of the client share: Bybit lists the order under a new id. -/
def place (venue : Venue) (reply : VenueReply) (order : KeyedOrder)
    (acknowledge : KeyedOrder → KeyedOrder) : Except StatusError KeyedOrder × Venue :=
  match reply.failure with
  | some message => (.error (.refused message),venue)
  | none =>
    let id := .bybit venue.length
    (.ok (acknowledge { order with id }),
      venue ++ [⟨id,order.symbol,reply.orderStatus,reply.cumExecQty,reply.qty⟩])

def placeOrder (venue : Venue) (reply : VenueReply) (ms : Nat) (order : KeyedOrder) :
    Except StatusError KeyedOrder × Venue :=
  place venue reply order (fun o => { o with status := .pending, createdAt := ms })

def placeMarketOrder (venue : Venue) (reply : VenueReply) (ms : Nat) (order : KeyedOrder) :
    Except StatusError KeyedOrder × Venue :=
  place venue reply order (fun o =>
    { o with status := .filled, createdAt := ms, filledAt := some ms, fillPrice := some o.price })

end BybitDemoClient

end Venue

/-- `TestnetBackend`, with Bybit behind its client and the source of UUIDs. -/
structure TestnetBackend where
  bybit : Bool
  orderMetadata : OrderKey → Option (String × String)
  singleExchangeMode : Bool
  primaryExchange : String
  venue : Venue
  uuids : Nat

namespace TestnetBackend

def new (bybit singleExchangeMode : Bool) (primaryExchange : String) : TestnetBackend :=
  ⟨bybit,fun _ => none,singleExchangeMode,primaryExchange,[],0⟩

def insertMetadata (s : TestnetBackend) (id : OrderKey) (exchange symbol : String) :
    TestnetBackend :=
  { s with orderMetadata := fun k => if k = id then some (exchange,symbol) else s.orderMetadata k }

def withClient (s : TestnetBackend) (exchange : String) (call : Except StatusError α) :
    Except StatusError α :=
  if exchange = "bybit" then (if s.bybit then call else .error .notConfigured)
  else .error (.unsupported exchange)

def placeReal (s : TestnetBackend) (order : KeyedOrder)
    (out : Except StatusError KeyedOrder × Venue) :
    Except StatusError KeyedOrder × TestnetBackend :=
  match s.withClient order.exchange out.1 with
  | .error e => (.error e,s)
  | .ok placed =>
    (.ok placed,{ s with venue := out.2 }.insertMetadata placed.id order.exchange placed.symbol)

/-- An order for another exchange than the primary one: it is filled at once. -/
def placeSimulated (s : TestnetBackend) (order : KeyedOrder) (orderType : OrderType) (secs : Nat) :
    Except StatusError KeyedOrder × TestnetBackend :=
  let simulated : KeyedOrder := { order with
    id := .simulated s.uuids
    orderType
    queuePosition := some ⟨order.price,0,0,100,true⟩
    createdAt := secs
    filledAt := some secs
    fillPrice := some order.price
    status := .filled }
  (.ok simulated,{ s with uuids := s.uuids+1 }.insertMetadata simulated.id order.exchange
    simulated.symbol)

def simulates (s : TestnetBackend) (order : KeyedOrder) : Bool :=
  s.singleExchangeMode && order.exchange ≠ s.primaryExchange

/-- The time a placement reads: Bybit's clock for an order that goes there, the local one for a
simulated order. -/
def placementMs (s : TestnetBackend) (order : KeyedOrder) (localMs : Nat) (offset : ℤ) : Nat :=
  if s.simulates order then localMs
  else BybitDemoClient.parseTimestamp (BybitDemoClient.getTimestamp localMs offset)

def placeOrder (s : TestnetBackend) (reply : VenueReply) (ms : Nat) (order : KeyedOrder) :
    Except StatusError KeyedOrder × TestnetBackend :=
  if s.simulates order then s.placeSimulated order order.orderType (ms / 1000)
  else s.placeReal order (BybitDemoClient.placeOrder s.venue reply ms order)

def placeMarketOrder (s : TestnetBackend) (reply : VenueReply) (ms : Nat) (order : KeyedOrder) :
    Except StatusError KeyedOrder × TestnetBackend :=
  if s.simulates order then s.placeSimulated order .market (ms / 1000)
  else s.placeReal order (BybitDemoClient.placeMarketOrder s.venue reply ms order)

/-- `TestnetBackend::cancel_order`. A cancel that reaches Bybit moves orders there. -/
def cancelOrder (s : TestnetBackend) (id : OrderKey) (failure : Option String) (move : VenueMove) :
    Except StatusError Unit × TestnetBackend :=
  if id.isSimulated then (.ok (),s)
  else
    match s.orderMetadata id with
    | none => (.error (.noMetadata id),s)
    | some (exchange,_) =>
      match s.withClient exchange (.ok ()) with
      | .error e => (.error e,s)
      | .ok _ =>
        (match failure with | some message => .error (.refused message) | none => .ok (),
          { s with venue := s.venue.map move.act })

def getOrderStatus (s : TestnetBackend) (id : OrderKey) : Except StatusError OrderStatus :=
  if id.isSimulated then .ok .filled
  else
    match s.orderMetadata id with
    | none => .error (.noMetadata id)
    | some (exchange,symbol) =>
      s.withClient exchange (.ok (BybitDemoClient.getOrderStatus s.venue id symbol))

/-- `TestnetBackend::get_order_status_detailed`. It does not look for simulated ids. -/
def getOrderStatusDetailed (s : TestnetBackend) (id : OrderKey) (symbol : String) :
    Except StatusError OrderStatusInfo :=
  match s.orderMetadata id with
  | none => .error (.noMetadata id)
  | some (exchange,_) =>
    s.withClient exchange (BybitDemoClient.getOrderStatusDetailed s.venue id symbol)

end TestnetBackend

/-- `PaperTradingBackend`, as far as orders go, with the source of UUIDs. -/
structure PaperTradingBackend where
  orders : OrderKey → Option KeyedOrder
  uuids : Nat

namespace PaperTradingBackend

def new : PaperTradingBackend := ⟨fun _ => none,0⟩

def assign (s : PaperTradingBackend) (id : OrderKey) : OrderKey :=
  if id.isEmpty then .uuid s.uuids else id

def placeOrder (s : PaperTradingBackend) (secs : Nat) (order : KeyedOrder) :
    KeyedOrder × PaperTradingBackend :=
  let placed : KeyedOrder := { order with
    id := s.assign order.id
    status := .filled
    filledAt := some secs
    fillPrice := some order.price }
  (placed,{
    orders := fun k => if k = placed.id then some placed else s.orders k
    uuids := if order.id.isEmpty then s.uuids+1 else s.uuids })

def placeMarketOrder (s : PaperTradingBackend) (secs : Nat) (order : KeyedOrder) :
    KeyedOrder × PaperTradingBackend := s.placeOrder secs order

def cancelOrder (s : PaperTradingBackend) (id : OrderKey) : PaperTradingBackend :=
  { s with orders := fun k => if k = id then none else s.orders k }

def getOrderStatus (s : PaperTradingBackend) (id : OrderKey) : OrderStatus :=
  match s.orders id with
  | some order => order.status
  | none => .cancelled

def getOrderStatusDetailed (s : PaperTradingBackend) (id : OrderKey) : OrderStatusInfo :=
  match s.orders id with
  | some order => ⟨order.status,order.size,order.size⟩
  | none => ⟨.cancelled,0,0⟩

end PaperTradingBackend

section Calls

/-- A backend as its callers see it: calls that may bring an order, and the two queries. -/
structure StatusBackend (S Call : Type) where
  step : Call → S → Option KeyedOrder × S
  status : S → KeyedOrder → Except StatusError OrderStatus
  detailed : S → KeyedOrder → Except StatusError OrderStatusInfo

/-- The calls of `TestnetBackend`, and what happens at Bybit between them. -/
inductive TestnetCall where
  | placeOrder (reply : VenueReply) (ms : Nat) (order : KeyedOrder)
  | placeMarketOrder (reply : VenueReply) (ms : Nat) (order : KeyedOrder)
  | cancelOrder (exchange : String) (id : OrderKey) (failure : Option String) (move : VenueMove)
  | getOrderStatus (exchange : String) (id : OrderKey)
  | getOrderStatusDetailed (exchange : String) (id : OrderKey) (symbol : String)
  | venue (move : VenueMove)

inductive PaperCall where
  | placeOrder (secs : Nat) (order : KeyedOrder)
  | placeMarketOrder (secs : Nat) (order : KeyedOrder)
  | cancelOrder (exchange : String) (id : OrderKey)
  | getOrderStatus (exchange : String) (id : OrderKey)
  | getOrderStatusDetailed (exchange : String) (id : OrderKey) (symbol : String)

def TestnetBackend.step (s : TestnetBackend) : TestnetCall → Option KeyedOrder × TestnetBackend
  | .placeOrder reply ms order =>
    ((s.placeOrder reply ms order).1.toOption,(s.placeOrder reply ms order).2)
  | .placeMarketOrder reply ms order =>
    ((s.placeMarketOrder reply ms order).1.toOption,(s.placeMarketOrder reply ms order).2)
  | .cancelOrder _ id failure move => (none,(s.cancelOrder id failure move).2)
  | .getOrderStatus .. | .getOrderStatusDetailed .. => (none,s)
  | .venue move => (none,{ s with venue := s.venue.map move.act })

def PaperTradingBackend.step (s : PaperTradingBackend) :
    PaperCall → Option KeyedOrder × PaperTradingBackend
  | .placeOrder secs order => (some (s.placeOrder secs order).1,(s.placeOrder secs order).2)
  | .placeMarketOrder secs order =>
    (some (s.placeMarketOrder secs order).1,(s.placeMarketOrder secs order).2)
  | .cancelOrder _ id => (none,s.cancelOrder id)
  | .getOrderStatus .. | .getOrderStatusDetailed .. => (none,s)

def testnetBackend : StatusBackend TestnetBackend TestnetCall where
  step call s := s.step call
  status s o := s.getOrderStatus o.id
  detailed s o := s.getOrderStatusDetailed o.id o.symbol

def paperTradingBackend : StatusBackend PaperTradingBackend PaperCall where
  step call s := s.step call
  status s o := .ok (s.getOrderStatus o.id)
  detailed s o := .ok (s.getOrderStatusDetailed o.id)

namespace StatusBackend

variable {S Call : Type} (b : StatusBackend S Call)

def run (s : S) : List Call → S
  | [] => s
  | c :: calls => run (b.step c s).2 calls

/-- The orders that the calls have returned. -/
def placed (s : S) : List Call → List KeyedOrder
  | [] => []
  | c :: calls => (b.step c s).1.toList ++ placed (b.step c s).2 calls

end StatusBackend

end Calls

end SpreadArb
