import SpreadArb.Interact.Program
import SpreadArb.Types

namespace SpreadArb
open Interact

/-- An order as its exchange keeps it. What it has filled never leaves
`[0, size]`; `killed` says that a cancel took its unfilled rest. -/
structure BookOrder where
  exchange : String
  side : OrderSide
  orderType : OrderType
  size : ℚ
  filled : ℚ
  killed : Bool
  reported : ℚ
  filled_nonneg : 0 ≤ filled
  filled_le : filled ≤ size

namespace BookOrder

/-- An order can still trade. -/
def live (o : BookOrder) : Bool := !o.killed && o.filled < o.size

/-- An order trades `x` more, as far as it is live and has that much left. -/
def trade (x : ℚ) (o : BookOrder) : BookOrder :=
  if o.live then
    { o with
      filled := min o.size (o.filled + max 0 x)
      filled_nonneg := le_min (o.filled_nonneg.trans o.filled_le)
        (add_nonneg o.filled_nonneg (le_max_left 0 x))
      filled_le := min_le_left _ _ }
  else o

def kill (o : BookOrder) : BookOrder := { o with killed := true }

/-- What the exchange answers to a truthful status query. -/
def status (o : BookOrder) : OrderStatus :=
  if o.filled ≥ o.size then .filled else if o.killed then .cancelled else .pending

def info (o : BookOrder) : OrderStatusInfo := ⟨o.status,o.filled,o.size⟩

/-- The position the order has created on `exchange`: bought is positive. -/
def signed (exchange : String) (o : BookOrder) : ℚ :=
  if o.exchange = exchange then (match o.side with | .long => o.filled | .short => -o.filled)
  else 0

end BookOrder

/-- One choice of the environment: what the exchanges do up to and at the next
backend call. Every field is free; the machine below clips the amounts. -/
structure Move where
  /-- What each order trades before the call is served. -/
  trades : OrderId → ℚ := fun _ => 0
  /-- Milliseconds until the call is answered. -/
  delay : Nat := 0
  /-- The call fails with this text. -/
  failure : Option String := none
  /-- The quantity the exchange books for a placed order, if not all of it. -/
  lot : Option ℚ := none
  /-- What a market order trades at once; without a choice, all of it. -/
  fill : Option ℚ := none
  /-- Whether a market order's unfilled rest stays in the book. -/
  rests : Bool := false
  /-- A status answer that is not the truth. -/
  report : Option OrderStatusInfo := none
  /-- Price, balance or quantity step, for the queries that answer a number. -/
  value : ℚ := 0
  depth : OrderBookDepth := ⟨[],[],0⟩
  /-- The creation time the exchange puts on a placed order. -/
  stamp : Nat := 0
  /-- The status a placed limit order is acknowledged with. -/
  filledAck : Bool := false
  /-- The symbols whose hedge lock another task holds. -/
  foreign : List String := []

abbrev Env := Nat → Move

/-- The exchanges, the clock in milliseconds and the process-wide flags. Orders
are numbered below `count`; `locks` are the hedge locks this task holds. -/
structure World where
  tick : Nat
  clock : Nat
  count : Nat
  book : OrderId → BookOrder
  halted : Bool
  locks : List String
  uuids : Nat

/-- The console lines that later reasoning refers to. The others are left out. -/
inductive Alert where
  /-- `[EMERGENCY] Closing naked position`. -/
  | closingNaked (order : SimulatedOrder)
  /-- `EMERGENCY CLOSE POSITION FAILED`. -/
  | closeFailed (order : SimulatedOrder)

/-- The requests of `ExecutionBackend`, the timer, the clock, the trading halt,
the hedge locks, the console and the source of fresh identifiers. -/
inductive BackendOp where
  | setLeverage (exchange symbol : String) (leverage : Nat)
  | setMarginTypeIsolated (exchange symbol : String)
  | placeOrder (order : SimulatedOrder)
  | placeMarketOrder (order : SimulatedOrder)
  | cancelOrder (exchange : String) (id : OrderId)
  | getOrderStatus (exchange : String) (id : OrderId)
  | getOrderStatusDetailed (exchange : String) (id : OrderId) (symbol : String)
  | getAvailableBalance (exchange : String)
  | getOrderBookDepth (exchange symbol : String) (levels : Nat)
  | getBestBid (exchange symbol : String)
  | getBestAsk (exchange symbol : String)
  | getQuantityStep (exchange symbol : String)
  | sleep (ms : Nat)
  | now
  | isTradingHalted
  | haltTrading (reason : String)
  | tryAcquireHedgeLock (symbol : String)
  | dropHedgeLock (symbol : String)
  | alert (a : Alert)
  | newUuid

abbrev BackendOp.Ans : BackendOp → Type
  | .setLeverage .. | .setMarginTypeIsolated .. | .cancelOrder .. => Except String Unit
  | .placeOrder _ | .placeMarketOrder _ => Except String SimulatedOrder
  | .getOrderStatus .. => Except String OrderStatus
  | .getOrderStatusDetailed .. => Except String OrderStatusInfo
  | .getAvailableBalance _ | .getBestBid .. | .getBestAsk .. | .getQuantityStep .. =>
    Except String ℚ
  | .getOrderBookDepth .. => Except String OrderBookDepth
  | .sleep _ | .haltTrading _ | .dropHedgeLock _ | .alert _ => Unit
  | .now | .newUuid => Nat
  | .isTradingHalted => Bool
  | .tryAcquireHedgeLock _ => Except String Unit

abbrev backend : Sig := ⟨BackendOp,BackendOp.Ans⟩

namespace World

/-- No order has been placed yet. -/
def empty : World where
  tick := 0
  clock := 0
  count := 0
  book := fun _ => ⟨"",.long,.limit,0,0,true,0,le_rfl,le_rfl⟩
  halted := false
  locks := []
  uuids := 0

/-- Time passes up to the next backend call: orders trade and the clock moves. -/
def advance (env : Env) (w : World) : World :=
  { w with
    tick := w.tick+1
    clock := w.clock+(env w.tick).delay
    book := fun i => (w.book i).trade ((env w.tick).trades i) }

def setOrder (w : World) (id : OrderId) (o : BookOrder) : World :=
  { w with book := fun i => if i = id then o else w.book i }

/-- The exchange books a new order under the next number. -/
def add (w : World) (o : BookOrder) : World :=
  { w.setOrder w.count o with count := w.count+1 }

/-- A query that fails or answers `a`. -/
def answer (c : Move) (a : α) : Except String α :=
  match c.failure with
  | some e => .error e
  | none => .ok a

/-- The size booked for a request: never negative, never more than asked. -/
def booked (c : Move) (size : ℚ) : ℚ := min (max 0 size) (max 0 (c.lot.getD size))

/-- A resting order as it enters the book. -/
def fresh (c : Move) (o : SimulatedOrder) : BookOrder where
  exchange := o.exchange
  side := o.side
  orderType := o.orderType
  size := booked c o.size
  filled := 0
  killed := false
  reported := 0
  filled_nonneg := le_rfl
  filled_le := le_min (le_max_left _ _) (le_max_left _ _)

/-- A market order as it enters the book: it trades at once, and what it does
not trade is dropped unless the environment lets it rest. -/
def freshMarket (c : Move) (o : SimulatedOrder) : BookOrder :=
  { (fresh c o).trade (c.fill.getD o.size) with killed := !c.rests }

/-- Serve a limit order request. -/
def servePlace (c : Move) (w : World) (o : SimulatedOrder) :
    Except String SimulatedOrder × World :=
  match c.failure with
  | some e => (.error e,w)
  | none =>
    (.ok { o with
      id := w.count
      createdAt := c.stamp
      status := if c.filledAck then .filled else .pending },
     w.add (fresh c o))

/-- Serve a market order request. -/
def serveMarket (c : Move) (w : World) (o : SimulatedOrder) :
    Except String SimulatedOrder × World :=
  match c.failure with
  | some e => (.error e,w)
  | none =>
    (.ok { o with
      id := w.count
      createdAt := c.stamp
      filledAt := some c.stamp
      fillPrice := some o.price
      status := .filled },
     w.add (freshMarket c o))

/-- Serve a cancel. A successful one takes the unfilled rest; a failed one
changes nothing. -/
def serveCancel (c : Move) (w : World) (id : OrderId) : Except String Unit × World :=
  match c.failure with
  | some e => (.error e,w)
  | none => (.ok (),w.setOrder id (w.book id).kill)

/-- Serve a detailed status query, remembering what was reported. -/
def serveStatus (c : Move) (w : World) (id : OrderId) :
    Except String OrderStatusInfo × World :=
  match c.failure with
  | some e => (.error e,w)
  | none =>
    let i := c.report.getD (w.book id).info
    (.ok i,w.setOrder id { w.book id with reported := i.filledQuantity })

end World

open World in
/-- The environment as a machine: asynchronous requests let the exchanges move
first, the clock and the process-wide flags are read and written in place. -/
def exchanges (env : Env) : Machine backend World where
  serve
    | .setLeverage .., w | .setMarginTypeIsolated .., w =>
      (answer (env w.tick) (),w.advance env)
    | .placeOrder o, w => servePlace (env w.tick) (w.advance env) o
    | .placeMarketOrder o, w => serveMarket (env w.tick) (w.advance env) o
    | .cancelOrder _ id, w => serveCancel (env w.tick) (w.advance env) id
    | .getOrderStatus _ id, w =>
      (answer (env w.tick)
        (((env w.tick).report.map OrderStatusInfo.status).getD ((w.advance env).book id).status),
       w.advance env)
    | .getOrderStatusDetailed _ id _, w => serveStatus (env w.tick) (w.advance env) id
    | .getAvailableBalance _, w | .getBestBid .., w | .getBestAsk .., w
    | .getQuantityStep .., w => (answer (env w.tick) (env w.tick).value,w.advance env)
    | .getOrderBookDepth .., w => (answer (env w.tick) (env w.tick).depth,w.advance env)
    | .sleep ms, w => ((),{ w.advance env with clock := (w.advance env).clock+ms })
    | .now, w => (w.clock,w)
    | .isTradingHalted, w => (w.halted,w)
    | .haltTrading _, w => ((),{ w with halted := true })
    | .tryAcquireHedgeLock s, w =>
      if s ∈ w.locks ∨ s ∈ (env w.tick).foreign then
        (.error s!"Hedge lock already held for {s}",w)
      else (.ok (),{ w with locks := s :: w.locks })
    | .dropHedgeLock s, w => ((),{ w with locks := w.locks.filter (· ≠ s) })
    | .alert _, w => ((),w)
    | .newUuid, w => (w.uuids,{ w with uuids := w.uuids+1 })

namespace Backend

/-! The requests as the source writes them. -/

abbrev setLeverage (exchange symbol : String) (leverage : Nat) :
    Prog backend (Except String Unit) :=
  .call (.setLeverage exchange symbol leverage) .ret

abbrev setMarginTypeIsolated (exchange symbol : String) : Prog backend (Except String Unit) :=
  .call (.setMarginTypeIsolated exchange symbol) .ret

abbrev placeOrder (order : SimulatedOrder) : Prog backend (Except String SimulatedOrder) :=
  .call (.placeOrder order) .ret

abbrev placeMarketOrder (order : SimulatedOrder) : Prog backend (Except String SimulatedOrder) :=
  .call (.placeMarketOrder order) .ret

abbrev cancelOrder (exchange : String) (id : OrderId) : Prog backend (Except String Unit) :=
  .call (.cancelOrder exchange id) .ret

abbrev getOrderStatus (exchange : String) (id : OrderId) :
    Prog backend (Except String OrderStatus) :=
  .call (.getOrderStatus exchange id) .ret

abbrev getOrderStatusDetailed (exchange : String) (id : OrderId) (symbol : String) :
    Prog backend (Except String OrderStatusInfo) :=
  .call (.getOrderStatusDetailed exchange id symbol) .ret

abbrev getAvailableBalance (exchange : String) : Prog backend (Except String ℚ) :=
  .call (.getAvailableBalance exchange) .ret

abbrev getOrderBookDepth (exchange symbol : String) (levels : Nat) :
    Prog backend (Except String OrderBookDepth) :=
  .call (.getOrderBookDepth exchange symbol levels) .ret

abbrev getBestBid (exchange symbol : String) : Prog backend (Except String ℚ) :=
  .call (.getBestBid exchange symbol) .ret

abbrev getBestAsk (exchange symbol : String) : Prog backend (Except String ℚ) :=
  .call (.getBestAsk exchange symbol) .ret

abbrev getQuantityStep (exchange symbol : String) : Prog backend (Except String ℚ) :=
  .call (.getQuantityStep exchange symbol) .ret

abbrev sleep (ms : Nat) : Prog backend Unit := .call (.sleep ms) .ret

abbrev now : Prog backend Nat := .call .now .ret

abbrev isTradingHalted : Prog backend Bool := .call .isTradingHalted .ret

abbrev haltTrading (reason : String) : Prog backend Unit := .call (.haltTrading reason) .ret

abbrev tryAcquireHedgeLock (symbol : String) : Prog backend (Except String Unit) :=
  .call (.tryAcquireHedgeLock symbol) .ret

abbrev dropHedgeLock (symbol : String) : Prog backend Unit :=
  .call (.dropHedgeLock symbol) .ret

abbrev alert (a : Alert) : Prog backend Unit := .call (.alert a) .ret

abbrev newUuid : Prog backend Nat := .call .newUuid .ret

end Backend

end SpreadArb
