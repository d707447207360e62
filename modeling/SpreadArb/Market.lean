import SpreadArb.Numeric.F64

namespace SpreadArb
open Numeric

/-- An exchange and a symbol on it. -/
abbrev Pair := String × String

/-- `SymbolMap`. The counter is not cut to 32 bits; the ids that are handed out are. -/
structure SymbolMap where
  toId : Pair → Option Nat
  fromId : Nat → Option Pair
  nextId : Nat

namespace SymbolMap

def empty : SymbolMap := ⟨fun _ => none,fun _ => none,1⟩

/-- The map after the next id went to a new pair. -/
def insert (m : SymbolMap) (pair : Pair) : SymbolMap where
  toId := fun p => if p = pair then some (m.nextId % 2 ^ 32) else m.toId p
  fromId := fun i => if i = m.nextId % 2 ^ 32 then some pair else m.fromId i
  nextId := m.nextId+1

def getOrInsert (m : SymbolMap) (exchange symbol : String) : Nat × SymbolMap :=
  match m.toId (exchange,symbol) with
  | some id => (id,m)
  | none => (m.nextId % 2 ^ 32,m.insert (exchange,symbol))

/-- The map after these pairs have been looked up in turn. -/
def register (m : SymbolMap) : List Pair → SymbolMap
  | [] => m
  | (exchange,symbol) :: pairs => (m.getOrInsert exchange symbol).2.register pairs

def get (m : SymbolMap) (symbolId : Nat) : Option Pair := m.fromId symbolId

def commonExchanges : List String := ["bybit","okx","kucoin","bitget","hyperliquid","paradex"]

def commonSymbols : List String :=
  ["BTCUSDT","ETHUSDT","SOLUSDT","BNBUSDT","XRPUSDT","ADAUSDT","DOGEUSDT","MATICUSDT","DOTUSDT",
    "AVAXUSDT"]

/-- `SymbolMap::new` with the pre-allocated common symbols. -/
def new : SymbolMap :=
  empty.register (commonExchanges.flatMap (fun exchange =>
    commonSymbols.map (fun s => (exchange,s))))

end SymbolMap

structure MarketUpdate where
  symbolId : Nat
  bid : F64
  ask : F64
  timestampUs : Nat

/-- One column of the store. -/
structure Slot where
  bid : F64
  ask : F64
  timestampUs : Nat
  symbolId : Nat

def Slot.zero : Slot := ⟨.fin 0,.fin 0,0,0⟩

def maxSymbols : Nat := 256

/-- `MarketDataStore`. Only the slots below `maxSymbols` are there. -/
structure MarketDataStore where
  slots : Nat → Slot
  count : Nat

namespace MarketDataStore

def new : MarketDataStore := ⟨fun _ => .zero,0⟩

/-- An id without a slot is ignored. -/
def update (d : MarketDataStore) (u : MarketUpdate) : MarketDataStore :=
  if u.symbolId < maxSymbols then
    { slots := fun i => if i = u.symbolId then ⟨u.bid,u.ask,u.timestampUs,u.symbolId⟩ else d.slots i
      count := if u.symbolId ≥ d.count then u.symbolId+1 else d.count }
  else d

def getBid (d : MarketDataStore) (symbolId : Nat) : Option F64 :=
  if symbolId < d.count then some (d.slots symbolId).bid else none

def getAsk (d : MarketDataStore) (symbolId : Nat) : Option F64 :=
  if symbolId < d.count then some (d.slots symbolId).ask else none

def getTimestamp (d : MarketDataStore) (symbolId : Nat) : Option Nat :=
  if symbolId < d.count then some (d.slots symbolId).timestampUs else none

def getSpreadBps (d : MarketDataStore) (symbolId : Nat) : F64 :=
  let slot := d.slots symbolId
  if symbolId < d.count && F64.lt (.fin 0) slot.bid then
    (slot.ask - slot.bid) / slot.bid * .fin 10000
  else .fin 0

/-- The slots below the mark in turn, each under the id that is written in it. -/
def iterSpreads (d : MarketDataStore) : List (Nat × F64) :=
  (List.range d.count).map (fun idx =>
    let slot := d.slots idx
    (slot.symbolId,if F64.lt (.fin 0) slot.bid then (slot.ask - slot.bid) / slot.bid * .fin 10000
      else .fin 0))

/-- `MarketDataStore::is_stale` in a build that checks its arithmetic: an underflow is a panic. -/
def isStale (d : MarketDataStore) (symbolId currentTimeUs thresholdUs : Nat) : Option Bool :=
  if symbolId < d.count then
    let timestamp := (d.slots symbolId).timestampUs
    if timestamp ≤ currentTimeUs then some (currentTimeUs - timestamp > thresholdUs) else none
  else some true

/-- `MarketDataStore::is_stale` in a release build, where the subtraction wraps. -/
def isStaleWrapping (d : MarketDataStore) (symbolId currentTimeUs thresholdUs : Nat) : Bool :=
  if symbolId < d.count then
    (currentTimeUs + 2 ^ 64 - (d.slots symbolId).timestampUs) % 2 ^ 64 > thresholdUs
  else true

def clear (_ : MarketDataStore) : MarketDataStore := new

end MarketDataStore

/-- The calls that change the store. -/
inductive StoreCall where
  | update (u : MarketUpdate)
  | clear

namespace MarketDataStore

def call (d : MarketDataStore) : StoreCall → MarketDataStore
  | .update u => d.update u
  | .clear => d.clear

/-- The store after these calls. -/
def after (calls : List StoreCall) : MarketDataStore := calls.foldl call new

end MarketDataStore

/-- A push to a bounded queue that drops its oldest element when it is full. -/
def pushBounded (capacity : Nat) (queue : List α) (a : α) : List α :=
  if queue.length < capacity then queue ++ [a] else queue.drop 1 ++ [a]

def marketQueueCapacity : Nat := 10000

end SpreadArb
