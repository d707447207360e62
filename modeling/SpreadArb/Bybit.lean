import SpreadArb.ExchangeParser
import SpreadArb.Assoc.Overlay

namespace SpreadArb
open Numeric

namespace Json

def asObject : Json → Option (List (String × Json))
  | .obj fields => some fields
  | _ => none

end Json

namespace Bybit

/-- What a topic is about. -/
inductive KeyType where
  | tickers
  | funding
deriving DecidableEq

def KeyType.name : KeyType → String
  | .tickers => "tickers"
  | .funding => "funding"

/-- `trim_start_matches("tickers.")`. -/
def trimTickers : List Char → List Char
  | 't' :: 'i' :: 'c' :: 'k' :: 'e' :: 'r' :: 's' :: '.' :: cs => trimTickers cs
  | cs => cs

/-- `trim_start_matches("funding.")`. -/
def trimFunding : List Char → List Char
  | 'f' :: 'u' :: 'n' :: 'd' :: 'i' :: 'n' :: 'g' :: '.' :: cs => trimFunding cs
  | cs => cs

def splitTopic (topic : String) : Option (KeyType × String) :=
  if "tickers.".toList.isPrefixOf topic.toList then
    some (.tickers,.ofList (trimTickers topic.toList))
  else if "funding.".toList.isPrefixOf topic.toList then
    some (.funding,.ofList (trimFunding topic.toList))
  else none

/-- The bid and the ask that a ticker itself brings, for the market pipeline. -/
def hotPath (symbolToId : String → Option Nat) (v : Json) (symbol : String) :
    Option (Nat × F64 × F64) := do
  let data ← v.get "data"
  let bid ← ((data.get "bid1Price").bind Json.asStr).bind (fun s => F64.parse s.toList)
  let ask ← ((data.get "ask1Price").bind Json.asStr).bind (fun s => F64.parse s.toList)
  let symbolId ← symbolToId symbol
  return (symbolId,bid,ask)

/-- The data fields of a message, written over those of the state. -/
def mergeData (data state : Json) : Json :=
  match state with
  | .obj fields =>
    match fields.lookup "data", data with
    | some (.obj obj), .obj newData =>
      .obj (Assoc.set "data" (.obj (Assoc.setAll newData obj)) fields)
    | _, _ => state
  | _ => state

/-- The other fields of a message, written over those of the state. -/
def mergeTop (v state : Json) : Json :=
  match state with
  | .obj fields => .obj (Assoc.setAll ((v.asObject.getD []).filter (fun e => e.1 ≠ "data")) fields)
  | _ => state

def key (keyType : KeyType) (symbol : String) : String :=
  "bybit:linear:" ++ keyType.name ++ ":" ++ symbol

/-- `ticker_state`. -/
abbrev TickerState := String → Option Json

/-- What comes of one message: an update for the market pipeline, and a key with its payload, here
as the value that the text spells. -/
structure Outcome where
  pushed : Option (Nat × F64 × F64)
  published : Option (String × Json)

/-- One message of `run_bybit_linear_ws_batch`, with a producer if `hot`. -/
def receive (symbolToId : String → Option Nat) (hot : Bool) (state : TickerState) (v : Json) :
    TickerState × Outcome :=
  match ((v.get "topic").bind Json.asStr).bind splitTopic with
  | none => (state,⟨none,none⟩)
  | some (.funding,symbol) => (state,⟨none,some (key .funding symbol,v)⟩)
  | some (.tickers,symbol) =>
    let pushed := if hot then hotPath symbolToId v symbol else none
    match v.get "data" with
    | none => (state,⟨pushed,none⟩)
    | some data =>
      let merged := mergeTop v (mergeData data ((state symbol).getD v))
      (Function.update state symbol (some merged),⟨pushed,some (key .tickers symbol,merged)⟩)

/-- The state after these messages on one connection. -/
def run (symbolToId : String → Option Nat) (hot : Bool) : TickerState → List Json → TickerState
  | state, [] => state
  | state, v :: messages => run symbolToId hot (receive symbolToId hot state v).1 messages

end Bybit

end SpreadArb
