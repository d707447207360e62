import SpreadArb.Bybit

namespace SpreadArb.Connectors
open ExchangeParser

/-- What a connector sends for a message: keys with their payloads, here as the values that the
texts spell. -/
abbrev Sent := List (String × Json)

def startsWith (part s : String) : Bool := part.toList.isPrefixOf s.toList

/-- `split(sep).nth(n)`. -/
def part (sep : Char) (n : Nat) (s : String) : Option String :=
  (s.toList.splitOn sep)[n]?.map String.ofList

section Binance

/-- `redis_key_for`. -/
def redisKeyFor (streamName symbol : String) : Option String :=
  if endsWith "@bookTicker".toList streamName.toList then
    some (redisKey "binance" "usdm" "book" symbol)
  else if contains "@markPrice".toList streamName.toList then
    some (redisKey "binance" "usdm" "mark" symbol)
  else none

/-- A message of Binance's combined stream, which wraps its data. -/
def binance (v : Json) : Sent :=
  match text ["stream"] v, v.get "data", text ["data","s"] v with
  | some streamName, some data, some symbol =>
    (redisKeyFor streamName symbol).toList.map (fun key => (key,data))
  | _, _, _ => []

end Binance

section Okx

/-- How a channel is named in a key. -/
def okxKind (channel : String) : Option String :=
  match channel with
  | "tickers" => some "tickers"
  | "funding-rate" => some "funding"
  | "books5" => some "book"
  | _ => none

def okx (v : Json) : Sent :=
  match (text ["arg","channel"] v).bind okxKind, text ["arg","instId"] v with
  | some kind, some instId => [(redisKey "okx" "usdt" kind instId,v)]
  | _, _ => []

end Okx

/-- A ticker of Bitget's is sent as its funding, too. -/
def bitget (v : Json) : Sent :=
  match text ["arg","channel"] v, text ["arg","instId"] v with
  | some "ticker", some instId =>
    [(redisKey "bitget" "usdt" "tickers" instId,v),(redisKey "bitget" "usdt" "funding" instId,v)]
  | some "books5", some instId => [(redisKey "bitget" "usdt" "book" instId,v)]
  | _, _ => []

def hyperliquid (v : Json) : Sent :=
  match text ["channel"] v, text ["data","coin"] v with
  | some "activeAssetCtx", some coin => [(redisKey "hyperliquid" "usdc" "ctx" coin,v)]
  | some "bbo", some coin => [(redisKey "hyperliquid" "usdc" "bbo" coin,v)]
  | _, _ => []

def gateio (v : Json) : Sent :=
  let channel := (text ["channel"] v).getD ""
  if channel = "futures.tickers" ∨ channel = "futures.ticker" then
    match text ["result","contract"] v with
    | some contract =>
      [(redisKey "gateio" "usdt" "tickers" contract,v),
        (redisKey "gateio" "usdt" "funding" contract,v)]
    | none => []
  else if channel = "futures.book_ticker" then
    match text ["result","s"] v with
    | some contract => [(redisKey "gateio" "usdt" "book" contract,v)]
    | none => []
  else []

/-- The channel's type stands before the first point. -/
def paradex (v : Json) : Sent :=
  if (text ["method"] v).getD "" = "subscription" then
    match text ["params","data","market"] v with
    | some market =>
      let channelType := (part '.' 0 ((text ["params","channel"] v).getD "")).getD ""
      [(redisKey "paradex" "usdt" channelType market,v)]
    | none => []
  else []

section Kucoin

/-- `symbol_state`. -/
abbrev SymbolState := String → Option Json

/-- All fields of a message, written over those of the state. -/
def mergeAll (v state : Json) : Json :=
  match state, v with
  | .obj stateObj, .obj newObj => .obj (Assoc.setAll newObj stateObj)
  | _, _ => state

/-- The symbol in the data, else the one in the topic. -/
def kucoinSymbol (topic : String) (data : Option Json) : Option String :=
  ((data.bind (Json.get "symbol")).bind Json.asStr).or (part ':' 1 topic)

/-- `kucoin_redis_key_and_payload`. -/
def kucoinRedisKeyAndPayload (topic subject : String) (data : Option Json) (full : Json) :
    Option (String × Json) :=
  if startsWith "/contractMarket/tickerV2:" topic then
    (kucoinSymbol topic data).map (fun symbol =>
      (redisKey "kucoin" "futures" "tickerV2" symbol,full))
  else if startsWith "/contractMarket/level2:" topic then
    (part ':' 1 topic).map (fun symbol => (redisKey "kucoin" "futures" "level2" symbol,full))
  else if startsWith "/contract/instrument:" topic then
    (part ':' 1 topic).map (fun symbol =>
      (redisKey "kucoin" "futures" "instrument" (symbol ++ ":" ++ subject),full))
  else if topic = "/contract/announcement" then
    ((data.bind (Json.get "symbol")).bind Json.asStr).map
      (fun symbol => (redisKey "kucoin" "futures" "funding_settlement" (symbol ++ ":" ++ subject),
        full))
  else none

/-- One message of a connection, with the state of its symbols. -/
def kucoin (state : SymbolState) (v : Json) : SymbolState × Sent :=
  match text ["type"] v, text ["topic"] v with
  | some "message", some topic =>
    let subject := (text ["subject"] v).getD ""
    let data := v.get "data"
    if startsWith "/contractMarket/tickerV2:" topic then
      match kucoinSymbol topic data with
      | some symbol =>
        let merged := mergeAll v ((state symbol).getD v)
        (Function.update state symbol (some merged),
          [(redisKey "kucoin" "futures" "tickerV2" symbol,merged)])
      | none => (state,[])
    else if startsWith "/contract/instrument:" topic ∧ subject = "funding.rate" then
      (state,((part ':' 1 topic).map
        (fun symbol => (redisKey "kucoin" "futures" "instrument" (symbol ++ ":" ++ subject),
          v))).toList)
    else (state,(kucoinRedisKeyAndPayload topic subject data v).toList)
  | _, _ => (state,[])

/-- The state after these messages. -/
def kucoinRun : SymbolState → List Json → SymbolState
  | state, [] => state
  | state, v :: messages => kucoinRun (kucoin state v).1 messages

end Kucoin

end SpreadArb.Connectors
