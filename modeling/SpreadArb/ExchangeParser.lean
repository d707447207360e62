import SpreadArb.Market

namespace SpreadArb
open Numeric

/-- `serde_json::Value`, a number as its text. No price is read from a number. -/
inductive Json where
  | null
  | bool (b : Bool)
  | number (text : String)
  | str (s : String)
  | arr (items : List Json)
  | obj (fields : List (String × Json))

namespace Json

def get (key : String) : Json → Option Json
  | .obj fields => fields.lookup key
  | _ => none

def asArray : Json → Option (List Json)
  | .arr items => some items
  | _ => none

def asStr : Json → Option String
  | .str s => some s
  | _ => none

/-- The member of an object at the end of a path of keys. -/
def path (keys : List String) (j : Json) : Option Json := keys.foldlM (fun j key => j.get key) j

/-- An element of the array at the end of a path. -/
def item (keys : List String) (i : Nat) (j : Json) : Option Json := do
  let items ← (← j.path keys).asArray
  items[i]?

end Json

/-- What a parser of `get_parser` extracts from a ticker. -/
structure ExchangeParser where
  parseBid : Json → Option String
  parseAsk : Json → Option String

namespace ExchangeParser

/-- The string at the end of a path of keys. -/
def text (keys : List String) (j : Json) : Option String := (j.path keys).bind Json.asStr

/-- The string under a key in the first element of the array at `data`. -/
def firstText (key : String) (j : Json) : Option String :=
  ((j.item ["data"] 0).bind (Json.get key)).bind Json.asStr

def binance : ExchangeParser := ⟨text ["b"],text ["a"]⟩

def bybit : ExchangeParser := ⟨text ["data","bid1Price"],text ["data","ask1Price"]⟩

def okx : ExchangeParser := ⟨firstText "bidPx",firstText "askPx"⟩

/-- The impact prices, else the best bid and offer. -/
def hyperliquidSide (i : Nat) (j : Json) : Option String :=
  ((j.item ["data","ctx","impactPxs"] i).bind Json.asStr).or
    (((j.item ["data","bbo"] i).bind (Json.get "px")).bind Json.asStr)

def hyperliquid : ExchangeParser := ⟨hyperliquidSide 0,hyperliquidSide 1⟩

def kucoin : ExchangeParser := ⟨text ["data","bestBidPrice"],text ["data","bestAskPrice"]⟩

def bitget : ExchangeParser := ⟨firstText "bidPr",firstText "askPr"⟩

def gateio : ExchangeParser where
  parseBid := fun j => (text ["result","highest_bid"] j).or (text ["result","b"] j)
  parseAsk := fun j => (text ["result","lowest_ask"] j).or (text ["result","a"] j)

def paradex : ExchangeParser := ⟨text ["params","data","bid"],text ["params","data","ask"]⟩

end ExchangeParser

def getParser (exchange : String) : ExchangeParser :=
  match exchange with
  | "binance" => .binance
  | "bybit" => .bybit
  | "okx" => .okx
  | "hyperliquid" => .hyperliquid
  | "kucoin" => .kucoin
  | "bitget" => .bitget
  | "gateio" => .gateio
  | "paradex" => .paradex
  | _ => .binance

/-- The outcome of the fast price loop. -/
inductive PriceScan where
  | value (q : ℚ)
  | fallback
  | invalid

/-- The digits of a price, one by one. -/
def scanPrice : List Char → Nat → Nat → Bool → PriceScan
  | [], result, decimalPlaces, _ => .value (result / 10 ^ decimalPlaces)
  | c :: cs, result, decimalPlaces, foundDecimal =>
    if c = '.' then
      if foundDecimal then .fallback else scanPrice cs result decimalPlaces true
    else if c.isDigit then
      scanPrice cs (result * 10 + (c.toNat - '0'.toNat))
        (if foundDecimal then decimalPlaces+1 else decimalPlaces) foundDecimal
    else if c = 'e' || c = 'E' then .fallback
    else .invalid

/-- Whether a price is negative, and what follows the sign. -/
def splitSign : List Char → Bool × List Char
  | '-' :: cs => (true,cs)
  | cs => (false,cs)

/-- `parse_price_fast`. -/
def parsePriceFast (cs : List Char) : Option F64 :=
  if cs = [] || (cs.map Char.utf8Size).sum > 32 then F64.parse cs
  else
    match scanPrice (splitSign cs).2 0 0 false with
    | .value q => some (.fin (if (splitSign cs).1 then -q else q))
    | .fallback => F64.parse cs
    | .invalid => none

/-- `parse_price_simd` without the vector unit. -/
def parsePriceSimd (s : String) : Option F64 :=
  if s = "" then none else parsePriceFast s.toList

/-- The library functions the feed relies on: `serde_json::from_str`, and the upper case of a
string after Unicode. -/
structure Library where
  fromStr : String → Option Json
  toUppercase : String → String

section Normalize

def endsWith (suffix s : List Char) : Bool := suffix.isSuffixOf s

def contains (part s : List Char) : Bool := s.tails.any part.isPrefixOf

def dropEnd (n : Nat) (s : List Char) : List Char := s.take (s.length - n)

/-- `replace("USD", "USDT")`. -/
def replaceUsd : List Char → List Char
  | 'U' :: 'S' :: 'D' :: cs => 'U' :: 'S' :: 'D' :: 'T' :: replaceUsd cs
  | c :: cs => c :: replaceUsd cs
  | [] => []

/-- `normalize_symbol` after the upper case. -/
def normalizeUpper (s : List Char) : List Char :=
  let s := s.filter (· ≠ '-')
  let s := if endsWith "SWAP".toList s then dropEnd 4 s else s
  let s := if endsWith "PERP".toList s then dropEnd 4 s else s
  let s := if endsWith "USDTM".toList s then dropEnd 1 s else s
  let s := if contains "USD".toList s && !contains "USDT".toList s then replaceUsd s else s
  if !contains "USDT".toList s then s ++ "USDT".toList else s

def normalizeSymbol (lib : Library) (symbol : String) : String :=
  .ofList (normalizeUpper (lib.toUppercase symbol).toList)

end Normalize

section Keys

/-- The loop of `trim_end_matches("USDT")`, from the end of the text. -/
def trimReversed : List Char → List Char
  | 'T' :: 'D' :: 'S' :: 'U' :: cs => trimReversed cs
  | cs => cs

def trimEndUsdt (s : List Char) : List Char := (trimReversed s.reverse).reverse

/-- A key "exchange:type:subtype:symbol". -/
def redisKey (exchange kind subkind segment : String) : String :=
  exchange ++ ":" ++ kind ++ ":" ++ subkind ++ ":" ++ segment

/-- `get_redis_key_patterns`. -/
def getRedisKeyPatterns (exchange symbol : String) : List String :=
  let base := String.ofList (trimEndUsdt symbol.toList)
  match exchange.toLower with
  | "bybit" => [redisKey exchange "linear" "tickers" symbol]
  | "bitget" => [redisKey exchange "usdt" "tickers" symbol]
  | "binance" => [redisKey exchange "linear" "tickers" symbol,
    redisKey exchange "usdm" "book" symbol]
  | "okx" => [redisKey exchange "usdt" "tickers" (base ++ "-USDT-SWAP"),
    redisKey exchange "usdt" "tickers" symbol]
  | "kucoin" =>
    [redisKey exchange "futures" "tickerV2" (symbol ++ "M"),
      redisKey exchange "futures" "tickerV2" symbol]
  | "hyperliquid" => [redisKey exchange "usdc" "ctx" base,redisKey exchange "usdc" "bbo" base]
  | "gateio" => [redisKey exchange "usdt" "tickers" symbol]
  | "paradex" => [redisKey exchange "usdt" "bbo" (base ++ "-USD-PERP"),
    redisKey exchange "usdt" "tickers" symbol]
  | "lighter" => [redisKey exchange "usdt" "data" symbol]
  | _ => [redisKey exchange "linear" "tickers" symbol]

end Keys

/-- The exchange and the normalized symbol a key names. -/
def keyPair (lib : Library) (key : String) : Option Pair :=
  match key.toList.splitOn ':' with
  | exchange :: a :: b :: parts =>
    some (.ofList exchange,normalizeSymbol lib (.ofList ((b :: parts).getLast (by simp))))
  | _ => none

/-- The bid and the ask in a message, if they make a quote. -/
def parseQuote (lib : Library) (exchange value : String) : Option (F64 × F64) := do
  let json ← lib.fromStr value
  let bidStr ← (getParser exchange).parseBid json
  let askStr ← (getParser exchange).parseAsk json
  let bid ← parsePriceSimd bidStr
  let ask ← parsePriceSimd askStr
  if F64.le bid (.fin 0) || F64.le ask (.fin 0) || F64.le ask bid then none else some (bid,ask)

/-- `parse_to_market_update` at the time `timestampUs`. -/
def parseToMarketUpdate (lib : Library) (m : SymbolMap) (key value : String) (timestampUs : Nat) :
    Option MarketUpdate × SymbolMap :=
  match keyPair lib key with
  | none => (none,m)
  | some (exchange,symbol) =>
    match parseQuote lib exchange value with
    | none => (none,m)
    | some (bid,ask) =>
      let (symbolId,m) := m.getOrInsert exchange symbol
      (some ⟨symbolId,bid,ask,timestampUs⟩,m)

end SpreadArb
