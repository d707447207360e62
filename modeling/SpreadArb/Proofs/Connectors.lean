import SpreadArb.Connectors
import SpreadArb.Proofs.Symbols

namespace SpreadArb.Proofs.Connectors
open SpreadArb.Connectors ExchangeParser Quotes Symbols Assoc Numeric

section Keys

variable {exchange kind subkind : String} {b : Base}

/-- How an exchange spells the instrument of a base. -/
def instrument (exchange : String) (b : Base) : String :=
  match exchange with
  | "okx" => .ofList b.text ++ "-USDT-SWAP"
  | "kucoin" => b.symbol ++ "M"
  | "hyperliquid" => .ofList b.text
  | "paradex" => .ofList b.text ++ "-USD-PERP"
  | _ => b.symbol

/-- Where the prices of an exchange are kept. -/
def priceKinds (exchange : String) : List (String × String) :=
  match exchange with
  | "binance" => [("usdm","book")]
  | "okx" => [("usdt","tickers")]
  | "bitget" => [("usdt","tickers")]
  | "hyperliquid" => [("usdc","ctx"),("usdc","bbo")]
  | "paradex" => [("usdt","bbo")]
  | "kucoin" => [("futures","tickerV2")]
  | _ => []

/-- A base without an ending "USDT" is what remains of its symbol. -/
theorem trim_symbol (h : ¬"USDT".toList <:+ b.text) :
    String.ofList (trimEndUsdt b.symbol.toList) = .ofList b.text := by
  obtain ⟨r,hb,hr,_⟩ := trimEndUsdt_spec b.text
  rw [hr.mpr h,List.append_nil] at hb
  rw [Base.symbol,String.toList_ofList,trimEndUsdt_append,← hb]

theorem usdt_of_usd {s : List Char} (h : ¬"USD".toList <:+: s) : ¬"USDT".toList <:+ s := by
  intro hs
  apply h
  exact List.IsInfix.trans ⟨[],['T'],rfl⟩ hs.isInfix

/-- The detector looks for the prices of a legible base where they are kept. -/
theorem kept_where_looked (hlegible : Legible exchange b)
    (h : (kind,subkind) ∈ priceKinds exchange) :
    redisKey exchange kind subkind (instrument exchange b) ∈ getRedisKeyPatterns exchange
      b.symbol := by
  unfold priceKinds at h
  split at h
  all_goals
    simp only [List.mem_cons,List.not_mem_nil,or_false,Prod.mk.injEq] at h
  · obtain ⟨rfl,rfl⟩ := h
    have he : "binance".toLower = "binance" := by decide +kernel
    unfold getRedisKeyPatterns
    rw [he]
    exact List.mem_cons_of_mem _ List.mem_cons_self
  · obtain ⟨rfl,rfl⟩ := h
    have he : "okx".toLower = "okx" := by decide +kernel
    rw [Legible,he] at hlegible
    unfold getRedisKeyPatterns
    rw [he,trim_symbol hlegible]
    exact List.mem_cons_self
  · obtain ⟨rfl,rfl⟩ := h
    have he : "bitget".toLower = "bitget" := by decide +kernel
    unfold getRedisKeyPatterns
    rw [he]
    exact List.mem_cons_self
  · have he : "hyperliquid".toLower = "hyperliquid" := by decide +kernel
    rw [Legible,he] at hlegible
    unfold getRedisKeyPatterns
    rw [he,trim_symbol (usdt_of_usd hlegible.1)]
    obtain ⟨rfl,rfl⟩ | ⟨rfl,rfl⟩ := h
    · exact List.mem_cons_self
    · exact List.mem_cons_of_mem _ List.mem_cons_self
  · obtain ⟨rfl,rfl⟩ := h
    have he : "paradex".toLower = "paradex" := by decide +kernel
    rw [Legible,he] at hlegible
    unfold getRedisKeyPatterns
    rw [he,trim_symbol (usdt_of_usd hlegible)]
    exact List.mem_cons_self
  · obtain ⟨rfl,rfl⟩ := h
    have he : "kucoin".toLower = "kucoin" := by decide +kernel
    unfold getRedisKeyPatterns
    rw [he]
    exact List.mem_cons_self

end Keys

section Stateless

variable {lib : Library} {exchange bid ask : String} {b : Base} {v payload : Json}

/-- A message with the best prices of a base's instrument, and the part of it that is sent on. -/
inductive Ticks (b : Base) : String → Json → Json → String → String → Prop
  | binance {v data : Json} {streamName bid ask : String} (stream : text ["stream"] v =
    some streamName)
    (book : endsWith "@bookTicker".toList streamName.toList = true)
      (wrapped : v.get "data" = some data)
    (named : text ["data","s"] v = some (instrument "binance" b))
      (best : text ["b"] data = some bid)
    (offer : text ["a"] data = some ask) : Ticks b "binance" v data bid ask
  | okx {v : Json} {bid ask : String} (channel : text ["arg","channel"] v = some "tickers")
    (named : text ["arg","instId"] v = some (instrument "okx" b))
      (best : firstText "bidPx" v = some bid)
    (offer : firstText "askPx" v = some ask) : Ticks b "okx" v v bid ask
  | bitget {v : Json} {bid ask : String} (channel : text ["arg","channel"] v = some "ticker")
    (named : text ["arg","instId"] v = some (instrument "bitget" b))
      (best : firstText "bidPr" v = some bid)
    (offer : firstText "askPr" v = some ask) : Ticks b "bitget" v v bid ask
  | hyperliquidCtx {v : Json} {bid ask : String} (channel : text ["channel"] v =
    some "activeAssetCtx")
    (named : text ["data","coin"] v = some (instrument "hyperliquid" b))
    (best : (v.item ["data","ctx","impactPxs"] 0).bind Json.asStr = some bid)
    (offer : (v.item ["data","ctx","impactPxs"] 1).bind Json.asStr = some ask) :
      Ticks b "hyperliquid" v v bid ask
  | hyperliquidBbo {v : Json} {bid ask : String} (channel : text ["channel"] v = some "bbo")
    (named : text ["data","coin"] v = some (instrument "hyperliquid" b))
      (bare : v.path ["data","ctx"] = none)
    (best : ((v.item ["data","bbo"] 0).bind (Json.get "px")).bind Json.asStr = some bid)
    (offer : ((v.item ["data","bbo"] 1).bind (Json.get "px")).bind Json.asStr = some ask) :
    Ticks b "hyperliquid" v v bid ask
  | paradex {v : Json} {bid ask : String} (method : text ["method"] v = some "subscription")
    (channel : text ["params","channel"] v = some ("bbo." ++ instrument "paradex" b))
    (named : text ["params","data","market"] v = some (instrument "paradex" b))
    (best : text ["params","data","bid"] v = some bid)
      (offer : text ["params","data","ask"] v = some ask) :
    Ticks b "paradex" v v bid ask

/-- What the connector of an exchange sends without regard to earlier messages. -/
def sent (exchange : String) (v : Json) : Sent :=
  match exchange with
  | "binance" => binance v
  | "okx" => okx v
  | "bitget" => bitget v
  | "hyperliquid" => hyperliquid v
  | "gateio" => gateio v
  | "paradex" => paradex v
  | _ => []

/-- The quote that two texts make. -/
def quote (bid ask : String) : Option (F64 × F64) := do
  let bid ← parsePriceSimd bid
  let ask ← parsePriceSimd ask
  if F64.le bid (.fin 0) || F64.le ask (.fin 0) || F64.le ask bid then none else some (bid,ask)

theorem parseQuote_eq {value : String} (hv : lib.fromStr value = some payload)
    (hbid : (getParser exchange).parseBid payload = some bid)
    (hask : (getParser exchange).parseAsk payload = some ask) :
    parseQuote lib exchange value = quote bid ask := by
  simp [parseQuote,quote,hv,hbid,hask]

/-- Before the first point of a channel stands its type. -/
theorem part_bbo (market : String) : part '.' 0 ("bbo." ++ market) = some "bbo" := by
  have hsplit : ("bbo." ++ market).toList = ['b','b','o'] ++ '.' :: market.toList := by simp
  rw [part,hsplit,List.splitOn_append_cons_self,List.splitOn_eq_singleton (by decide)]
  rfl

theorem item_none {keys : List String} {key : String} {i : Nat} (h : v.path keys = none) :
    v.item (keys ++ [key]) i = none := by
  simp only [Json.path] at h
  simp [Json.item,Json.path,List.foldlM_append,h]

/-- A ticker is sent, and the exchange's parser finds its prices in what is sent. -/
theorem ticks_sent (h : Ticks b exchange v payload bid ask) :
    ∃ kind subkind, (kind,subkind) ∈ priceKinds exchange ∧
      (redisKey exchange kind subkind (instrument exchange b),payload) ∈ sent exchange v ∧
      (getParser exchange).parseBid payload = some bid ∧ (getParser exchange).parseAsk payload =
        some ask := by
  cases h with
  | binance stream book wrapped named best offer =>
    refine ⟨"usdm","book",by simp [priceKinds],?_,best,offer⟩
    change _ ∈ Connectors.binance v
    simp only [Connectors.binance,redisKeyFor,stream,book,wrapped,named,if_true]
    simp
  | okx channel named best offer =>
    refine ⟨"usdt","tickers",by simp [priceKinds],?_,best,offer⟩
    change _ ∈ Connectors.okx v
    simp [Connectors.okx,okxKind,channel,named]
  | bitget channel named best offer =>
    refine ⟨"usdt","tickers",by simp [priceKinds],?_,best,offer⟩
    change _ ∈ Connectors.bitget v
    simp [Connectors.bitget,channel,named]
  | hyperliquidCtx channel named best offer =>
    refine ⟨"usdc","ctx",by simp [priceKinds],?_,?_,?_⟩
    · change _ ∈ Connectors.hyperliquid v
      simp [Connectors.hyperliquid,channel,named]
    · change hyperliquidSide 0 v = some bid
      simp [hyperliquidSide,best]
    · change hyperliquidSide 1 v = some ask
      simp [hyperliquidSide,offer]
  | hyperliquidBbo channel named bare best offer =>
    have himpact (i : Nat) : v.item ["data","ctx","impactPxs"] i = none := item_none bare
    refine ⟨"usdc","bbo",by simp [priceKinds],?_,?_,?_⟩
    · change _ ∈ Connectors.hyperliquid v
      simp [Connectors.hyperliquid,channel,named]
    · change hyperliquidSide 0 v = some bid
      simp [hyperliquidSide,himpact,best]
    · change hyperliquidSide 1 v = some ask
      simp [hyperliquidSide,himpact,offer]
  | paradex method channel named best offer =>
    refine ⟨"usdt","bbo",by simp [priceKinds],?_,best,offer⟩
    change _ ∈ Connectors.paradex v
    simp [Connectors.paradex,method,channel,named,part_bbo]

/-- A key that names a base is looked up for no other. -/
theorem key_of_one (hlib : KeepsUpper lib) (hlegible : Legible exchange b) {key : String}
    (hkey : key ∈ getRedisKeyPatterns exchange b.symbol) {b' : Base}
    (hlegible' : Legible exchange b') (hne : b' ≠ b) :
    key ∉ getRedisKeyPatterns exchange b'.symbol := by
  intro hkey'
  have hapart := apart_of_roundTrips ((roundTrips_iff hlib exchange b').mpr hlegible')
    ((roundTrips_iff hlib exchange b).mpr hlegible) hne
  exact hapart key hkey' key hkey rfl

/-- What the feed makes of a payload that is kept under a key of a base. -/
theorem update_of_kept (hlib : KeepsUpper lib) (hlegible : Legible exchange b)
    (he : ':' ∉ exchange.toList) {key value : String}
    (hkey : key ∈ getRedisKeyPatterns exchange b.symbol) (hvalue : lib.fromStr value = some payload)
    (hbid : (getParser exchange).parseBid payload = some bid)
    (hask : (getParser exchange).parseAsk payload = some ask) (m : SymbolMap) (timestampUs : Nat) :
    (parseToMarketUpdate lib m key value timestampUs).1 =
      (quote bid ask).map fun q => ⟨(m.getOrInsert exchange b.symbol).1,q.1,q.2,timestampUs⟩ := by
  have hpair := keyPair_pattern lib he b.colonless hkey
  rw [(roundTrips_iff hlib exchange b).mpr hlegible key hkey] at hpair
  have hquote := parseQuote_eq hvalue hbid hask
  rw [parseToMarketUpdate,hpair]
  simp only [hquote]
  cases quote bid ask with
  | none => rfl
  | some q => rfl

theorem ticks_colonless (h : Ticks b exchange v payload bid ask) : ':' ∉ exchange.toList := by
  cases h
  all_goals decide

/-- A ticker that a connector hears is kept where the detector looks for its base and for no other,
and is read there with the prices it came with. -/
theorem ticker_read_back (hlib : KeepsUpper lib) (hlegible : Legible exchange b)
    (h : Ticks b exchange v payload bid ask) {value : String}
    (hvalue : lib.fromStr value = some payload) :
    ∃ key, (key,payload) ∈ sent exchange v ∧ key ∈ getRedisKeyPatterns exchange b.symbol ∧
      (∀ b', Legible exchange b' → b' ≠ b → key ∉ getRedisKeyPatterns exchange b'.symbol) ∧
      ∀ m timestampUs, (parseToMarketUpdate lib m key value timestampUs).1 =
        (quote bid ask).map fun q => ⟨(m.getOrInsert exchange b.symbol).1,q.1,q.2,timestampUs⟩ := by
  obtain ⟨kind,subkind,hkept,hsent,hbid,hask⟩ := ticks_sent h
  have hkey := kept_where_looked hlegible hkept
  refine ⟨_,hsent,hkey,?_,?_⟩
  · intro b' hlegible' hne
    exact key_of_one hlib hlegible hkey hlegible' hne
  · exact update_of_kept hlib hlegible (ticks_colonless h) hkey hvalue hbid hask

def okxTicker : Json :=
  .obj [("arg",.obj [("channel",.str "tickers"),("instId",.str "BTC-USDT-SWAP")]),
    ("data",.arr [.obj [("bidPx",.str "100"),("askPx",.str "101")]])]

theorem okx_ticker_read_back :
    ∃ key, (key,okxTicker) ∈ sent "okx" okxTicker ∧ key ∈ getRedisKeyPatterns "okx" "BTCUSDT" ∧
      ∀ m us, (parseToMarketUpdate (reading [("ticker",okxTicker)]) m key "ticker" us).1 =
        some ⟨(m.getOrInsert "okx" "BTCUSDT").1,.fin 100,.fin 101,us⟩ := by
  have hlegible : Legible "okx" btc := by
    have he : "okx".toLower = "okx" := by decide +kernel
    have hbtc : ¬"USDT".toList <:+ btc.text := by decide
    rw [Legible,he]
    exact hbtc
  have hticks : Ticks btc "okx" okxTicker okxTicker "100" "101" :=
    .okx rfl (by decide +kernel) rfl rfl
  have hquote : quote "100" "101" = some (.fin 100,.fin 101) := by decide +kernel
  have hvalue : (reading [("ticker",okxTicker)]).fromStr "ticker" = some okxTicker := rfl
  obtain ⟨key,hsent,hkey,_,hread⟩ := ticker_read_back (keepsUpper_reading _) hlegible hticks hvalue
  refine ⟨key,hsent,hkey,?_⟩
  intro m us
  rw [hread,hquote]
  rfl

end Stateless

section Kucoin

variable {b : Base} {symbol : String} {v payload : Json} {messages : List Json}

/-- The symbol of a ticker of KuCoin's. -/
def tickerOf (v : Json) : Option String :=
  match text ["type"] v, text ["topic"] v with
  | some "message", some topic =>
    if startsWith "/contractMarket/tickerV2:" topic then kucoinSymbol topic (v.get "data") else none
  | _, _ => none

def fields (v : Json) : List (String × Json) := v.asObject.getD []

/-- A map of `serde_json` has each key once. -/
def Once (v : Json) : Prop := ((fields v).map Prod.fst).Nodup

/-- The tickers of a symbol. -/
def tickersOf (symbol : String) (messages : List Json) : List Json :=
  messages.filter (fun v => tickerOf v = some symbol)

theorem topic_of_ticker (h : tickerOf v = some symbol) :
    ∃ topic, text ["type"] v = some "message" ∧ text ["topic"] v = some topic ∧
      startsWith "/contractMarket/tickerV2:" topic = true ∧ kucoinSymbol topic (v.get "data") =
        some symbol := by
  unfold tickerOf at h
  split at h
  · rename_i topic htype htopic
    split at h
    · rename_i hstart
      exact ⟨topic,htype,htopic,hstart,h⟩
    · cases h
  · cases h

/-- What a ticker makes of the state of its symbol. -/
def merge (v : Json) (state : Option Json) : Json := mergeAll v (state.getD v)

theorem kucoin_ticker (state : SymbolState) (h : tickerOf v = some symbol) :
    kucoin state v = (Function.update state symbol (some (merge v (state symbol))),
      [(redisKey "kucoin" "futures" "tickerV2" symbol,merge v (state symbol))]) := by
  obtain ⟨topic,htype,htopic,hstart,hsymbol⟩ := topic_of_ticker h
  unfold Connectors.kucoin
  rw [htype,htopic]
  simp only [hstart,if_true,hsymbol]
  rfl

theorem kucoin_other (state : SymbolState) (h : tickerOf v = none) :
    (kucoin state v).1 = state := by
  unfold Connectors.kucoin
  unfold tickerOf at h
  split
  · rename_i topic htype htopic
    rw [htype,htopic] at h
    by_cases hstart : startsWith "/contractMarket/tickerV2:" topic = true
    · simp only [hstart,if_true] at h ⊢
      rw [h]
    · simp only [hstart]
      split
      · rename_i hfalse
        cases hfalse
      · split
        · rfl
        · rfl
  · rfl

/-- The state of a symbol is decided by its own tickers. -/
def merges (state : Option Json) (tickers : List Json) : Option Json :=
  tickers.foldl (fun state v => some (merge v state)) state

theorem run_symbol (symbol : String) (messages : List Json) (state : SymbolState) :
    kucoinRun state messages symbol = merges (state symbol) (tickersOf symbol messages) := by
  induction messages generalizing state with
  | nil => rfl
  | cons v messages ih =>
    rw [kucoinRun,ih]
    cases hv : tickerOf v with
    | none => simp [kucoin_other state hv,tickersOf,hv]
    | some other =>
      rw [kucoin_ticker state hv]
      by_cases h : other = symbol
      · subst h
        simp [tickersOf,hv,merges]
      · simp [tickersOf,hv,h,Function.update_of_ne (Ne.symm h)]

/-- A payload with the last value of each field of these tickers. -/
def Merged (tickers : List Json) (payload : Json) : Prop :=
  (∃ entries, payload = .obj entries) ∧
    ∀ field, payload.get field = latest (tickers.map fields) field

theorem object_of_ticker (h : tickerOf v = some symbol) : v = .obj (fields v) := by
  obtain ⟨topic,htype,_⟩ := topic_of_ticker h
  cases v with
  | obj entries => rfl
  | _ => simp [text,Json.path,Json.get] at htype

theorem merged_ticker (h : tickerOf v = some symbol) : Merged [v] v := by
  have hv := object_of_ticker h
  refine ⟨⟨_,hv⟩,?_⟩
  intro field
  rw [List.map_singleton,latest_singleton]
  nth_rewrite 1 [hv]
  rfl

/-- One more ticker. -/
theorem merged_step {tickers : List Json} {state : Json} (hm : Merged tickers state)
    (h : tickerOf v = some symbol) (honce : Once v) :
    Merged (tickers ++ [v]) (mergeAll v state) := by
  obtain ⟨⟨entries,rfl⟩,hlast⟩ := hm
  have hmerge : mergeAll v (.obj entries) = .obj (setAll (fields v) entries) := by
    rw [object_of_ticker h]
    rfl
  rw [hmerge]
  refine ⟨⟨_,rfl⟩,?_⟩
  intro field
  have hold : entries.lookup field = latest (tickers.map fields) field := hlast field
  have hnew : (Json.obj (setAll (fields v) entries)).get field =
      ((fields v).lookup field).or (entries.lookup field) :=
    lookup_setAll honce entries field
  rw [hnew,hold,List.map_append,List.map_singleton,latest_concat]

theorem merged_first (h : tickerOf v = some symbol) (honce : Once v) :
    Merged [v] (mergeAll v v) := by
  obtain ⟨hobj,hlast⟩ := merged_step (merged_ticker h) h honce
  refine ⟨hobj,?_⟩
  intro field
  rw [hlast]
  exact latest_twice (fields v) field

theorem merged_merges (tickers : List Json) (h : ∀ v ∈ tickers, tickerOf v = some symbol ∧ Once v)
    {done : List Json} {state : Json} (hm : Merged done state) :
    ∃ payload, merges (some state) tickers = some payload ∧ Merged (done ++ tickers) payload := by
  induction tickers generalizing done state with
  | nil => exact ⟨state,rfl,by simpa using hm⟩
  | cons v tickers ih =>
    obtain ⟨⟨hv,honce⟩,hrest⟩ := List.forall_mem_cons.mp h
    obtain ⟨payload,hpayload,hmerged⟩ := ih hrest (merged_step hm hv honce)
    exact ⟨payload,hpayload,by simpa using hmerged⟩

theorem merged_of_merges (tickers : List Json)
    (h : ∀ v ∈ tickers, tickerOf v = some symbol ∧ Once v) (hv : tickerOf v = some symbol)
    (honce : Once v) : Merged (tickers ++ [v]) (merge v (merges none tickers)) := by
  cases tickers with
  | nil => exact merged_first hv honce
  | cons first tickers =>
    obtain ⟨⟨hfirst,hfirstOnce⟩,hrest⟩ := List.forall_mem_cons.mp h
    obtain ⟨payload,hpayload,hmerged⟩ :=
      merged_merges tickers hrest (merged_first hfirst hfirstOnce)
    have hstate : merges none (first :: tickers) = some payload := hpayload
    rw [hstate]
    exact merged_step hmerged hv honce

/-- The data of the last ticker are all the data of the payload. -/
theorem data_merged {tickers : List Json} (hm : Merged (tickers ++ [v]) payload)
    (h : tickerOf v = some symbol) {data : Json} (hdata : v.get "data" = some data) :
    payload.get "data" = some data := by
  have hlookup : (fields v).lookup "data" = some data := by
    rw [object_of_ticker h] at hdata
    exact hdata
  rw [hm.2,List.map_append,List.map_singleton,latest_concat,hlookup]
  rfl

theorem text_data {data : Json} (hdata : payload.get "data" = some data) (field : String) :
    text ["data",field] payload = (data.get field).bind Json.asStr := by
  simp [text,Json.path,hdata]

/-- A payload of KuCoin's has the last value of each field that the tickers of its symbol had, on
one connection; it is kept where the detector looks for the symbol, and is read there with the
prices of the last ticker alone. -/
theorem kucoin_read_back (messages : List Json) (honce : ∀ m ∈ messages ++ [v], Once m)
    (hv : tickerOf v = some (instrument "kucoin" b)) {data : Json}
    (hdata : v.get "data" = some data) {bid ask : String}
    (hbid : (data.get "bestBidPrice").bind Json.asStr = some bid)
    (hask : (data.get "bestAskPrice").bind Json.asStr = some ask) :
    ∃ key payload, (kucoin (kucoinRun (fun _ => none) messages) v).2 = [(key,payload)] ∧
      (∀ field, payload.get field =
        latest ((tickersOf (instrument "kucoin" b) messages ++ [v]).map fields) field) ∧
      key ∈ getRedisKeyPatterns "kucoin" b.symbol ∧
      ∀ lib value, KeepsUpper lib → lib.fromStr value = some payload → ∀ m timestampUs,
        (parseToMarketUpdate lib m key value timestampUs).1 =
          (quote bid ask).map fun q =>
            ⟨(m.getOrInsert "kucoin" b.symbol).1,q.1,q.2,timestampUs⟩ := by
  have hlegible : Legible "kucoin" b := legible_of_spelled (by decide +kernel) b
  have hkey := kept_where_looked hlegible
      (by simp [priceKinds] : ("futures","tickerV2") ∈ priceKinds "kucoin")
  have htickers : ∀ m ∈ tickersOf (instrument "kucoin" b) messages,
      tickerOf m = some (instrument "kucoin" b) ∧ Once m := by
    intro m hm
    obtain ⟨hmem,htick⟩ := List.mem_filter.mp hm
    exact ⟨by simpa using htick,honce m (List.mem_append_left _ hmem)⟩
  have hmerged := merged_of_merges _ htickers hv (honce v (by simp))
  have hpayload := data_merged hmerged hv hdata
  refine ⟨_,_,by rw [kucoin_ticker _ hv,run_symbol],hmerged.2,hkey,?_⟩
  intro lib value hlib hvalue m timestampUs
  refine update_of_kept hlib hlegible (by decide) hkey hvalue ?_ ?_ m timestampUs
  · exact (text_data hpayload "bestBidPrice").trans hbid
  · exact (text_data hpayload "bestAskPrice").trans hask

def kucoinTicker (data : List (String × Json)) : Json :=
  .obj [("type",.str "message"),("topic",.str "/contractMarket/tickerV2:BTCUSDTM"),
    ("data",.obj data)]

def kucoinQuote (bid ask : String) : Json :=
  kucoinTicker [("bestBidPrice",.str bid),("bestAskPrice",.str ask)]

theorem second_kucoin_ticker_read :
    let v := kucoinQuote "102" "103"
    ∃ key payload, (Connectors.kucoin (kucoinRun (fun _ => none) [kucoinQuote "100" "101"]) v).2 =
      [(key,payload)] ∧
      key ∈ getRedisKeyPatterns "kucoin" "BTCUSDT" ∧
      ∀ m us, (parseToMarketUpdate (reading [("ticker",payload)]) m key "ticker" us).1 =
        some ⟨(m.getOrInsert "kucoin" "BTCUSDT").1,.fin 102,.fin 103,us⟩ := by
  intro v
  have honce : ∀ m ∈ [kucoinQuote "100" "101"] ++ [v], Once m := by
    simp [v,kucoinQuote,kucoinTicker,Once,fields,Json.asObject]
  have hv : tickerOf v = some (instrument "kucoin" btc) := by decide +kernel
  have hquote : quote "102" "103" = some (.fin 102,.fin 103) := by decide +kernel
  obtain ⟨key,payload,hsent,_,hkey,hread⟩ := kucoin_read_back _ honce hv rfl rfl rfl
  refine ⟨key,payload,hsent,hkey,?_⟩
  intro m us
  have hvalue : (reading [("ticker",payload)]).fromStr "ticker" = some payload := rfl
  rw [hread _ _ (keepsUpper_reading _) hvalue m us,hquote]
  rfl

end Kucoin

end SpreadArb.Proofs.Connectors
