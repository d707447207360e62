import SpreadArb.Bybit

namespace SpreadArb.Proofs.Tickers
open Bybit Assoc

/-- A ticker message with an object as its data. A map of `serde_json` has each key once. -/
structure Ticker where
  symbol : String
  fields : List (String × Json)
  data : List (String × Json)
  topic : (((Json.obj fields).get "topic").bind Json.asStr).bind splitTopic = some (.tickers,symbol)
  found : fields.lookup "data" = some (.obj data)
  fieldsOnce : (fields.map Prod.fst).Nodup
  dataOnce : (data.map Prod.fst).Nodup

namespace Ticker

def message (t : Ticker) : Json := .obj t.fields

end Ticker

/-- A message of the connection: a ticker, or one with another topic or none. -/
inductive Heard where
  | ticker (t : Ticker)
  | other (v : Json) (h : ∀ symbol,
    ((v.get "topic").bind Json.asStr).bind splitTopic ≠ some (.tickers,symbol))

def Heard.message : Heard → Json
  | .ticker t => t.message
  | .other v _ => v

/-- The tickers of a symbol so far, the newest last. -/
def history (symbol : String) (heard : List Heard) : List Ticker :=
  heard.filterMap fun
    | .ticker t => if t.symbol = symbol then some t else none
    | .other _ _ => none

/-- A payload with the last value of each field of these tickers. -/
structure Merged (tickers : List Ticker) (payload : Json) : Prop where
  data : ∃ data, payload.get "data" = some (.obj data) ∧
    ∀ field, data.lookup field = latest (tickers.map Ticker.data) field
  top : ∀ field, field ≠ "data" → payload.get field = latest (tickers.map Ticker.fields) field

section Merge

/-- A message is a merge of itself. -/
theorem merged_message (t : Ticker) : Merged [t] t.message where
  data := ⟨t.data,t.found,fun field => (latest_singleton t.data field).symm⟩
  top field _ := (latest_singleton t.fields field).symm

theorem get_mergeTop (t : Ticker) (fields : List (String × Json)) (field : String) :
    (mergeTop t.message (.obj fields)).get field =
      if field = "data" then fields.lookup field
        else (t.fields.lookup field).or (fields.lookup field) := by
  change (setAll (t.fields.filter (fun e => e.1 ≠ "data")) fields).lookup field = _
  rw [lookup_setAll (nodup_without t.fieldsOnce "data"),lookup_without]
  by_cases h : field = "data"
  · rw [if_pos h,if_pos h]
    rfl
  · rw [if_neg h,if_neg h]

/-- One more ticker. -/
theorem merged_step {tickers : List Ticker} {state : Json} (h : Merged tickers state) (t : Ticker) :
    Merged (tickers ++ [t]) (mergeTop t.message (mergeData (.obj t.data) state)) := by
  obtain ⟨⟨data,hdata,hlast⟩,htop⟩ := h
  obtain ⟨fields,rfl⟩ : ∃ fields, state = .obj fields := by
    cases state with
    | obj fields => exact ⟨fields,rfl⟩
    | _ => cases hdata
  have hmerge : mergeData (.obj t.data) (.obj fields) =
      .obj (set "data" (.obj (setAll t.data data)) fields) := by
    have hlookup : fields.lookup "data" = some (.obj data) := hdata
    simp only [mergeData,hlookup]
  rw [hmerge]
  refine ⟨⟨setAll t.data data,?_,?_⟩,?_⟩
  · rw [get_mergeTop,if_pos rfl,lookup_set,if_pos rfl]
  · intro field
    rw [lookup_setAll t.dataOnce,List.map_append,List.map_cons,List.map_nil,latest_concat,hlast]
  · intro field hne
    have hold : fields.lookup field = latest (tickers.map Ticker.fields) field := htop field hne
    rw [get_mergeTop,if_neg hne,lookup_set,if_neg hne,List.map_append,List.map_cons,List.map_nil,
      latest_concat,hold]

/-- The first ticker of a symbol is merged into itself. -/
theorem merged_first (t : Ticker) :
    Merged [t] (mergeTop t.message (mergeData (.obj t.data) t.message)) := by
  obtain ⟨⟨data,hdata,hlast⟩,htop⟩ := merged_step (merged_message t) t
  refine ⟨⟨data,hdata,?_⟩,?_⟩
  · intro field
    exact (hlast field).trans (latest_twice t.data field)
  · intro field hne
    exact (htop field hne).trans (latest_twice t.fields field)

end Merge

section Run

variable {symbolToId : String → Option Nat} {hot : Bool}

/-- What the state of a symbol becomes with a ticker. -/
def merge (t : Ticker) (state : Option Json) : Json :=
  mergeTop t.message (mergeData (.obj t.data) (state.getD t.message))

theorem receive_ticker (symbolToId : String → Option Nat) (hot : Bool) (state : TickerState)
    (t : Ticker) :
    (receive symbolToId hot state t.message).1 =
      Function.update state t.symbol (some (merge t (state t.symbol))) ∧
    (receive symbolToId hot state t.message).2.published =
      some (key .tickers t.symbol,merge t (state t.symbol)) := by
  have htopic : ((t.message.get "topic").bind Json.asStr).bind splitTopic =
      some (.tickers,t.symbol) := t.topic
  have hdata : t.message.get "data" = some (.obj t.data) := t.found
  unfold receive
  rw [htopic]
  dsimp only
  rw [hdata]
  exact ⟨rfl,rfl⟩

theorem receive_other (symbolToId : String → Option Nat) (hot : Bool) (state : TickerState)
    {v : Json} (h : ∀ symbol,
    ((v.get "topic").bind Json.asStr).bind splitTopic ≠ some (.tickers,symbol)) :
    (receive symbolToId hot state v).1 = state := by
  unfold receive
  split
  · rfl
  · rfl
  · rename_i symbol heq
    exact absurd heq (h symbol)

/-- The state of a symbol is decided by its own tickers. -/
def merges (state : Option Json) (tickers : List Ticker) : Option Json :=
  tickers.foldl (fun state t => some (merge t state)) state

theorem run_symbol (symbolToId : String → Option Nat) (hot : Bool) (symbol : String)
    (heard : List Heard) (state : TickerState) :
    run symbolToId hot state (heard.map Heard.message) symbol =
      merges (state symbol) (history symbol heard) := by
  induction heard generalizing state with
  | nil => rfl
  | cons x heard ih =>
    rw [List.map_cons,run,ih]
    cases x with
    | ticker t =>
      simp only [Heard.message,(receive_ticker symbolToId hot state t).1]
      by_cases h : t.symbol = symbol
      · subst h
        simp [history,merges]
      · simp [history,h,Function.update_of_ne (Ne.symm h)]
    | other v h => simp [Heard.message,receive_other symbolToId hot state h,history]

theorem merged_merges (tickers : List Ticker) {done : List Ticker} {state : Json}
    (h : Merged done state) :
    ∃ payload, merges (some state) tickers = some payload ∧ Merged (done ++ tickers) payload := by
  induction tickers generalizing done state with
  | nil => exact ⟨state,rfl,by simpa using h⟩
  | cons t tickers ih =>
    obtain ⟨payload,hpayload,hmerged⟩ := ih (merged_step h t)
    exact ⟨payload,hpayload,by simpa using hmerged⟩

/-- The tickers of a symbol leave their merge with it, and nothing if there were none. -/
theorem merged_of_merges (tickers : List Ticker) (t : Ticker) :
    Merged (tickers ++ [t]) (merge t (merges none tickers)) := by
  cases tickers with
  | nil => exact merged_first t
  | cons first tickers =>
    obtain ⟨payload,hpayload,hmerged⟩ := merged_merges tickers (merged_first first)
    have hstate : merges none (first :: tickers) = some payload := hpayload
    rw [hstate]
    exact merged_step hmerged t

/-- The last value of a field of the data is what the parser finds. -/
theorem text_merged {tickers : List Ticker} {payload : Json} (h : Merged tickers payload)
    {field value : String} (hlast : latest (tickers.map Ticker.data) field = some (.str value)) :
    ExchangeParser.text ["data",field] payload = some value := by
  obtain ⟨data,hdata,hfields⟩ := h.data
  have hvalue : data.lookup field = some (.str value) := (hfields field).trans hlast
  have hfound : (Json.obj data).get field = some (.str value) := hvalue
  simp [ExchangeParser.text,Json.path,hdata,hfound,Json.asStr]

/-- What is published for a ticker after these messages of its connection. -/
def published (symbolToId : String → Option Nat) (hot : Bool) (heard : List Heard) (t : Ticker) :
    Option (String × Json) :=
  (receive symbolToId hot (run symbolToId hot (fun _ => none) (heard.map Heard.message))
    t.message).2.published

theorem published_eq (symbolToId : String → Option Nat) (hot : Bool) (heard : List Heard)
    (t : Ticker) :
    published symbolToId hot heard t =
      some (key .tickers t.symbol,merge t (merges none (history t.symbol heard))) := by
  rw [published,(receive_ticker symbolToId hot _ t).2,run_symbol]

/-- The payload after each ticker is the merge of the tickers of its symbol, and the parser finds in
it the last prices. -/
theorem payload_is_merge (symbolToId : String → Option Nat) (hot : Bool) (heard : List Heard)
    (t : Ticker) : let tickers := history t.symbol heard ++ [t]
    ∃ payload, published symbolToId hot heard t = some (key .tickers t.symbol,payload) ∧
      Merged tickers payload ∧
      (∀ heard', history t.symbol heard' = history t.symbol heard →
        published symbolToId hot heard' t = published symbolToId hot heard t) ∧
      (∀ bid, latest (tickers.map Ticker.data) "bid1Price" = some (.str bid) →
        (getParser "bybit").parseBid payload = some bid) ∧
      ∀ ask, latest (tickers.map Ticker.data) "ask1Price" = some (.str ask) →
        (getParser "bybit").parseAsk payload = some ask := by
  intro tickers
  have hmerged := merged_of_merges (history t.symbol heard) t
  refine ⟨_,published_eq symbolToId hot heard t,hmerged,?_,?_,?_⟩
  · intro heard' hsame
    rw [published_eq,published_eq,hsame]
  · intro bid hbid
    exact text_merged hmerged hbid
  · intro ask hask
    exact text_merged hmerged hask

def btcTicker (data : List (String × Json)) (h : (data.map Prod.fst).Nodup) : Ticker where
  symbol := "BTCUSDT"
  fields := [("topic",.str "tickers.BTCUSDT"),("data",.obj data)]
  data
  topic := by
    have hsplit : splitTopic "tickers.BTCUSDT" = some (.tickers,"BTCUSDT") := by decide +kernel
    exact hsplit
  found := rfl
  fieldsOnce := by simp
  dataOnce := h

/-- A delta without the bid leaves the one of the snapshot. -/
example :
    (published (fun _ => none) false
      [.ticker (btcTicker [("bid1Price",.str "100"),("ask1Price",.str "101")] (by decide))]
      (btcTicker [("ask1Price",.str "102")] (by decide))).map
        (fun p => ((getParser "bybit").parseBid p.2,(getParser "bybit").parseAsk p.2)) =
      some (some "100",some "102") := by
  decide +kernel

end Run

end SpreadArb.Proofs.Tickers
