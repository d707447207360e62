import SpreadArb.Dashboard
import SpreadArb.Proofs.Detection

namespace SpreadArb.Proofs.Display
open Numeric Detector Detection

/-- The quotes of one symbol, at most one for each exchange, as the dashboard accepts them. -/
structure QuoteSet where
  tickers : List Ticker
  distinct : (tickers.map Ticker.exchange).Nodup
  bid_pos : ∀ t ∈ tickers, F64.lt (.fin 0) t.bid = true
  bid_lt_ask : ∀ t ∈ tickers, F64.lt t.bid t.ask = true

def key (o : Opportunity) : String × String × String := (o.symbol,o.longExchange,o.shortExchange)

/-- What is displayed is what is published. -/
structure SingleTruth (shown published : List Opportunity) : Prop where
  triples : ∀ k, k ∈ shown.map key ↔ k ∈ published.map key
  values : ∀ o ∈ shown, ∀ p ∈ published, key o = key p → o.longPrice = p.longPrice ∧
    o.shortPrice = p.shortPrice ∧ o.spreadBps = p.spreadBps ∧
    o.confidenceScore = p.confidenceScore ∧ o.projectedProfitUsd = p.projectedProfitUsd

/-- The detector's store holds these quotes of the exchanges it looks at, and no others. -/
def SameQuotes (store : MarketDataStore) (symbol : String) (m : SymbolMap)
    (quotes : QuoteSet) : Prop :=
  ∀ e ∈ knownExchanges, ∀ bid ask,
    (quote store symbol (registered symbol m) e = some (bid,ask) ∧ F64.lt (.fin 0) bid = true) ↔
      ∃ t ∈ quotes.tickers, t.exchange = e ∧ t.bid = bid ∧ t.ask = ask

/-- The dashboard shows the direction. -/
def Shown (long short : Ticker) : Prop :=
  F64.lt (.fin 10) (spread long.ask short.bid) = true ∧
    70 ≤ Dashboard.confidence (spread long.ask short.bid) (short.fundingRate - long.fundingRate).abs

/-- The detector looks at both exchanges and is confident of the direction. -/
def Reported (symbol : String) (long short : Ticker) : Prop :=
  long.exchange ∈ knownExchanges ∧ short.exchange ∈ knownExchanges ∧
    70 ≤ calculateConfidence (spread long.ask short.bid)
      (getFundingDelta symbol long.exchange short.exchange)

/-- Both programs report the direction with the same numbers: the funding rates add nothing to the
dashboard's confidence, and what the detector deducts from the spread is lost in rounding. -/
structure Coincides (symbol : String) (long short : Ticker) : Prop where
  shown : Shown long short
  reported : Reported symbol long short
  huge : F64.lt (.fin (2 ^ 49)) (spread long.ask short.bid) = true
  confidence : Dashboard.confidence (spread long.ask short.bid)
    (short.fundingRate - long.fundingRate).abs = 70
  lost : projectedProfitBps long.exchange short.exchange (spread long.ask short.bid) /
    .fin 10000 * .fin 1000 = spread long.ask short.bid / .fin 10000 * .fin 1000

/-- Neither program reports anything, but for directions in which they coincide. -/
def Quiet (symbol : String) (quotes : QuoteSet) : Prop :=
  ∀ long ∈ quotes.tickers, ∀ short ∈ quotes.tickers, long.exchange ≠ short.exchange →
    (¬ Shown long short ∧ ¬ Reported symbol long short) ∨ Coincides symbol long short

instance (long short : Ticker) : Decidable (Shown long short) :=
  inferInstanceAs (Decidable (_ ∧ _))

instance (symbol : String) (long short : Ticker) : Decidable (Reported symbol long short) :=
  inferInstanceAs (Decidable (_ ∧ _))

instance (symbol : String) (long short : Ticker) : Decidable (Coincides symbol long short) :=
  decidable_of_iff (Shown long short ∧ Reported symbol long short ∧
      F64.lt (.fin (2 ^ 49)) (spread long.ask short.bid) = true ∧
      Dashboard.confidence (spread long.ask short.bid)
        (short.fundingRate - long.fundingRate).abs = 70 ∧
      projectedProfitBps long.exchange short.exchange (spread long.ask short.bid) /
        .fin 10000 * .fin 1000 = spread long.ask short.bid / .fin 10000 * .fin 1000)
    ⟨fun ⟨h₁,h₂,h₃,h₄,h₅⟩ => ⟨h₁,h₂,h₃,h₄,h₅⟩,fun ⟨h₁,h₂,h₃,h₄,h₅⟩ => ⟨h₁,h₂,h₃,h₄,h₅⟩⟩

instance (symbol : String) (quotes : QuoteSet) : Decidable (Quiet symbol quotes) :=
  inferInstanceAs (Decidable (∀ long ∈ quotes.tickers, ∀ short ∈ quotes.tickers,
    long.exchange ≠ short.exchange →
    (¬ Shown long short ∧ ¬ Reported symbol long short) ∨ Coincides symbol long short))

section Dashboard

variable (symbol : String) (now : Nat)

theorem checkDirection_iff {long short : Ticker} (hask : F64.lt (.fin 0) long.ask = true)
    {o : Opportunity} :
    Dashboard.checkDirection symbol now long short = some o →
      Shown long short ∧ key o = (symbol,long.exchange,short.exchange) ∧
      (o.longPrice = long.ask ∧ o.shortPrice = short.bid ∧
        o.spreadBps = spread long.ask short.bid) ∧
      o.confidenceScore = Dashboard.confidence (spread long.ask short.bid)
        (short.fundingRate - long.fundingRate).abs ∧
      o.projectedProfitUsd = spread long.ask short.bid / .fin 10000 * .fin 1000 := by
  have hne : long.ask ≠ .fin 0 := by
    intro he
    rw [he] at hask
    exact absurd hask (by decide)
  have hspread : Dashboard.calculateSpreadBps long.ask short.bid = spread long.ask short.bid :=
    if_neg hne
  unfold Dashboard.checkDirection
  dsimp only
  rw [hspread]
  intro h
  split at h
  · next hshown =>
    cases h
    simp only [Bool.and_eq_true,decide_eq_true_eq] at hshown
    exact ⟨hshown,rfl,⟨rfl,rfl,rfl⟩,rfl,rfl⟩
  · cases h

theorem checkDirection_shown {long short : Ticker} (hask : F64.lt (.fin 0) long.ask = true)
    (h : Shown long short) : ∃ o, Dashboard.checkDirection symbol now long short = some o := by
  have hne : long.ask ≠ .fin 0 := by
    intro he
    rw [he] at hask
    exact absurd hask (by decide)
  have hspread : Dashboard.calculateSpreadBps long.ask short.bid = spread long.ask short.bid :=
    if_neg hne
  unfold Dashboard.checkDirection
  dsimp only
  rw [hspread,if_pos (by simpa [Shown] using h)]
  exact ⟨_,rfl⟩

theorem mem_checkRow {first : Ticker} {o : Opportunity} (rest : List Ticker) :
    o ∈ Dashboard.checkRow symbol now first rest ↔
      ∃ second ∈ rest, Dashboard.checkDirection symbol now first second = some o ∨
        Dashboard.checkDirection symbol now second first = some o := by
  induction rest with
  | nil => simp [Dashboard.checkRow]
  | cons second rest ih =>
    unfold Dashboard.checkRow
    simp only [List.mem_append,Option.mem_toList,ih,List.mem_cons,exists_eq_or_imp]

/-- The dashboard comes to every direction between two exchanges. -/
theorem mem_shown {o : Opportunity} (tickers : List Ticker)
    (hn : (tickers.map Ticker.exchange).Nodup) :
    o ∈ Dashboard.detect symbol now tickers ↔
      ∃ long ∈ tickers, ∃ short ∈ tickers, long.exchange ≠ short.exchange ∧
        Dashboard.checkDirection symbol now long short = some o := by
  induction tickers with
  | nil => simp [Dashboard.detect]
  | cons first rest ih =>
    rw [List.map_cons,List.nodup_cons] at hn
    have hne : ∀ t ∈ rest, first.exchange ≠ t.exchange :=
      fun t ht he => hn.1 (List.mem_map.mpr ⟨t,ht,he.symm⟩)
    unfold Dashboard.detect
    rw [List.mem_append,mem_checkRow,ih hn.2]
    constructor
    · rintro (⟨t,ht,h | h⟩ | ⟨long,hl,short,hs,hd,h⟩)
      · exact ⟨first,List.mem_cons_self,t,List.mem_cons_of_mem _ ht,hne t ht,h⟩
      · exact ⟨t,List.mem_cons_of_mem _ ht,first,List.mem_cons_self,(hne t ht).symm,h⟩
      · exact ⟨long,List.mem_cons_of_mem _ hl,short,List.mem_cons_of_mem _ hs,hd,h⟩
    · rintro ⟨long,hl,short,hs,hd,h⟩
      rcases List.mem_cons.mp hl with rfl | hl' <;> rcases List.mem_cons.mp hs with rfl | hs'
      · exact absurd rfl hd
      · exact .inl ⟨short,hs',.inl h⟩
      · exact .inl ⟨long,hl',.inr h⟩
      · exact .inr ⟨long,hl',short,hs',hd,h⟩

end Dashboard

section Numbers

variable {symbol long short : String} {x : F64}

/-- The detector's funding rate is fixed, and with it its highest confidence. -/
theorem confidence_le (symbol long short : String) (x : F64) :
    calculateConfidence x (getFundingDelta symbol long short) ≤ 70 := by
  by_cases hnan : x = .nan
  · subst hnan
    unfold getFundingDelta
    decide +kernel
  · refine (confidence_mono (F64.le_inf hnan)).trans ?_
    unfold getFundingDelta
    decide +kernel

/-- A profit in dollars, on a position of 1000. -/
theorem usd_near {q : ℚ} (hlow : 10 ≤ q) (hhigh : q ≤ 2 ^ 50) :
    ∃ r, F64.fin q / .fin 10000 * .fin 1000 = .fin r ∧ |r - q / 10| ≤ q / 2 ^ 54 := by
  obtain ⟨u,hu,hul,huh⟩ := F64.round_near (q := q / 10000) (by linarith) (by linarith)
  obtain ⟨r,hr,hrl,hrh⟩ := F64.round_near (q := u * 1000) (by linarith) (by linarith)
  refine ⟨r,?_,?_⟩
  · rw [F64.fin_div (by norm_num),hu,F64.fin_mul,hr]
  · rw [abs_le]
    constructor
    · linarith
    · linarith

/-- Below 2^49 basis points the deductions count: the detector projects less than the dashboard. -/
theorem deductions_count {q : ℚ} (hlow : 49 < q) (hhigh : q ≤ 2 ^ 49) :
    projectedProfitBps long short (.fin q) / .fin 10000 * .fin 1000 ≠
      F64.fin q / .fin 10000 * .fin 1000 := by
  obtain ⟨s,hs,hs8,hs12⟩ := fees_bounds long short
  obtain ⟨a,ha,hal,hah⟩ := F64.round_near (q := q - s) (by linarith) (by linarith)
  obtain ⟨b,hb,hbl,hbh⟩ := F64.round_near (q := a - 3) (by linarith) (by linarith)
  obtain ⟨c,hc,hcl,hch⟩ := F64.round_near (q := b - 10) (by linarith) (by linarith)
  have hprofit : projectedProfitBps long short (.fin q) = .fin c := by
    unfold projectedProfitBps
    rw [hs,F64.fin_sub,ha,F64.fin_sub,hb,F64.fin_sub,hc]
  obtain ⟨x,hx,hxc⟩ := usd_near (q := c) (by linarith) (by linarith)
  obtain ⟨y,hy,hyq⟩ := usd_near (q := q) (by linarith) (by linarith)
  obtain ⟨-,hxh⟩ := abs_le.mp hxc
  obtain ⟨hyl,-⟩ := abs_le.mp hyq
  rw [hprofit,hx,hy]
  intro heq
  cases heq
  linarith

/-- Where the two programs project the same profit the spread is beyond that. -/
theorem huge_of_lost (hnan : x ≠ .nan)
    (hc : 70 ≤ calculateConfidence x (getFundingDelta symbol long short))
    (hlost : projectedProfitBps long short x / .fin 10000 * .fin 1000 =
    x / .fin 10000 * .fin 1000) : F64.lt (.fin (2 ^ 49)) x = true := by
  have habove := confident_49 hnan hc
  cases x with
  | fin q =>
    have hq : 49 < q := by simpa using habove
    by_contra hle
    have hhigh : q ≤ 2 ^ 49 := by simpa using hle
    exact deductions_count hq hhigh hlost
  | inf => rfl
  | negInf => cases habove
  | nan => exact absurd rfl hnan

end Numbers

section Truth

variable {store : MarketDataStore} {symbol : String} {m : SymbolMap} {quotes : QuoteSet}

theorem ask_pos (quotes : QuoteSet) {t : Ticker} (h : t ∈ quotes.tickers) :
    F64.lt (.fin 0) t.ask = true :=
  F64.lt_trans (quotes.bid_pos t h) (quotes.bid_lt_ask t h)

/-- The exchanges the detector works with are those of the quotes. -/
theorem offered_ticker (h : SameQuotes store symbol m quotes) {e : String} {bid ask : F64} :
    Offered store symbol (registered symbol m) e bid ask ↔
      e ∈ knownExchanges ∧ ∃ t ∈ quotes.tickers, t.exchange = e ∧ t.bid = bid ∧ t.ask = ask := by
  constructor
  · rintro ⟨hk,hq,hb,_⟩
    exact ⟨hk,(h e hk bid ask).mp ⟨hq,hb⟩⟩
  · rintro ⟨hk,t,ht,he,hb,ha⟩
    obtain ⟨hq,hpos⟩ := (h e hk bid ask).mpr ⟨t,ht,he,hb,ha⟩
    exact ⟨hk,hq,hpos,ha ▸ lt_not_le (ask_pos quotes ht)⟩

variable (secs : String → String → Nat)

/-- What the detector publishes, in terms of the quotes. -/
theorem mem_published (h : SameQuotes store symbol m quotes) (updated : String) {o : Opportunity} :
    o ∈ (detectOpportunitiesForSymbol store symbol secs m updated).1 ↔
      ∃ long ∈ quotes.tickers, ∃ short ∈ quotes.tickers, long.exchange ≠ short.exchange ∧
        Reported symbol long short ∧
        o = buildOpportunity symbol long.exchange short.exchange long.ask short.bid
          (secs long.exchange short.exchange) := by
  rw [mem_detect]
  constructor
  · rintro ⟨_,_,_,_,_,_,hl,hs,hne,hpass,ho⟩
    obtain ⟨hlk,long,hlm,rfl,rfl,rfl⟩ := (offered_ticker h).mp hl
    obtain ⟨hsk,short,hsm,rfl,rfl,rfl⟩ := (offered_ticker h).mp hs
    exact ⟨long,hlm,short,hsm,hne,⟨hlk,hsk,(passes_iff_confident ..).mp hpass⟩,ho.symm⟩
  · rintro ⟨long,hlm,short,hsm,hne,⟨hlk,hsk,hconfident⟩,ho⟩
    exact ⟨_,_,long.bid,_,_,short.ask,(offered_ticker h).mpr ⟨hlk,long,hlm,rfl,rfl,rfl⟩,
      (offered_ticker h).mpr ⟨hsk,short,hsm,rfl,rfl,rfl⟩,hne,
      (passes_iff_confident ..).mpr hconfident,ho.symm⟩

/-- Tickers of one exchange are one. -/
theorem same_ticker (quotes : QuoteSet) {t u : Ticker} (ht : t ∈ quotes.tickers)
    (hu : u ∈ quotes.tickers) (h : t.exchange = u.exchange) : t = u :=
  List.inj_on_of_nodup_map quotes.distinct ht hu h

theorem coincides_of_truth (h : SameQuotes store symbol m quotes) {updated : String} {now : Nat}
    (ht : SingleTruth (Dashboard.detect symbol now quotes.tickers)
      (detectOpportunitiesForSymbol store symbol secs m updated).1) {long short : Ticker}
    (hl : long ∈ quotes.tickers) (hs : short ∈ quotes.tickers)
    (hne : long.exchange ≠ short.exchange) (hshown : Shown long short) :
    Coincides symbol long short := by
  obtain ⟨o,hd⟩ := checkDirection_shown symbol now (ask_pos quotes hl) hshown
  have ho := (mem_shown symbol now _ quotes.distinct).mpr ⟨long,hl,short,hs,hne,hd⟩
  obtain ⟨_,hkey,_,hscore,hdash⟩ := checkDirection_iff symbol now (ask_pos quotes hl) hd
  obtain ⟨p,hp,hk⟩ := List.mem_map.mp ((ht.triples _).mp (List.mem_map_of_mem ho))
  obtain ⟨_,_,_,hconfidence,hprofit⟩ := ht.values o ho p hp hk.symm
  obtain ⟨long',hl',short',hs',_,hreported,rfl⟩ := (mem_published secs h updated).mp hp
  rw [hkey] at hk
  obtain ⟨-,hlong,hshort⟩ : symbol = symbol ∧ long'.exchange = long.exchange ∧
    short'.exchange = short.exchange := by simpa [key,buildOpportunity] using hk
  obtain rfl := same_ticker quotes hl' hl hlong
  obtain rfl := same_ticker quotes hs' hs hshort
  have hnumber : spread long'.ask short'.bid ≠ .nan :=
    (F64.ne_nan_of_le (F64.le_of_lt hshown.1)).2
  have hlost := hprofit.symm.trans hdash
  refine ⟨hshown,hreported,huge_of_lost hnumber hreported.2.2 hlost,?_,hlost⟩
  rw [← hscore,hconfidence]
  exact le_antisymm (confidence_le ..) hreported.2.2

theorem quiet_of_truth (h : SameQuotes store symbol m quotes) {updated : String} {now : Nat}
    (ht : SingleTruth (Dashboard.detect symbol now quotes.tickers)
      (detectOpportunitiesForSymbol store symbol secs m updated).1) : Quiet symbol quotes := by
  intro long hl short hs hne
  by_cases hshown : Shown long short
  · exact .inr (coincides_of_truth secs h ht hl hs hne hshown)
  · left
    refine ⟨hshown,fun hreported => ?_⟩
    have hp := (mem_published secs h updated).mpr ⟨long,hl,short,hs,hne,hreported,rfl⟩
    obtain ⟨o,ho,hk⟩ := List.mem_map.mp ((ht.triples _).mpr (List.mem_map_of_mem hp))
    obtain ⟨long',hl',short',hs',_,hd⟩ := (mem_shown symbol now _ quotes.distinct).mp ho
    obtain ⟨hshown',hkey,_⟩ := checkDirection_iff symbol now (ask_pos quotes hl') hd
    rw [hkey] at hk
    obtain ⟨hlong,hshort⟩ : long'.exchange = long.exchange ∧ short'.exchange = short.exchange := by
      simpa [key,buildOpportunity] using hk
    obtain rfl := same_ticker quotes hl' hl hlong
    obtain rfl := same_ticker quotes hs' hs hshort
    exact hshown hshown'

theorem truth_of_quiet (h : SameQuotes store symbol m quotes) {updated : String} {now : Nat}
    (hq : Quiet symbol quotes) : SingleTruth (Dashboard.detect symbol now quotes.tickers)
      (detectOpportunitiesForSymbol store symbol secs m updated).1 where
  triples k := by
    constructor
    · intro hk
      obtain ⟨o,ho,rfl⟩ := List.mem_map.mp hk
      obtain ⟨long,hl,short,hs,hne,hd⟩ := (mem_shown symbol now _ quotes.distinct).mp ho
      obtain ⟨hshown,hkey,_⟩ := checkDirection_iff symbol now (ask_pos quotes hl) hd
      rcases hq long hl short hs hne with ⟨hno,_⟩ | hboth
      · exact absurd hshown hno
      · have hp := (mem_published secs h updated).mpr ⟨long,hl,short,hs,hne,hboth.reported,rfl⟩
        exact List.mem_map.mpr ⟨_,hp,hkey.symm⟩
    · intro hk
      obtain ⟨p,hp,rfl⟩ := List.mem_map.mp hk
      obtain ⟨long,hl,short,hs,hne,hreported,rfl⟩ := (mem_published secs h updated).mp hp
      rcases hq long hl short hs hne with ⟨_,hno⟩ | hboth
      · exact absurd hreported hno
      · obtain ⟨o,hd⟩ := checkDirection_shown symbol now (ask_pos quotes hl) hboth.shown
        obtain ⟨_,hkey,_⟩ := checkDirection_iff symbol now (ask_pos quotes hl) hd
        exact List.mem_map.mpr
          ⟨o,(mem_shown symbol now _ quotes.distinct).mpr ⟨long,hl,short,hs,hne,hd⟩,hkey⟩
  values o ho p hp hk := by
    obtain ⟨long,hl,short,hs,hne,hd⟩ := (mem_shown symbol now _ quotes.distinct).mp ho
    obtain ⟨hshown,hkey,⟨hlp,hsp,hspread⟩,hscore,hdash⟩ :=
      checkDirection_iff symbol now (ask_pos quotes hl) hd
    obtain ⟨long',hl',short',hs',_,hreported,rfl⟩ := (mem_published secs h updated).mp hp
    rw [hkey] at hk
    obtain ⟨hlong,hshort⟩ : long.exchange = long'.exchange ∧ short.exchange = short'.exchange := by
      simpa [key,buildOpportunity] using hk
    obtain rfl := same_ticker quotes hl hl' hlong
    obtain rfl := same_ticker quotes hs hs' hshort
    rcases hq long hl short hs hne with ⟨hno,_⟩ | hboth
    · exact absurd hshown hno
    · refine ⟨hlp,hsp,hspread,?_,hdash.trans hboth.lost.symm⟩
      rw [hscore,hboth.confidence]
      exact le_antisymm hreported.2.2 (confidence_le ..)

end Truth

/-- For every set of quotes and funding rates, the dashboard displays what the detector publishes
if and only if both report nothing, or coincide on what they report. -/
theorem single_truth_iff (store : MarketDataStore) (symbol : String) (secs : String → String → Nat)
    (m : SymbolMap) (updated : String) (now : Nat) (quotes : QuoteSet)
    (h : SameQuotes store symbol m quotes) :
    SingleTruth (Dashboard.detect symbol now quotes.tickers)
      (detectOpportunitiesForSymbol store symbol secs m updated).1 ↔ Quiet symbol quotes :=
  ⟨quiet_of_truth secs h,truth_of_quiet secs h⟩

/-- A store that answers with the ticker of each exchange holds the same quotes. -/
theorem sameQuotes_of_find {store : MarketDataStore} {symbol : String} {m : SymbolMap}
    {quotes : QuoteSet} (h : ∀ e ∈ knownExchanges, quote store symbol (registered symbol m) e =
    (quotes.tickers.find? (fun t => t.exchange = e)).map (fun t => (t.bid,t.ask))) :
    SameQuotes store symbol m quotes := by
  intro e he bid ask
  rw [h e he]
  constructor
  · rintro ⟨hq,_⟩
    obtain ⟨t,ht,hv⟩ := Option.map_eq_some_iff.mp hq
    cases hv
    exact ⟨t,List.mem_of_find?_eq_some ht,by simpa using List.find?_some ht,rfl,rfl⟩
  · rintro ⟨t,ht,rfl,rfl,rfl⟩
    have hsome : (quotes.tickers.find? (fun u => u.exchange = t.exchange)).isSome = true :=
      List.find?_isSome.mpr ⟨t,ht,by simp⟩
    obtain ⟨u,hu⟩ := Option.isSome_iff_exists.mp hsome
    have hsame : u = t := by
      have hx : u.exchange = t.exchange := by simpa using List.find?_some hu
      exact List.inj_on_of_nodup_map quotes.distinct (List.mem_of_find?_eq_some hu) ht hx
    rw [hu,hsame]
    exact ⟨rfl,quotes.bid_pos t ht⟩

/-- Bybit bids 100 and asks 101; OKX quotes these prices. -/
def pairStore (bid ask : ℚ) : MarketDataStore :=
  (MarketDataStore.new.update ⟨1,.fin 100,.fin 101,0⟩).update ⟨11,.fin bid,.fin ask,0⟩

def pairTickers (bid ask : ℚ) : List Ticker :=
  [⟨"bybit",.fin 100,.fin 101,.fin 0⟩,⟨"okx",.fin bid,.fin ask,.fin 0⟩]

def levelQuotes : QuoteSet :=
  ⟨pairTickers 100 101,by decide +kernel,by decide +kernel,by decide +kernel⟩

def crossedQuotes : QuoteSet :=
  ⟨pairTickers 102 103,by decide +kernel,by decide +kernel,by decide +kernel⟩

def hugeQuotes : QuoteSet :=
  ⟨pairTickers (2 ^ 100) (2 ^ 101),by decide +kernel,by decide +kernel,by decide +kernel⟩

/-- Level quotes: neither program reports anything. Quotes that lie 2^100 apart: both report the
same. -/
theorem level_quotes_single_truth :
    (SameQuotes (pairStore 100 101) "BTCUSDT" .new levelQuotes ∧
    SingleTruth (Dashboard.detect "BTCUSDT" 0 levelQuotes.tickers)
      (detectOpportunitiesForSymbol (pairStore 100 101) "BTCUSDT" (fun _ _ => 0) .new "okx").1) ∧
    SingleTruth (Dashboard.detect "BTCUSDT" 0 hugeQuotes.tickers)
      (detectOpportunitiesForSymbol (pairStore (2 ^ 100) (2 ^ 101)) "BTCUSDT" (fun _ _ => 0)
        .new "okx").1 := by
  have hsame : SameQuotes (pairStore 100 101) "BTCUSDT" .new levelQuotes :=
    sameQuotes_of_find (by decide +kernel)
  have hhuge : SameQuotes (pairStore (2 ^ 100) (2 ^ 101)) "BTCUSDT" .new hugeQuotes :=
    sameQuotes_of_find (by decide +kernel)
  exact ⟨⟨hsame,(single_truth_iff _ _ _ _ _ _ _ hsame).mpr (by decide +kernel)⟩,
    (single_truth_iff _ _ _ _ _ _ _ hhuge).mpr (by decide +kernel)⟩

/-- Quotes that cross by 99 basis points: the same direction is displayed and published, and
the two programs project different profits from it. -/
theorem crossed_quotes_two_truths :
    SameQuotes (pairStore 102 103) "BTCUSDT" .new crossedQuotes ∧
    (∃ profit, (Dashboard.detect "BTCUSDT" 0 crossedQuotes.tickers).map
        (fun o => (key o,o.projectedProfitUsd)) = [(("BTCUSDT","bybit","okx"),profit)] ∧
      F64.lt (.fin (99/10)) profit = true) ∧
    (∃ profit, (detectOpportunitiesForSymbol (pairStore 102 103) "BTCUSDT" (fun _ _ => 0)
          .new "okx").1.map (fun o => (key o,o.projectedProfitUsd)) =
        [(("BTCUSDT","bybit","okx"),profit)] ∧ F64.lt profit (.fin (76/10)) = true) ∧
    ¬ SingleTruth (Dashboard.detect "BTCUSDT" 0 crossedQuotes.tickers)
      (detectOpportunitiesForSymbol (pairStore 102 103) "BTCUSDT" (fun _ _ => 0) .new "okx").1 := by
  have hsame : SameQuotes (pairStore 102 103) "BTCUSDT" .new crossedQuotes :=
    sameQuotes_of_find (by decide +kernel)
  refine ⟨hsame,?_,?_,fun h => ?_⟩
  · exact ⟨spread (.fin 101) (.fin 102) / .fin 10000 * .fin 1000,by decide +kernel,
      by decide +kernel⟩
  · exact ⟨projectedProfitBps "bybit" "okx" (spread (.fin 101) (.fin 102)) / .fin 10000 * .fin 1000,
      by decide +kernel,by decide +kernel⟩
  · have hquiet : ¬ Quiet "BTCUSDT" crossedQuotes := by decide +kernel
    exact hquiet (quiet_of_truth _ hsame h)

end SpreadArb.Proofs.Display
