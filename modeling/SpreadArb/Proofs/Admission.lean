import SpreadArb.Interact.Trace
import SpreadArb.ScanLoop
import SpreadArb.Proofs.Display

namespace SpreadArb.Proofs.Admission
open Interact Numeric Detector Detection

section Fees

/-- The detector and the runner charge an exchange the same. -/
theorem fees_agree (exchange : String) :
    getExchangeFeeByName exchange = .fin (getExchangeTakerFee exchange) := by
  unfold getExchangeFeeByName getExchangeTakerFee
  generalize exchange.toLower = name
  split <;> simp_all

theorem fee_bounds (exchange : String) : 4 ≤ getExchangeTakerFee exchange ∧
      getExchangeTakerFee exchange ≤ 6 := by
  obtain ⟨q,hq,hlow,hhigh⟩ := Detection.fee_bounds exchange
  rw [fees_agree] at hq
  cases hq
  exact ⟨hlow,hhigh⟩

/-- What both legs cost. -/
def totalFee (long short : String) : ℚ := getExchangeTakerFee long + getExchangeTakerFee short

theorem totalFee_bounds (long short : String) :
    8 ≤ totalFee long short ∧ totalFee long short ≤ 12 := by
  obtain ⟨hl,hl'⟩ := fee_bounds long
  obtain ⟨hs,hs'⟩ := fee_bounds short
  unfold totalFee
  constructor
  · linarith
  · linarith

end Fees

section Runner

variable {env : Surroundings} {opportunity : ArbitrageOpportunity} {ask bid : ℚ} {s : Runner}

/-- The runner gets as far as its capital with an opportunity. -/
def AsksCapital (env : Surroundings) (opportunity : ArbitrageOpportunity) (placeholder : TradeId)
    (s : Runner) : Prop :=
  ∃ step ∈ (runner env).trace (enterIfSound opportunity placeholder) s,
    step.2 = .getAvailableCapital

theorem calculateSpreadBps_pos (h : 0 < ask) (bid : ℚ) :
    calculateSpreadBps ask bid = spreadBps ask bid :=
  if_neg h.ne'

/-- The prices are good enough for the runner if and only if their spread is above the fees. -/
theorem asksCapital_iff (hask : 0 < ask) (hbid : 0 < bid) (placeholder : TradeId)
    (hquotes : env.quotes s.world.tick opportunity.symbol opportunity.longExchange
    opportunity.shortExchange = (some ask,some bid)) :
    AsksCapital env opportunity placeholder s ↔
      totalFee opportunity.longExchange opportunity.shortExchange < spreadBps ask bid := by
  have hserve : (runner env).serve
      (.quotes opportunity.symbol opportunity.longExchange opportunity.shortExchange) s =
        ((some ask,some bid),s) :=
    Prod.ext hquotes rfl
  have hprices : (ask ≤ 0 || bid ≤ 0) = false := by simp [hask,hbid]
  have hfees := (totalFee_bounds opportunity.longExchange opportunity.shortExchange).1
  unfold AsksCapital enterIfSound getPricesFromStore
  simp only [Bind.bind,Prog.bind,Machine.trace,hserve,hprices]
  change (∃ step ∈ (_,_) :: (runner env).trace (if (_ : Bool) = true then _ else _) s,_) ↔ _
  split
  · next hno =>
    have hle : spreadBps ask bid ≤ totalFee opportunity.longExchange opportunity.shortExchange := by
      simp only [calculateSpreadBps_pos hask,Bool.or_eq_true,decide_eq_true_eq,sub_nonpos] at hno
      rcases hno with h | h
      · linarith
      · exact h
    simp [Machine.trace,not_lt.mpr hle]
  · next hgo =>
    have hlt : totalFee opportunity.longExchange opportunity.shortExchange < spreadBps ask bid := by
      simp only [calculateSpreadBps_pos hask,Bool.or_eq_true,decide_eq_true_eq,sub_nonpos,not_or,
        not_le] at hgo
      exact hgo.2
    simp [Machine.trace,hlt]

end Runner

section Published

variable {store : MarketDataStore} {symbol : String} {secs : String → String → Nat} {m : SymbolMap}
  {updated : String}
  {o : Opportunity} {a b : ℚ}

/-- The sum of two fees is a double. -/
theorem fees_sum (long short : String) :
    getExchangeFeeByName long + getExchangeFeeByName short = .fin (totalFee long short) := by
  have hhalf : ∀ exchange, ∃ n : ℤ, getExchangeTakerFee exchange = n * 2 ^ (-1 : ℤ) ∧ |n| ≤ 12 := by
    intro exchange
    unfold getExchangeTakerFee
    split
    · exact ⟨8,by norm_num,by norm_num⟩
    · exact ⟨10,by norm_num,by norm_num⟩
    · exact ⟨11,by norm_num,by norm_num⟩
    · exact ⟨12,by norm_num,by norm_num⟩
    · exact ⟨12,by norm_num,by norm_num⟩
    · exact ⟨9,by norm_num,by norm_num⟩
    · exact ⟨10,by norm_num,by norm_num⟩
    · exact ⟨12,by norm_num,by norm_num⟩
    · exact ⟨12,by norm_num,by norm_num⟩
  obtain ⟨n,hn,hn12⟩ := hhalf long
  obtain ⟨k,hk,hk12⟩ := hhalf short
  have hsum : totalFee long short = ((n + k : ℤ) : ℚ) * 2 ^ (-1 : ℤ) := by
    unfold totalFee
    rw [hn,hk]
    push_cast
    ring
  have hsmall : |n + k| < 2 ^ 53 := by
    have := abs_add_le n k
    omega
  rw [fees_agree,fees_agree,F64.fin_add]
  change F64.round (totalFee long short) = _
  rw [hsum]
  exact F64.round_eq hsmall (by norm_num) (by norm_num)

/-- What the detector publishes at a finite price it projects to leave 13 less than the spread does
after the fees, and no less than 24.399; and the runner takes the opportunity up as long as the
spread of its own prices is above the same fees. -/
theorem published_admitted_iff
    (ho : o ∈ (detectOpportunitiesForSymbol store symbol secs m updated).1)
    (ha : o.longPrice = .fin a) :
    o.projectedProfitAfterSlippage =
        o.spreadBps - .fin (totalFee o.longExchange o.shortExchange) - .fin 3 - .fin 10 ∧
      F64.le (.fin (24399/1000)) o.projectedProfitAfterSlippage = true ∧
      ∀ env s (opportunity : ArbitrageOpportunity) placeholder, opportunity.longExchange =
        o.longExchange →
        opportunity.shortExchange = o.shortExchange → ∀ ask bid : ℚ, 0 < ask → 0 < bid →
        env.quotes s.world.tick opportunity.symbol opportunity.longExchange
          opportunity.shortExchange =
          (some ask,some bid) →
        (AsksCapital env opportunity placeholder s ↔
          totalFee o.longExchange o.shortExchange < spreadBps ask bid) := by
  obtain ⟨long,short,_,ask,bid,_,hlong,hshort,_,hpass,rfl⟩ :=
    (mem_detect store symbol secs m updated).mp ho
  have hask : ask = .fin a := ha
  subst hask
  have hpos : 0 < a := by simpa using hlong.ask_pos
  have hnan := spread_ne_nan hpos hshort.bid_pos
  refine ⟨?_,?_,?_⟩
  · change projectedProfitBps long short (spread (.fin a) bid) = _
    unfold projectedProfitBps
    rw [fees_sum]
    rfl
  · have habove : F64.lt (.fin (493999/10000)) (spread (.fin a) bid) = true :=
      confident_above hnan hpass.confident (by unfold getFundingDelta; decide +kernel)
    exact F64.le_trans (by decide +kernel) (profit_above (F64.le_of_lt habove))
  · intro env s opportunity placeholder hl hs ask bid hask hbid hquotes
    rw [asksCapital_iff hask hbid placeholder hquotes,hl,hs]

/-- An opportunity between bybit and okx as it reaches the runner. -/
def crossing : ArbitrageOpportunity :=
  ⟨"BTCUSDT","bybit","okx",101,102,2/10000,70,755/10,15000,15000⟩

/-- Published at a spread of 99 basis points, and taken up at 69. -/
theorem crossing_admitted :
    AsksCapital { exchanges := fun _ => {}, quotes := fun _ _ _ _ => (some 101,some (1017/10)) }
      crossing 0
      (.new .empty 20000) := by
  have hout : (detectOpportunitiesForSymbol (Display.pairStore 102 103) "BTCUSDT" (fun _ _ => 0)
      .new "okx").1.map
      (fun o => (o.longExchange,o.shortExchange,o.longPrice,o.shortPrice)) =
        [("bybit","okx",.fin 101,.fin 102)] := by
    decide +kernel
  obtain ⟨o,ho,he⟩ := List.mem_map.mp (hout ▸ List.mem_cons_self)
  simp only [Prod.mk.injEq] at he
  obtain ⟨hlong,hshort,ha,hb⟩ := he
  obtain ⟨_,_,hadmitted⟩ := published_admitted_iff ho ha
  apply (hadmitted _ (.new .empty 20000) crossing 0 hlong.symm hshort.symm 101 (1017/10)
    (by norm_num) (by norm_num) rfl).mpr
  rw [hlong,hshort]
  decide +kernel

end Published

end SpreadArb.Proofs.Admission
