import SpreadArb.ScanLoop
import SpreadArb.Proofs.Frame

namespace SpreadArb.Proofs.Ledger

/-- The trade as it is filed after its close. -/
def filed (trade : PaperTrade) (actualProfit : ℚ) (exitReason : ExitReason)
    (secs : Nat) : PaperTrade :=
  { trade with
    actualProfitUsd := actualProfit
    exitReason := some exitReason
    status := .closed
    exitTime := some secs }

/-- All that an `open_trade` can do. -/
theorem openTrade_cases (s : PortfolioState) (trade : PaperTrade) :
    (s.availableCapital < trade.positionSizeUsd ∧
      s.openTrade trade = .error (.exceedsCapital trade.positionSizeUsd s.availableCapital)) ∨
    (trade.positionSizeUsd ≤ s.availableCapital ∧
      s.openTrade trade = .ok { s with
        availableCapital := s.availableCapital - trade.positionSizeUsd
        totalOpenPositions := s.totalOpenPositions + trade.positionSizeUsd
        activeTrades := s.activeTrades ++ [trade] }) := by
  unfold PortfolioState.openTrade
  rcases lt_or_ge s.availableCapital trade.positionSizeUsd with h | h
  · exact .inl ⟨h,if_pos h⟩
  · exact .inr ⟨h,if_neg (not_lt.mpr h)⟩

/-- The first trade of an id, with what stands before and after it. -/
theorem first_of_id (id : TradeId) (trades : List PaperTrade) :
    (trades.findIdx? (fun t => t.id = id) = none ∧ ∀ t ∈ trades, t.id ≠ id) ∨
    ∃ before trade after, trades = before ++ trade :: after ∧ trade.id = id ∧
      (∀ t ∈ before, t.id ≠ id) ∧ trades.findIdx? (fun t => t.id = id) = some before.length ∧
      trades.find? (fun t => t.id = id) = some trade := by
  cases h : trades.find? (fun t => t.id = id) with
  | none =>
    have hall : ∀ t ∈ trades, t.id ≠ id := by simpa using List.find?_eq_none.mp h
    exact .inl ⟨List.findIdx?_eq_none_iff.mpr (by simpa using hall),hall⟩
  | some trade =>
    obtain ⟨hid,before,after,rfl,hbefore⟩ := List.find?_eq_some_iff_append.mp h
    have hid : trade.id = id := by simpa using hid
    have hbefore : ∀ t ∈ before, t.id ≠ id := by simpa using hbefore
    have hnone : before.findIdx? (fun t => t.id = id) = none :=
      List.findIdx?_eq_none_iff.mpr (by simpa using hbefore)
    refine .inr ⟨before,trade,after,rfl,hid,hbefore,?_,rfl⟩
    simp [List.findIdx?_append,hnone,List.findIdx?_cons,hid]

/-- All that a `close_trade` can do. -/
theorem closeTrade_cases (s : PortfolioState) (id : TradeId) (profit : ℚ) (reason : ExitReason)
    (secs : Nat) :
    ((∀ t ∈ s.activeTrades, t.id ≠ id) ∧ s.closeTrade id profit reason secs = none) ∨
    ∃ before trade after, s.activeTrades = before ++ trade :: after ∧ trade.id = id ∧
      (∀ t ∈ before, t.id ≠ id) ∧
      s.closeTrade id profit reason secs = some { s.settle trade profit with
        activeTrades := before ++ after
        closedTrades := s.closedTrades ++ [filed trade profit reason secs] } := by
  unfold PortfolioState.closeTrade
  rcases first_of_id id s.activeTrades with ⟨hidx,hall⟩ | ⟨before,trade,after,hs,hid,hb,hidx,hfind⟩
  · refine .inl ⟨hall,?_⟩
    rw [hidx]
  · refine .inr ⟨before,trade,after,hs,hid,hb,?_⟩
    rw [hidx,hfind]
    have herase : s.activeTrades.eraseIdx before.length = before ++ after := by
      rw [hs]
      simp [List.eraseIdx_append_of_length_le]
    simp only [herase,filed]

/-- What a closed trade adds to the leg-out losses. -/
def legOutLoss (trade : PaperTrade) : ℚ :=
  if trade.legOutEvent.isSome && trade.actualProfitUsd < 0 then |trade.actualProfitUsd| else 0

/-- The totals of a portfolio agree with its trades. -/
structure Balanced (s : PortfolioState) : Prop where
  capital : s.availableCapital + s.totalOpenPositions = s.startingCapital + s.cumulativePnl
  openTotal : s.totalOpenPositions = (s.activeTrades.map PaperTrade.positionSizeUsd).sum
  pnl : s.cumulativePnl = (s.closedTrades.map PaperTrade.actualProfitUsd).sum
  counts : s.winCount + s.lossCount = s.closedTrades.length
  legOuts : s.legOutTotalLoss = (s.closedTrades.map legOutLoss).sum
  distinct : ((s.activeTrades ++ s.closedTrades).map PaperTrade.id).Nodup

theorem balanced_new (startingCapital : ℚ) : Balanced (.new startingCapital) := by
  constructor <;> simp [PortfolioState.new]

/-- The ids the portfolio has seen. -/
def ids (s : PortfolioState) : List TradeId := (s.activeTrades ++ s.closedTrades).map PaperTrade.id

theorem balanced_open {s : PortfolioState} (h : Balanced s) {trade : PaperTrade}
    (hnew : trade.id ∉ ids s) :
    Balanced { s with
      availableCapital := s.availableCapital - trade.positionSizeUsd
      totalOpenPositions := s.totalOpenPositions + trade.positionSizeUsd
      activeTrades := s.activeTrades ++ [trade] } where
  capital := by
    have := h.capital
    dsimp only
    linarith
  openTotal := by
    have := h.openTotal
    simp only [List.map_append,List.sum_append,List.map_cons,List.map_nil,List.sum_cons,
      List.sum_nil]
    linarith
  pnl := h.pnl
  counts := h.counts
  legOuts := h.legOuts
  distinct := by
    have hd := h.distinct
    have hperm : ((s.activeTrades ++ [trade] ++ s.closedTrades).map PaperTrade.id).Perm
        (trade.id :: ids s) := by
      simp only [List.append_assoc,List.cons_append,List.nil_append,List.map_append,
        List.map_cons,ids]
      exact List.perm_middle
    exact hperm.nodup_iff.mpr (List.nodup_cons.mpr ⟨hnew,hd⟩)

theorem balanced_close {s : PortfolioState} (h : Balanced s) {before after : List PaperTrade}
    {trade : PaperTrade} (hs : s.activeTrades = before ++ trade :: after) (profit : ℚ)
    (reason : ExitReason) (secs : Nat) :
    Balanced { s.settle trade profit with
      activeTrades := before ++ after
      closedTrades := s.closedTrades ++ [filed trade profit reason secs] } where
  capital := by
    have := h.capital
    simp only [PortfolioState.settle]
    linarith
  openTotal := by
    have ho := h.openTotal
    rw [hs] at ho
    simp only [List.map_append,List.sum_append,List.map_cons,List.sum_cons] at ho
    simp only [PortfolioState.settle,List.map_append,List.sum_append]
    linarith
  pnl := by
    have := h.pnl
    simp [PortfolioState.settle,filed,this]
  counts := by
    have := h.counts
    simp only [PortfolioState.settle,List.length_append,List.length_cons,List.length_nil]
    split <;> omega
  legOuts := by
    have := h.legOuts
    simp only [PortfolioState.settle,List.map_append,List.sum_append,List.map_cons,List.map_nil,
      List.sum_cons,List.sum_nil,legOutLoss,filed]
    split <;> simp [this]
  distinct := by
    have hd := h.distinct
    rw [hs] at hd
    refine (List.Perm.nodup_iff ?_).mp hd
    simp only [List.map_append,List.map_cons,filed,List.map_nil,List.append_assoc,List.cons_append]
    refine List.perm_middle.trans ?_
    have hlast := List.perm_append_singleton trade.id (before.map PaperTrade.id ++
      (after.map PaperTrade.id ++ s.closedTrades.map PaperTrade.id))
    simpa only [List.append_assoc] using hlast.symm

/-- The id a call brings in. -/
def opens : PortfolioCall → Option TradeId
  | .openTrade trade => some trade.id
  | .closeTrade .. => none

/-- What one call keeps. -/
theorem balanced_call {s : PortfolioState} (h : Balanced s) (io : RedisAnswers) (c : PortfolioCall)
    (hnew : ∀ id ∈ opens c, id ∉ ids s) : Balanced (s.call io c).2 := by
  cases c with
  | openTrade trade =>
    rcases openTrade_cases s trade with ⟨_,he⟩ | ⟨_,he⟩
    · simpa [PortfolioState.call,he] using h
    · simpa [PortfolioState.call,he] using balanced_open h (hnew _ rfl)
  | closeTrade id profit reason secs =>
    rcases closeTrade_cases s id profit reason secs with ⟨_,he⟩ | ⟨before,trade,after,hs,_,_,he⟩
    · simpa [PortfolioState.call,he] using h
    · simpa [PortfolioState.call,he] using balanced_close h hs profit reason secs

/-- A call brings in no other id than that of the trade it opens. -/
theorem ids_call (s : PortfolioState) (io : RedisAnswers) (c : PortfolioCall) {id : TradeId}
    (h : id ∈ ids (s.call io c).2) : id ∈ ids s ∨ opens c = some id := by
  cases c with
  | openTrade trade =>
    rcases openTrade_cases s trade with ⟨_,he⟩ | ⟨_,he⟩
    · left
      simpa [PortfolioState.call,he] using h
    · simp only [PortfolioState.call,he,ids,List.map_append,List.mem_append,List.map_cons,
        List.map_nil,List.mem_singleton] at h
      rcases h with (h | h) | h
      · exact .inl (by simp only [ids,List.map_append,List.mem_append]; exact .inl h)
      · exact .inr (by rw [opens,h])
      · exact .inl (by simp only [ids,List.map_append,List.mem_append]; exact .inr h)
  | closeTrade i profit reason secs =>
    left
    rcases closeTrade_cases s i profit reason secs with ⟨_,he⟩ | ⟨before,trade,after,hs,_,_,he⟩
    · simpa [PortfolioState.call,he] using h
    · simp only [PortfolioState.call,he,ids,List.map_append,List.mem_append,List.map_cons,
        List.map_nil,List.mem_singleton,filed] at h
      simp only [ids,hs,List.map_append,List.mem_append,List.map_cons,List.mem_cons]
      tauto

theorem balanced_calls (calls : List (PortfolioCall × RedisAnswers)) {s : PortfolioState}
    (h : Balanced s) (hnodup : (calls.filterMap (fun c => opens c.1)).Nodup)
    (hnew : ∀ id ∈ calls.filterMap (fun c => opens c.1), id ∉ ids s) :
    Balanced (s.calls calls) := by
  induction calls generalizing s with
  | nil => exact h
  | cons head rest ih =>
    obtain ⟨c,io⟩ := head
    have hfirst : ∀ id ∈ opens c, id ∉ ids s := fun id hid =>
      hnew id (List.mem_filterMap.mpr ⟨(c,io),List.mem_cons_self,hid⟩)
    have hrest : (rest.filterMap (fun c => opens c.1)).Nodup ∧
        ∀ id, opens c = some id → id ∉ rest.filterMap (fun c => opens c.1) := by
      cases ho : opens c with
      | none =>
        simp only [List.filterMap_cons,ho] at hnodup
        exact ⟨hnodup,fun id hid => nomatch hid⟩
      | some i =>
        simp only [List.filterMap_cons,ho] at hnodup
        obtain ⟨hi,hn⟩ := List.nodup_cons.mp hnodup
        exact ⟨hn,fun id hid => Option.some.inj hid ▸ hi⟩
    refine ih (balanced_call h io c hfirst) hrest.1 (fun id hid hmem => ?_)
    rcases ids_call s io c hmem with hold | hopen
    · refine hnew id ?_ hold
      obtain ⟨x,hx,hxo⟩ := List.mem_filterMap.mp hid
      exact List.mem_filterMap.mpr ⟨x,List.mem_cons_of_mem _ hx,hxo⟩
    · exact hrest.2 id hopen hid

/-- The totals agree with the trades after every call, whatever the calls return and
whichever Redis requests fail. -/
theorem portfolio_stays_balanced (startingCapital : ℚ) (calls : List (PortfolioCall × RedisAnswers))
    (hdistinct : (calls.filterMap (fun c => opens c.1)).Nodup) :
    Balanced ((PortfolioState.new startingCapital).calls calls) :=
  balanced_calls calls (balanced_new startingCapital) hdistinct
    (fun id _ h => by simp [ids,PortfolioState.new] at h)

/-- A trade of this size on the scene. -/
def tradeOf (id : TradeId) (size : ℚ) : PaperTrade :=
  { placeholderTrade id onePercent with exitReason := none, positionSizeUsd := size }

/-- Two trades, one of them closed at a loss while Redis does not answer, and a close that
names no trade. -/
theorem lossy_portfolio_balanced :
    let calls : List (PortfolioCall × RedisAnswers) :=
      [(.openTrade (tradeOf 1 100),{}),(.openTrade (tradeOf 2 50),{ log := some "timeout" }),
        (.closeTrade 1 (-3) .manualExit 10,{ state := some "timeout" }),
          (.closeTrade 1 5 .manualExit 11,{})]
    (calls.filterMap (fun c => opens c.1)).Nodup ∧
      Balanced ((PortfolioState.new 1000).calls calls) :=
  ⟨by decide,portfolio_stays_balanced 1000 _ (by decide)⟩

/-- The call gets as far as changing the state. -/
def Accepted (s : PortfolioState) : PortfolioCall → Prop
  | .openTrade trade => trade.positionSizeUsd ≤ s.availableCapital
  | .closeTrade id .. => ∃ t ∈ s.activeTrades, t.id = id

/-- Once it gets that far, the state is another one. -/
theorem accepted_changes {s : PortfolioState} {c : PortfolioCall} (h : Accepted s c)
    (io : RedisAnswers) :
    (s.call io c).1 = io.result ∧ (s.call io c).2.activeTrades.length ≠ s.activeTrades.length := by
  cases c with
  | openTrade trade =>
    rcases openTrade_cases s trade with ⟨hlt,_⟩ | ⟨_,he⟩
    · exact absurd h (not_le.mpr hlt)
    · simp [PortfolioState.call,he]
  | closeTrade id profit reason secs =>
    rcases closeTrade_cases s id profit reason secs with ⟨hall,_⟩ | ⟨before,trade,after,hs,_,_,he⟩
    · obtain ⟨t,ht,hid⟩ := h
      exact absurd hid (hall t ht)
    · simp [PortfolioState.call,he,hs]

theorem refused_keeps {s : PortfolioState} {c : PortfolioCall} (h : ¬ Accepted s c)
    (io : RedisAnswers) : (s.call io c).2 = s := by
  cases c with
  | openTrade trade =>
    rcases openTrade_cases s trade with ⟨_,he⟩ | ⟨hle,_⟩
    · simp [PortfolioState.call,he]
    · exact absurd hle h
  | closeTrade id profit reason secs =>
    rcases closeTrade_cases s id profit reason secs with ⟨_,he⟩ | ⟨before,trade,after,hs,hid,_,_⟩
    · simp [PortfolioState.call,he]
    · exact absurd ⟨trade,by simp [hs],hid⟩ h

/-- A failed call leaves the state alone exactly when it does not fail at Redis after the
state was changed. -/
theorem failed_call_keeps_state_iff (s : PortfolioState) (c : PortfolioCall) (io : RedisAnswers) :
    ((∃ e, (s.call io c).1 = .error e) → (s.call io c).2 = s) ↔
      (Accepted s c → io.log = none ∧ io.state = none ∧ io.metrics = none) := by
  have hresult : (∃ e, io.result = .error e) ↔
      ¬ (io.log = none ∧ io.state = none ∧ io.metrics = none) := by
    unfold RedisAnswers.result RedisAnswers.failure
    cases io.log <;> cases io.state <;> cases io.metrics <;> simp
  constructor
  · intro h hacc
    obtain ⟨hres,hlen⟩ := accepted_changes hacc io
    rw [hres] at h
    by_contra hfail
    exact hlen (by rw [h (hresult.mpr hfail)])
  · intro h herr
    by_cases hacc : Accepted s c
    · rw [(accepted_changes hacc io).1] at herr
      exact absurd (h hacc) (hresult.mp herr)
    · exact refused_keeps hacc io

/-- An `open_trade` that fails at the log has taken the capital and filed the trade. -/
theorem failed_log_opens_trade :
    let out := (PortfolioState.new 1000).call { log := some "timeout" } (.openTrade (tradeOf 1 100))
    out.1.isOk = false ∧ out.2.availableCapital = 900 ∧ out.2.activeTrades.length = 1 ∧
      out.2 ≠ PortfolioState.new 1000 := by
  refine ⟨by decide +kernel,by decide +kernel,by decide +kernel,fun h => ?_⟩
  have hlen := congrArg (fun s => s.activeTrades.length) h
  exact absurd hlen (by decide +kernel)

end SpreadArb.Proofs.Ledger
