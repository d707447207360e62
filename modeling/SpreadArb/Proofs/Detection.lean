import SpreadArb.Detector

namespace SpreadArb.Proofs.Detection
open Numeric Detector

section Registered

/-- Every pair of the list has its id. -/
def Registered (m : SymbolMap) (pairs : List Pair) : Prop := ∀ p ∈ pairs, ∃ i, m.toId p = some i

/-- The second map knows what the first one knows, and has handed out no fewer ids. -/
structure Extends (m m' : SymbolMap) : Prop where
  toId : ∀ p i, m.toId p = some i → m'.toId p = some i
  nextId : m.nextId ≤ m'.nextId

theorem Extends.refl (m : SymbolMap) : Extends m m := ⟨fun _ _ h => h,le_rfl⟩

theorem Extends.trans {a b c : SymbolMap} (h : Extends a b) (k : Extends b c) : Extends a c :=
  ⟨fun p i hp => k.toId p i (h.toId p i hp),h.nextId.trans k.nextId⟩

theorem getOrInsert_known {m : SymbolMap} {exchange symbol : String} {i : Nat}
    (h : m.toId (exchange,symbol) = some i) : m.getOrInsert exchange symbol = (i,m) := by
  unfold SymbolMap.getOrInsert
  rw [h]

theorem getOrInsert_new {m : SymbolMap} {exchange symbol : String}
    (h : m.toId (exchange,symbol) = none) :
    m.getOrInsert exchange symbol = (m.nextId % 2 ^ 32,m.insert (exchange,symbol)) := by
  unfold SymbolMap.getOrInsert
  rw [h]

theorem extends_insert {m : SymbolMap} {pair : Pair} (h : m.toId pair = none) :
    Extends m (m.insert pair) where
  toId p i hp := by
    have hne : p ≠ pair := by
      rintro rfl
      rw [h] at hp
      cases hp
    simp [SymbolMap.insert,hne,hp]
  nextId := Nat.le_succ _

theorem getOrInsert_extends (m : SymbolMap) (exchange symbol : String) :
    Extends m (m.getOrInsert exchange symbol).2 := by
  cases h : m.toId (exchange,symbol) with
  | some i =>
    rw [getOrInsert_known h]
    exact .refl m
  | none =>
    rw [getOrInsert_new h]
    exact extends_insert h

/-- A pair that was looked up is known by the id that was returned. -/
theorem getOrInsert_registers (m : SymbolMap) (exchange symbol : String) :
    (m.getOrInsert exchange symbol).2.toId (exchange,symbol) =
      some (m.getOrInsert exchange symbol).1 := by
  cases h : m.toId (exchange,symbol) with
  | some i =>
    rw [getOrInsert_known h]
    exact h
  | none =>
    rw [getOrInsert_new h]
    simp [SymbolMap.insert]

theorem register_extends (pairs : List Pair) (m : SymbolMap) : Extends m (m.register pairs) := by
  induction pairs generalizing m with
  | nil => exact .refl m
  | cons p pairs ih => exact (getOrInsert_extends m p.1 p.2).trans (ih _)

theorem register_registers (pairs : List Pair) (m : SymbolMap) :
    Registered (m.register pairs) pairs := by
  induction pairs generalizing m with
  | nil => exact fun p hp => nomatch hp
  | cons p pairs ih =>
    intro q hq
    rcases List.mem_cons.mp hq with rfl | hq
    · exact ⟨_,(register_extends pairs _).toId _ _ (getOrInsert_registers m q.1 q.2)⟩
    · exact ih _ q hq

end Registered

section Pass

variable (store : MarketDataStore) (symbol : String) (secs : String → String → Nat)

/-- The quote of an exchange that the store holds under the ids of the map. -/
def quote (m : SymbolMap) (exchange : String) : Option (F64 × F64) :=
  match m.toId (exchange,symbol) with
  | none => none
  | some i =>
    match store.getBid i, store.getAsk i with
    | some bid, some ask => some (bid,ask)
    | _, _ => none

/-- The quotes that `get_prices` lets through. -/
def Listed (q : Option (F64 × F64)) (bid ask : F64) : Prop :=
  q = some (bid,ask) ∧ bid.le (.fin 0) = false ∧ ask.le (.fin 0) = false

theorem getPrices_known {m : SymbolMap} {exchange : String} {i : Nat}
    (h : m.toId (exchange,symbol) = some i) :
    (getPrices m store exchange symbol).2 = m ∧
      ∀ bid ask, (getPrices m store exchange symbol).1 = some (bid,ask) ↔
        Listed (quote store symbol m exchange) bid ask := by
  unfold getPrices quote Listed
  rw [getOrInsert_known h,h]
  dsimp only
  cases store.getBid i with
  | none => exact ⟨rfl,fun bid ask => by simp⟩
  | some b =>
    cases store.getAsk i with
    | none => exact ⟨rfl,fun bid ask => by simp⟩
    | some a =>
      dsimp only
      constructor
      · split <;> rfl
      · intro bid ask
        split
        · next hle =>
          simp only [Bool.or_eq_true] at hle
          constructor
          · intro he
            cases he
          · rintro ⟨he,hb,ha⟩
            cases he
            rcases hle with hle | hle
            · rw [hb] at hle
              cases hle
            · rw [ha] at hle
              cases hle
        · next hle =>
          simp only [Bool.or_eq_true,not_or,Bool.not_eq_true] at hle
          constructor
          · intro he
            cases he
            exact ⟨rfl,hle⟩
          · exact fun he => he.1

/-- The list that the double loop runs over, and the map it leaves. -/
theorem withValidBid_spec (exchanges : List String) (m : SymbolMap) :
    (withValidBid store symbol m exchanges).2 = m.register (exchanges.map (fun e => (e,symbol))) ∧
      (withValidBid store symbol m exchanges).1 = exchanges.filter (fun e =>
        match (m.register (exchanges.map (fun e => (e,symbol)))).toId (e,symbol) with
        | some i => ((store.getBid i).map (fun bid => F64.lt (.fin 0) bid)).getD false
        | none => false) := by
  induction exchanges generalizing m with
  | nil => exact ⟨rfl,rfl⟩
  | cons e es ih =>
    obtain ⟨hmap,hlist⟩ := ih (m.getOrInsert e symbol).2
    have hid := (register_extends (es.map (fun e => (e,symbol))) _).toId _ _
      (getOrInsert_registers m e symbol)
    unfold withValidBid
    simp only [List.map_cons,SymbolMap.register,List.filter_cons,hid]
    rw [← hlist]
    cases hb : store.getBid (m.getOrInsert e symbol).1 with
    | none => simp [hmap]
    | some bid =>
      cases hlt : F64.lt (.fin 0) bid <;> simp [hlt,hmap]

/-- What one direction publishes. -/
def direction (m : SymbolMap) (long short : String) : Option Opportunity :=
  match (getPrices m store long symbol).1, (getPrices m store short symbol).1 with
  | some (_,ask), some (bid,_) => checkOpportunity symbol long short ask bid (secs long short)
  | _, _ => none

theorem checkPair_known {m : SymbolMap} {ex1 ex2 : String}
    (h1 : ∃ i, m.toId (ex1,symbol) = some i) (h2 : ∃ i, m.toId (ex2,symbol) = some i) :
    checkPair store symbol secs m ex1 ex2 =
      ((direction store symbol secs m ex1 ex2).toList ++
        (direction store symbol secs m ex2 ex1).toList,m) := by
  obtain ⟨i,h1⟩ := h1
  obtain ⟨j,h2⟩ := h2
  unfold checkPair direction
  have e1 := (getPrices_known store symbol h1).1
  have e2 := (getPrices_known store symbol h2).1
  generalize hg1 : getPrices m store ex1 symbol = r1 at e1
  generalize hg2 : getPrices m store ex2 symbol = r2 at e2
  obtain ⟨p1,m1⟩ := r1
  obtain ⟨p2,m2⟩ := r2
  simp only at e1 e2
  subst e1
  simp only [hg2,e2]
  rcases p1 with _ | ⟨b1,a1⟩ <;> rcases p2 with _ | ⟨b2,a2⟩ <;> rfl

theorem checkRow_known {m : SymbolMap} {ex1 : String} (h1 : ∃ i, m.toId (ex1,symbol) = some i)
    (rest : List String) (hrest : ∀ e ∈ rest, ∃ i, m.toId (e,symbol) = some i) :
    checkRow store symbol secs ex1 m rest =
      (rest.flatMap (fun ex2 => (direction store symbol secs m ex1 ex2).toList ++
        (direction store symbol secs m ex2 ex1).toList),m) := by
  induction rest with
  | nil => rfl
  | cons ex2 rest ih =>
    unfold checkRow
    rw [checkPair_known store symbol secs h1 (hrest ex2 List.mem_cons_self)]
    dsimp only
    rw [ih (fun e he => hrest e (List.mem_cons_of_mem _ he))]
    rfl

/-- All directions between exchanges of a list, as the double loop comes to them. -/
def directions (m : SymbolMap) : List String → List Opportunity
  | [] => []
  | ex1 :: rest =>
    rest.flatMap (fun ex2 => (direction store symbol secs m ex1 ex2).toList ++
      (direction store symbol secs m ex2 ex1).toList) ++ directions m rest

theorem checkAll_known {m : SymbolMap} (exchanges : List String)
    (h : ∀ e ∈ exchanges, ∃ i, m.toId (e,symbol) = some i) :
    checkAll store symbol secs m exchanges = (directions store symbol secs m exchanges,m) := by
  induction exchanges with
  | nil => rfl
  | cons ex1 rest ih =>
    unfold checkAll
    rw [checkRow_known store symbol secs (h ex1 List.mem_cons_self) rest
      (fun e he => h e (List.mem_cons_of_mem _ he))]
    dsimp only
    rw [ih (fun e he => h e (List.mem_cons_of_mem _ he))]
    rfl

end Pass

section Filters

/-- A direction passes the filters of `check_opportunity`. -/
structure Passes (symbol long short : String) (ask bid : F64) : Prop where
  wide : (spread ask bid).le (.fin 10) = false
  confident : 70 ≤ calculateConfidence (spread ask bid) (getFundingDelta symbol long short)
  profitable : (projectedProfitBps long short (spread ask bid)).le (.fin 0) = false

theorem checkOpportunity_iff {symbol long short : String} {ask bid : F64} {secs : Nat}
    {o : Opportunity} :
    checkOpportunity symbol long short ask bid secs = some o ↔
      Passes symbol long short ask bid ∧ buildOpportunity symbol long short ask bid secs = o := by
  -- the funding placeholder always passes
  have hfunding : (getFundingDelta symbol long short).abs.lt minFundingDelta = false := by
    unfold getFundingDelta minFundingDelta
    decide +kernel
  unfold checkOpportunity minSpreadBps minConfidence
  simp only [hfunding,Bool.false_eq_true,if_false]
  constructor
  · intro h
    split at h
    · cases h
    · next hw =>
      split at h
      · cases h
      · next hc =>
        split at h
        · cases h
        · next hp => exact ⟨⟨by simpa using hw,not_lt.mp hc,by simpa using hp⟩,Option.some.inj h⟩
  · rintro ⟨⟨hw,hc,hp⟩,rfl⟩
    simp [hw,hp,not_lt.mpr hc]

theorem fee_bounds (exchange : String) :
    ∃ q : ℚ, getExchangeFeeByName exchange = .fin q ∧ 4 ≤ q ∧ q ≤ 6 := by
  unfold getExchangeFeeByName
  split <;> exact ⟨_,rfl,by norm_num,by norm_num⟩

/-- A long price that is infinite or not a number makes the spread no number. -/
theorem spread_nan {ask : F64} (h : ask = .inf ∨ ask = .nan) (bid : F64) :
    spread ask bid = .nan := by
  rcases h with rfl | rfl <;> cases bid <;> rfl

/-- Such a spread passes all filters. -/
theorem passes_nan (symbol long short : String) {ask bid : F64} (h : spread ask bid = .nan) :
    Passes symbol long short ask bid := by
  obtain ⟨p,hp,_⟩ := fee_bounds long
  obtain ⟨q,hq,_⟩ := fee_bounds short
  refine ⟨by rw [h]; rfl,?_,?_⟩
  · rw [h]
    unfold getFundingDelta
    decide +kernel
  · unfold projectedProfitBps
    rw [h,hp,hq]
    rfl

/-- With a finite long price the spread is a number, if only an infinite one. -/
theorem spread_ne_nan {a : ℚ} (ha : 0 < a) {bid : F64} (hb : F64.lt (.fin 0) bid = true) :
    spread (.fin a) bid ≠ .nan := by
  have hdiff : bid - .fin a ≠ .nan := by
    cases bid with
    | fin b =>
      rw [F64.fin_sub]
      exact F64.round_ne_nan _
    | inf => exact F64.noConfusion
    | negInf => cases hb
    | nan => cases hb
  have hquot := F64.div_mono (F64.le_self hdiff) ha
  exact (F64.ne_nan_of_le (F64.mul_mono hquot (by norm_num))).1

theorem fees_bounds (long short : String) :
    ∃ q : ℚ, getExchangeFeeByName long + getExchangeFeeByName short = .fin q ∧ 8 ≤ q ∧ q ≤ 12 := by
  obtain ⟨p,hp,hp4,hp6⟩ := fee_bounds long
  obtain ⟨q,hq,hq4,hq6⟩ := fee_bounds short
  have h8 : F64.round ((8 : ℤ) : ℚ) = .fin ((8 : ℤ) : ℚ) := F64.round_int (by norm_num)
  have h12 : F64.round ((12 : ℤ) : ℚ) = .fin ((12 : ℤ) : ℚ) := F64.round_int (by norm_num)
  rw [hp,hq,F64.fin_add]
  apply F64.fin_of_between
  · have hlow := F64.round_mono (a := ((8 : ℤ) : ℚ)) (b := p + q) (by push_cast; linarith)
    rwa [h8] at hlow
  · have hhigh := F64.round_mono (a := p + q) (b := ((12 : ℤ) : ℚ)) (by push_cast; linarith)
    rwa [h12] at hhigh

section Confidence

variable {symbol long short : String} {x y : F64}

/-- A wider spread is no less confident. -/
theorem confidence_mono (h : x.le y = true) :
    calculateConfidence x (getFundingDelta symbol long short) ≤
      calculateConfidence y (getFundingDelta symbol long short) := by
  have hfunding : (F64.min ((getFundingDelta symbol long short).abs / .round (1/100)) (.fin 1) *
      .fin 30).isFinite = true := by
    unfold getFundingDelta
    decide +kernel
  unfold calculateConfidence
  generalize F64.min ((getFundingDelta symbol long short).abs / .round (1/100)) (.fin 1) *
      .fin 30 = term at hfunding
  cases term with
  | fin k =>
    have hscaled := F64.min_mono (F64.div_mono h (c := 50) (by norm_num)) 1
    have hsum := F64.add_mono (F64.add_mono (F64.mul_mono hscaled (c := 50) (by norm_num)) k) 20
    exact F64.toU8_mono (F64.clamp_mono hsum (by norm_num))
  | inf => cases hfunding
  | negInf => cases hfunding
  | nan => cases hfunding

/-- A spread that is confident enough is above one that is not. -/
theorem confident_above {t : ℚ} (hx : x ≠ .nan)
    (hc : 70 ≤ calculateConfidence x (getFundingDelta symbol long short))
    (ht : calculateConfidence (.fin t) (getFundingDelta symbol long short) < 70) :
    F64.lt (.fin t) x = true := by
  by_contra hlt
  have hle : x.le (.fin t) = true := by
    rw [F64.le_eq_not_lt hx F64.noConfusion]
    simpa using hlt
  have hmono : calculateConfidence x (getFundingDelta symbol long short) ≤
      calculateConfidence (.fin t) (getFundingDelta symbol long short) := confidence_mono hle
  omega

/-- It is far above what the filters take off. -/
theorem confident_49 (hx : x ≠ .nan)
    (hc : 70 ≤ calculateConfidence x (getFundingDelta symbol long short)) :
    F64.lt (.fin 49) x = true :=
  confident_above hx hc (by unfold getFundingDelta; decide +kernel)

/-- The fees take no more than 12 of a spread. -/
theorem after_fees (long short : String) {t : ℚ} (h : F64.le (.fin t) x = true) :
    F64.le (.fin t - .fin 12) (x - (getExchangeFeeByName long + getExchangeFeeByName short)) =
      true := by
  obtain ⟨q,hq,_,hq12⟩ := fees_bounds long short
  rw [hq]
  refine F64.le_trans ?_ (F64.sub_mono h q)
  rw [F64.fin_sub,F64.fin_sub]
  exact F64.round_mono (by linarith)

theorem profit_above {t : ℚ} (h : F64.le (.fin t) x = true) :
    F64.le (.fin t - .fin 12 - .fin 3 - .fin 10) (projectedProfitBps long short x) = true :=
  F64.sub_mono (F64.sub_mono (after_fees long short h) 3) 10

theorem lt_of_confident {t : ℚ} (hx : x ≠ .nan) (ht : t ≤ 49)
    (hc : 70 ≤ calculateConfidence x (getFundingDelta symbol long short)) :
    F64.lt (.fin t) x = true ∧ F64.lt (.fin 0) (projectedProfitBps long short x) = true := by
  have habove := confident_49 hx hc
  constructor
  · cases x with
    | fin q =>
      have hq : 49 < q := by simpa using habove
      simp only [F64.lt_fin,decide_eq_true_eq]
      linarith
    | inf => rfl
    | negInf => cases habove
    | nan => cases habove
  · exact F64.lt_of_lt_of_le (by decide +kernel) (profit_above (F64.le_of_lt habove))

/-- The detector publishes what it is confident of: its other filters stop nothing more. -/
theorem passes_iff_confident (symbol long short : String) (ask bid : F64) :
    Passes symbol long short ask bid ↔
      70 ≤ calculateConfidence (spread ask bid) (getFundingDelta symbol long short) := by
  refine ⟨Passes.confident,fun hc => ?_⟩
  by_cases hnan : spread ask bid = .nan
  · exact passes_nan symbol long short hnan
  obtain ⟨hwide,hprofit⟩ := lt_of_confident (t := 10) hnan (by norm_num) hc
  have hprofit_nan := (F64.ne_nan_of_le (F64.le_of_lt hprofit)).2
  refine ⟨?_,hc,?_⟩
  · rw [F64.le_eq_not_lt hnan F64.noConfusion,hwide]
    rfl
  · rw [F64.le_eq_not_lt hprofit_nan F64.noConfusion,hprofit]
    rfl

end Confidence

end Filters

section Exact

variable (store : MarketDataStore) (symbol : String) (secs : String → String → Nat)

/-- A direction that ought to be published: both quotes are valid and it is wide, confident
and profitable enough. -/
structure Qualifies (m : SymbolMap) (long short : String) (ask bid : F64) : Prop where
  long_known : long ∈ knownExchanges
  short_known : short ∈ knownExchanges
  distinct : long ≠ short
  long_valid : ∃ b, quote store symbol m long = some (b,ask) ∧ F64.lt (.fin 0) b = true ∧
    F64.lt (.fin 0) ask = true
  short_valid : ∃ a, quote store symbol m short = some (bid,a) ∧ F64.lt (.fin 0) bid = true ∧
    F64.lt (.fin 0) a = true
  wide : F64.lt (.fin 10) (spread ask bid) = true
  confident : 70 ≤ calculateConfidence (spread ask bid) (getFundingDelta symbol long short)
  profitable : F64.lt (.fin 0) (spread ask bid -
    (getExchangeFeeByName long + getExchangeFeeByName short) - .fin 13) = true

/-- One opportunity for each direction that qualifies, nothing else, and each as it should be. -/
structure PublishesExactly (m : SymbolMap) (out : List Opportunity) : Prop where
  once : (out.map (fun o => (o.longExchange,o.shortExchange))).Nodup
  complete : ∀ long short ask bid, Qualifies store symbol m long short ask bid →
    ∃ o ∈ out, o.longExchange = long ∧ o.shortExchange = short
  sound : ∀ o ∈ out, ∃ ask bid, Qualifies store symbol m o.longExchange o.shortExchange ask bid ∧
    o.symbol = symbol ∧ o.longPrice = ask ∧ o.shortPrice = bid ∧ o.spreadBps = spread ask bid ∧
    o.confidenceScore ≤ 100

/-- The exchange is in the list of the double loop, and `get_prices` answers for it. -/
structure Offered (m : SymbolMap) (exchange : String) (bid ask : F64) : Prop where
  known : exchange ∈ knownExchanges
  quoted : quote store symbol m exchange = some (bid,ask)
  bid_pos : F64.lt (.fin 0) bid = true
  ask_pos : ask.le (.fin 0) = false

/-- The map once all known exchanges have been looked up. -/
def registered (m : SymbolMap) : SymbolMap := m.register (knownExchanges.map (fun e => (e,symbol)))

theorem direction_iff {m : SymbolMap} {long short : String}
    (hl : ∃ i, m.toId (long,symbol) = some i) (hs : ∃ i, m.toId (short,symbol) = some i)
    {o : Opportunity} :
    direction store symbol secs m long short = some o ↔
      ∃ b ask bid a, Listed (quote store symbol m long) b ask ∧
        Listed (quote store symbol m short) bid a ∧ Passes symbol long short ask bid ∧
        buildOpportunity symbol long short ask bid (secs long short) = o := by
  obtain ⟨i,hl⟩ := hl
  obtain ⟨j,hs⟩ := hs
  have h1 := (getPrices_known store symbol hl).2
  have h2 := (getPrices_known store symbol hs).2
  unfold direction
  cases hp : (getPrices m store long symbol).1 with
  | none =>
    constructor
    · intro h
      cases h
    · rintro ⟨b,ask,bid,a,hlist,_⟩
      rw [(h1 b ask).mpr hlist] at hp
      cases hp
  | some p =>
    obtain ⟨b,ask⟩ := p
    cases hq : (getPrices m store short symbol).1 with
    | none =>
      constructor
      · intro h
        cases h
      · rintro ⟨b',ask',bid,a,_,hlist,_⟩
        rw [(h2 bid a).mpr hlist] at hq
        cases hq
    | some q =>
      obtain ⟨bid,a⟩ := q
      dsimp only
      rw [checkOpportunity_iff]
      constructor
      · rintro ⟨hpass,ho⟩
        exact ⟨b,ask,bid,a,(h1 b ask).mp hp,(h2 bid a).mp hq,hpass,ho⟩
      · rintro ⟨b',ask',bid',a',hlist,hlist',hpass,ho⟩
        have e1 := hp.symm.trans ((h1 b' ask').mpr hlist)
        have e2 := hq.symm.trans ((h2 bid' a').mpr hlist')
        cases e1
        cases e2
        exact ⟨hpass,ho⟩

theorem direction_names {m : SymbolMap} {long short : String} {o : Opportunity}
    (h : direction store symbol secs m long short = some o) :
    o.longExchange = long ∧ o.shortExchange = short := by
  unfold direction at h
  split at h
  · obtain ⟨_,rfl⟩ := checkOpportunity_iff.mp h
    exact ⟨rfl,rfl⟩
  · cases h

/-- The double loop comes to every direction between two exchanges of the list. -/
theorem mem_directions {m : SymbolMap} {o : Opportunity} (exchanges : List String)
    (hn : exchanges.Nodup) :
    o ∈ directions store symbol secs m exchanges ↔
      ∃ long ∈ exchanges, ∃ short ∈ exchanges, long ≠ short ∧
        direction store symbol secs m long short = some o := by
  induction exchanges with
  | nil => simp [directions]
  | cons ex1 rest ih =>
    obtain ⟨hnot,hrest⟩ := List.nodup_cons.mp hn
    simp only [directions,List.mem_append,List.mem_flatMap,Option.mem_toList,ih hrest]
    constructor
    · rintro (⟨ex2,hmem,h | h⟩ | ⟨long,hl,short,hs,hne,h⟩)
      · exact ⟨ex1,List.mem_cons_self,ex2,List.mem_cons_of_mem _ hmem,fun he => hnot (he ▸ hmem),h⟩
      · exact ⟨ex2,List.mem_cons_of_mem _ hmem,ex1,List.mem_cons_self,fun he => hnot (he ▸ hmem),h⟩
      · exact ⟨long,List.mem_cons_of_mem _ hl,short,List.mem_cons_of_mem _ hs,hne,h⟩
    · rintro ⟨long,hl,short,hs,hne,h⟩
      rcases List.mem_cons.mp hl with hl | hl <;> rcases List.mem_cons.mp hs with hs | hs
      · exact absurd (hl.trans hs.symm) hne
      · exact .inl ⟨short,hs,.inl (hl ▸ h)⟩
      · exact .inl ⟨long,hl,.inr (hs ▸ h)⟩
      · exact .inr ⟨long,hl,short,hs,hne,h⟩

/-- The directions one exchange has with others are all different. -/
theorem row_once {m : SymbolMap} {ex1 : String} (rest : List String) (hn : (ex1 :: rest).Nodup) :
    ((rest.flatMap (fun ex2 => (direction store symbol secs m ex1 ex2).toList ++
      (direction store symbol secs m ex2 ex1).toList)).map
        (fun o => (o.longExchange,o.shortExchange))).Nodup := by
  have hmem : ∀ (ex2 : String) (p : Pair), p ∈ ((direction store symbol secs m ex1 ex2).toList ++
      (direction store symbol secs m ex2 ex1).toList).map (fun o =>
        (o.longExchange,o.shortExchange)) →
      p = (ex1,ex2) ∨ p = (ex2,ex1) := by
    intro ex2 p hp
    simp only [List.mem_map,List.mem_append,Option.mem_toList] at hp
    obtain ⟨o,h | h,rfl⟩ := hp
    · obtain ⟨hl,hs⟩ := direction_names store symbol secs h
      exact .inl (by rw [hl,hs])
    · obtain ⟨hl,hs⟩ := direction_names store symbol secs h
      exact .inr (by rw [hl,hs])
  obtain ⟨hnot,hrest⟩ := List.nodup_cons.mp hn
  rw [List.map_flatMap,List.nodup_flatMap]
  constructor
  · intro ex2 h2
    have hne : ex1 ≠ ex2 := fun he => hnot (he ▸ h2)
    cases h : direction store symbol secs m ex1 ex2 with
    | none => cases direction store symbol secs m ex2 ex1 <;> simp
    | some o =>
      cases k : direction store symbol secs m ex2 ex1 with
      | none => simp
      | some o' =>
        have h3 := direction_names store symbol secs h
        have h4 := direction_names store symbol secs k
        simp [h3,h4,hne]
  · refine hrest.imp_of_mem (fun {a b} ha hb hab => ?_)
    intro p hpa hpb
    have hna : ex1 ≠ a := fun he => hnot (he ▸ ha)
    have hnb : ex1 ≠ b := fun he => hnot (he ▸ hb)
    rcases hmem a p hpa with rfl | rfl <;> rcases hmem b _ hpb with he | he <;>
      simp_all [Prod.mk.injEq]

theorem directions_once {m : SymbolMap} (exchanges : List String) (hn : exchanges.Nodup) :
    ((directions store symbol secs m exchanges).map
      (fun o => (o.longExchange,o.shortExchange))).Nodup := by
  induction exchanges with
  | nil => simp [directions]
  | cons ex1 rest ih =>
    obtain ⟨hnot,hrest⟩ := List.nodup_cons.mp hn
    simp only [directions,List.map_append]
    refine List.nodup_append'.mpr ⟨row_once store symbol secs rest hn,ih hrest,?_⟩
    intro p hrow htail
    -- a row names its exchange, the directions after it do not
    obtain ⟨o,ho,rfl⟩ := List.mem_map.mp htail
    obtain ⟨long,hl,short,hs,_,hdir⟩ := (mem_directions store symbol secs rest hrest).mp ho
    obtain ⟨h1,h2⟩ := direction_names store symbol secs hdir
    obtain ⟨o',ho',he⟩ := List.mem_map.mp hrow
    obtain ⟨ex2,h2',h | h⟩ : ∃ ex2 ∈ rest, direction store symbol secs m ex1 ex2 = some o' ∨
        direction store symbol secs m ex2 ex1 = some o' := by
      simpa only [List.mem_flatMap,List.mem_append,Option.mem_toList] using ho'
    · obtain ⟨h3,_⟩ := direction_names store symbol secs h
      have : ex1 = long := h3.symm.trans ((congrArg Prod.fst he).trans h1)
      exact hnot (this ▸ hl)
    · obtain ⟨_,h3⟩ := direction_names store symbol secs h
      have : ex1 = short := h3.symm.trans ((congrArg Prod.snd he).trans h2)
      exact hnot (this ▸ hs)

theorem registered_known (m : SymbolMap) {exchange : String} (h : exchange ∈ knownExchanges) :
    ∃ i, (registered symbol m).toId (exchange,symbol) = some i :=
  register_registers _ m _ (List.mem_map.mpr ⟨exchange,h,rfl⟩)

theorem lt_not_le {x : F64} (h : F64.lt (.fin 0) x = true) : x.le (.fin 0) = false := by
  cases x with
  | fin q => simpa using h
  | inf => rfl
  | negInf => cases h
  | nan => cases h

/-- The exchanges of the double loop. -/
def offering (m : SymbolMap) : List String := (getExchangesForSymbol m store symbol).1

theorem detect_eq (m : SymbolMap) (updated : String) :
    detectOpportunitiesForSymbol store symbol secs m updated =
      (directions store symbol secs (registered symbol m) (offering store symbol m),
        registered symbol m) := by
  have hmap : (getExchangesForSymbol m store symbol).2 = registered symbol m :=
    (withValidBid_spec store symbol knownExchanges m).1
  have hlist : offering store symbol m = (getExchangesForSymbol m store symbol).1 := rfl
  unfold detectOpportunitiesForSymbol
  dsimp only
  rw [hmap,← hlist]
  split
  · next hlen =>
    match hl : offering store symbol m with
    | [] => rfl
    | [e] => rfl
    | e :: e' :: es =>
      rw [hl] at hlen
      simp only [List.length_cons] at hlen
      omega
  · refine checkAll_known store symbol secs _ (fun e he => ?_)
    refine register_registers _ m _ (List.mem_map.mpr ⟨e,?_,rfl⟩)
    rw [hlist] at he
    unfold getExchangesForSymbol at he
    rw [(withValidBid_spec store symbol knownExchanges m).2] at he
    exact (List.mem_filter.mp he).1

theorem offering_nodup (m : SymbolMap) : (offering store symbol m).Nodup := by
  unfold offering getExchangesForSymbol
  rw [(withValidBid_spec store symbol knownExchanges m).2]
  exact List.Nodup.filter _ (by decide)

theorem offered_iff {m : SymbolMap} {exchange : String} {bid ask : F64} :
    (exchange ∈ offering store symbol m ∧
      Listed (quote store symbol (registered symbol m) exchange) bid ask) ↔
      Offered store symbol (registered symbol m) exchange bid ask := by
  have hmem : exchange ∈ offering store symbol m ↔ exchange ∈ knownExchanges ∧
      (match (registered symbol m).toId (exchange,symbol) with
        | some i => ((store.getBid i).map (fun bid => F64.lt (.fin 0) bid)).getD false
        | none => false) = true := by
    unfold offering getExchangesForSymbol
    rw [(withValidBid_spec store symbol knownExchanges m).2]
    exact List.mem_filter
  -- a quote in the store is the bid the list was filtered by
  have hbid : ∀ {bid ask : F64}, quote store symbol (registered symbol m) exchange =
      some (bid,ask) →
      (match (registered symbol m).toId (exchange,symbol) with
        | some i => ((store.getBid i).map (fun bid => F64.lt (.fin 0) bid)).getD false
        | none => false) = F64.lt (.fin 0) bid := by
    intro bid ask hq
    unfold quote at hq
    split at hq
    · cases hq
    · next i hi =>
      split at hq
      · next b a hb ha =>
        cases hq
        rw [hi]
        dsimp only
        rw [hb]
        rfl
      · cases hq
  rw [hmem]
  constructor
  · rintro ⟨⟨hk,hf⟩,hq,_,ha⟩
    exact ⟨hk,hq,(hbid hq).symm.trans hf,ha⟩
  · rintro ⟨hk,hq,hb,ha⟩
    exact ⟨⟨hk,(hbid hq).trans hb⟩,hq,lt_not_le hb,ha⟩

/-- What a detection pass publishes. -/
theorem mem_detect (m : SymbolMap) (updated : String) {o : Opportunity} :
    o ∈ (detectOpportunitiesForSymbol store symbol secs m updated).1 ↔
      ∃ long short b ask bid a, Offered store symbol (registered symbol m) long b ask ∧
        Offered store symbol (registered symbol m) short bid a ∧ long ≠ short ∧
        Passes symbol long short ask bid ∧
        buildOpportunity symbol long short ask bid (secs long short) = o := by
  have hknown : ∀ e ∈ offering store symbol m, e ∈ knownExchanges := by
    intro e he
    unfold offering getExchangesForSymbol at he
    rw [(withValidBid_spec store symbol knownExchanges m).2] at he
    exact (List.mem_filter.mp he).1
  rw [detect_eq,mem_directions store symbol secs _ (offering_nodup store symbol m)]
  constructor
  · rintro ⟨long,hl,short,hs,hne,hdir⟩
    obtain ⟨b,ask,bid,a,h1,h2,hpass,ho⟩ := (direction_iff store symbol secs
      (registered_known symbol m (hknown _ hl)) (registered_known symbol m (hknown _ hs))).mp hdir
    exact ⟨long,short,b,ask,bid,a,(offered_iff store symbol).mp ⟨hl,h1⟩,
      (offered_iff store symbol).mp ⟨hs,h2⟩,hne,hpass,ho⟩
  · rintro ⟨long,short,b,ask,bid,a,h1,h2,hne,hpass,ho⟩
    obtain ⟨hl,hq1⟩ := (offered_iff store symbol).mpr h1
    obtain ⟨hs,hq2⟩ := (offered_iff store symbol).mpr h2
    exact ⟨long,hl,short,hs,hne,(direction_iff store symbol secs
      (registered_known symbol m h1.known) (registered_known symbol m h2.known)).mpr
        ⟨b,ask,bid,a,hq1,hq2,hpass,ho⟩⟩

end Exact

theorem toU8_clamp_le (x : F64) : (x.clamp (.fin 0) (.fin 100)).toU8 ≤ 100 := by
  cases x with
  | inf => decide +kernel
  | negInf => decide +kernel
  | nan => decide +kernel
  | fin q =>
    unfold F64.clamp
    split
    · decide +kernel
    · split
      · decide +kernel
      · next hq =>
        have hle : q ≤ 100 := by simpa using hq
        unfold F64.toU8
        dsimp only
        split
        · exact Nat.zero_le _
        · split
          · next h => linarith
          · have hfloor : ⌊q⌋ ≤ 100 := by
              exact_mod_cast Int.floor_le_iff.mpr (by push_cast; linarith)
            omega

/-- With a finite long price the filters are the last three conditions of `Qualifies`. -/
theorem passes_iff {symbol long short : String} {a : ℚ} (ha : 0 < a) {bid : F64}
    (hb : F64.lt (.fin 0) bid = true) :
    Passes symbol long short (.fin a) bid ↔
      F64.lt (.fin 10) (spread (.fin a) bid) = true ∧
      70 ≤ calculateConfidence (spread (.fin a) bid) (getFundingDelta symbol long short) ∧
      F64.lt (.fin 0) (spread (.fin a) bid -
        (getExchangeFeeByName long + getExchangeFeeByName short) - .fin 13) = true := by
  rw [passes_iff_confident]
  constructor
  · intro hc
    have hnan := spread_ne_nan ha hb
    have habove := confident_49 hnan hc
    refine ⟨(lt_of_confident hnan (by norm_num) hc).1,hc,?_⟩
    have hfees := after_fees long short (F64.le_of_lt habove)
    exact F64.lt_of_lt_of_le (by decide +kernel) (F64.sub_mono hfees 13)
  · exact fun h => h.2.1

section Published

variable (store : MarketDataStore) (symbol : String) (secs : String → String → Nat)

/-- Of two exchanges that offer a quote, the long one has a finite ask. -/
def FiniteAsks (m : SymbolMap) : Prop :=
  ∀ long short b ask bid a, Offered store symbol m long b ask → Offered store symbol m short bid a →
    long ≠ short → ask.isFinite = true

theorem offered_fin {m : SymbolMap} {exchange : String} {bid ask : F64}
    (h : Offered store symbol m exchange bid ask) (hf : ask.isFinite = true) :
    ∃ q : ℚ, 0 < q ∧ ask = .fin q := by
  cases ask with
  | fin q => exact ⟨q,by simpa using h.ask_pos,rfl⟩
  | inf => cases hf
  | negInf => cases hf
  | nan => cases hf

theorem qualifies_offered {m : SymbolMap} {long short : String} {ask bid : F64}
    (h : Qualifies store symbol m long short ask bid) :
    ∃ b a, Offered store symbol m long b ask ∧ Offered store symbol m short bid a := by
  obtain ⟨b,hq,hb,ha⟩ := h.long_valid
  obtain ⟨a,hq',hb',ha'⟩ := h.short_valid
  exact ⟨b,a,⟨h.long_known,hq,hb,lt_not_le ha⟩,⟨h.short_known,hq',hb',lt_not_le ha'⟩⟩

theorem publishes_of_finite {m : SymbolMap} {updated : String}
    (hfin : FiniteAsks store symbol (registered symbol m)) :
    PublishesExactly store symbol (registered symbol m)
      (detectOpportunitiesForSymbol store symbol secs m updated).1 where
  once := by
    rw [detect_eq]
    exact directions_once store symbol secs _ (offering_nodup store symbol m)
  complete long short ask bid hq := by
    obtain ⟨b,a,hl,hs⟩ := qualifies_offered store symbol hq
    obtain ⟨x,hx,rfl⟩ := offered_fin store symbol hl (hfin _ _ _ _ _ _ hl hs hq.distinct)
    have hpass := (passes_iff hx hs.bid_pos).mpr ⟨hq.wide,hq.confident,hq.profitable⟩
    exact ⟨_,(mem_detect store symbol secs m updated).mpr ⟨long,short,b,.fin x,bid,a,hl,hs,
      hq.distinct,hpass,rfl⟩,rfl,rfl⟩
  sound o ho := by
    obtain ⟨long,short,b,ask,bid,a,hl,hs,hne,hpass,rfl⟩ :=
      (mem_detect store symbol secs m updated).mp ho
    obtain ⟨x,hx,rfl⟩ := offered_fin store symbol hl (hfin _ _ _ _ _ _ hl hs hne)
    obtain ⟨y,hy,rfl⟩ := offered_fin store symbol hs (hfin _ _ _ _ _ _ hs hl hne.symm)
    obtain ⟨hw,hc,hp⟩ := (passes_iff hx hs.bid_pos).mp hpass
    refine ⟨.fin x,bid,?_,rfl,rfl,rfl,rfl,toU8_clamp_le _⟩
    exact ⟨hl.known,hs.known,hne,⟨b,hl.quoted,hl.bid_pos,by simpa using hx⟩,
      ⟨.fin y,hs.quoted,hs.bid_pos,by simpa using hy⟩,hw,hc,hp⟩

/-- A pass publishes exactly the directions that qualify, and the same ones whichever
exchange set it off, if and only if no exchange that can be bought from asks for an infinite
price or for one that is not a number. -/
theorem detection_exact_iff (m : SymbolMap) (updated : String) :
    (PublishesExactly store symbol (registered symbol m)
        (detectOpportunitiesForSymbol store symbol secs m updated).1 ∧
      ∀ other, detectOpportunitiesForSymbol store symbol secs m other =
        detectOpportunitiesForSymbol store symbol secs m updated) ↔
      FiniteAsks store symbol (registered symbol m) := by
  constructor
  · rintro ⟨hexact,_⟩ long short b ask bid a hl hs hne
    by_contra hfin
    have hask : ask = .inf ∨ ask = .nan := by
      cases ask with
      | fin q => exact absurd rfl hfin
      | inf => exact .inl rfl
      | negInf => exact absurd hl.ask_pos (by decide)
      | nan => exact .inr rfl
    have hnan := spread_nan hask bid
    have hmem := (mem_detect store symbol secs m updated).mpr
      ⟨long,short,b,ask,bid,a,hl,hs,hne,passes_nan symbol long short hnan,rfl⟩
    obtain ⟨ask',bid',hq,_,hprice,hprice',_⟩ := hexact.sound _ hmem
    have hwide := hq.wide
    rw [← hprice,← hprice'] at hwide
    change F64.lt (.fin 10) (spread ask bid) = true at hwide
    rw [hnan] at hwide
    cases hwide
  · exact fun hfin => ⟨publishes_of_finite store symbol secs hfin,fun _ => rfl⟩

end Published

/-- Two exchanges quote the symbol, and the first one asks for an infinite price. -/
def infiniteAsk : MarketDataStore :=
  (MarketDataStore.new.update ⟨1,.fin 100,.inf,0⟩).update ⟨11,.fin 90,.fin 91,0⟩

/-- The direction that buys at the infinite price is published, with a spread that is no
number. -/
theorem infinite_ask_published :
    let out := (detectOpportunitiesForSymbol infiniteAsk "BTCUSDT" (fun _ _ => 0) .new "bybit").1
    out.map (fun o => (o.longExchange,o.shortExchange,o.spreadBps,o.confidenceScore)) =
        [("bybit","okx",.nan,70),("okx","bybit",(.fin 100 - .fin 91) / .fin 91 * .fin 10000,70)] ∧
      ¬ PublishesExactly infiniteAsk "BTCUSDT" (registered "BTCUSDT" .new) out := by
  intro out
  have hout : out.map (fun o => (o.longExchange,o.shortExchange,o.spreadBps,o.confidenceScore)) =
      [("bybit","okx",.nan,70),("okx","bybit",(.fin 100 - .fin 91) / .fin 91 * .fin 10000,70)] := by
    decide +kernel
  refine ⟨hout,fun h => ?_⟩
  obtain ⟨o,ho,he⟩ := List.mem_map.mp (hout ▸ List.mem_cons_self :
    ("bybit","okx",.nan,70) ∈ out.map (fun o =>
      (o.longExchange,o.shortExchange,o.spreadBps,o.confidenceScore)))
  have hspread : o.spreadBps = .nan := congrArg (fun p => p.2.2.1) he
  obtain ⟨ask,bid,hq,_,_,_,heq,_⟩ := h.sound o ho
  have hwide := hq.wide
  rw [← heq,hspread] at hwide
  cases hwide

end SpreadArb.Proofs.Detection
