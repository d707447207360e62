import SpreadArb.Proofs.Neutral
import SpreadArb.Proofs.Hedge

namespace SpreadArb.Proofs.Agree
open Interact Machine Hedge Neutral

/-- A book this deep does not stop a hedge of `q`. -/
def Deep (q : ℚ) (depth : OrderBookDepth) : Prop :=
  (calculateDepthResult "" "" depth q 0).shouldAbort = false

/-- Every call succeeds, status answers are true, market orders fill completely, no other
task holds a hedge lock, and the books are deep enough for a hedge of `q`. -/
structure Smooth (env : Env) (q : ℚ) : Prop where
  succeeds : ∀ t, (env t).failure = none
  truthful : ∀ t, (env t).report = none
  lot : ∀ t, (env t).lot = none
  fill : ∀ t, (env t).fill = none
  foreign : ∀ t, (env t).foreign = []
  deep : ∀ t, Deep q (env t).depth

/-- A leg that has filled `q` and another whose limit order of the same size is still out. -/
structure Start (opportunity : ArbitrageOpportunity) (side : OrderSide) (q : ℚ) (legs : Legs)
    (w : World) : Prop where
  pos : 0 < q
  filled : (legs.leg side).filled = true
  other_open : (legs.leg side.opposite).filled = false
  size_eq : (legs.leg side).order.size = q
  lt_count : ∀ s, (legs.leg s).order.id < w.count
  distinct : (legs.leg side).order.id ≠ (legs.leg side.opposite).order.id
  book_size : ∀ s, (w.book (legs.leg s).order.id).size = q
  complete : (w.book (legs.leg side).order.id).filled = q
  cached : ∀ t depth, legs.cache.fresh (legs.leg side.opposite).order.exchange
    opportunity.symbol t =
    some depth → Deep q depth

/-- The contracts on the other leg: what its limit order has filled and what all orders
placed since have. -/
def contracts (id : OrderId) (c : Nat) (w : World) : ℚ := (w.book id).filled + filledSince c w

/-- What the exchanges have reported of the orders numbered from `c` on. -/
def reportedSince (c : Nat) (w : World) : ℚ := ∑ i ∈ Finset.Ico c w.count, (w.book i).reported

theorem reported_add_unreported (c : Nat) (w : World) :
    reportedSince c w + unreported c w = filledSince c w := by
  rw [reportedSince,unreported,filledSince,← Finset.sum_add_distrib]
  exact Finset.sum_congr rfl (fun i _ => by ring)

/-- What the check of both legs, the first thing a hedge in the loop does, is told of the
other leg. -/
def seenByCheck (env : Env) (opportunity : ArbitrageOpportunity) (side : OrderSide) (legs : Legs)
    (w : World) : ℚ :=
  (((exchanges env).run (checkBothLegsStatus legs.long.order legs.short.order)
    { w with locks := opportunity.symbol :: w.locks }).2.book
      (legs.leg side.opposite).order.id).reported

/-- Quiet, and nothing was reported meanwhile. -/
structure Still (w w' : World) : Prop extends Quiet w w' where
  reported : ∀ i, (w'.book i).reported = (w.book i).reported

theorem Still.refl (w : World) : Still w w := ⟨.refl w,fun _ => rfl⟩

theorem Still.trans {a b c : World} (h : Still a b) (k : Still b c) : Still a c :=
  ⟨h.toQuiet.trans k.toQuiet,fun i => (k.reported i).trans (h.reported i)⟩

theorem Still.since {w w' : World} (h : Still w w') (c : Nat) :
    reportedSince c w' = reportedSince c w := by
  rw [reportedSince,h.count_eq]
  exact Finset.sum_congr rfl (fun i _ => h.reported i)

/-- The harmless requests other than status queries and cancels. -/
def Silent : backend.Op → Prop
  | .getOrderStatusDetailed .. | .cancelOrder .. => False
  | op => Harmless op

theorem serve_still (env : Env) (op : BackendOp) (h : Silent op) (w : World) :
    Still w ((exchanges env).serve op w).2 := by
  refine ⟨serve_quiet env op (by cases op <;> first | exact h | cases h) w,fun i => ?_⟩
  cases op with
  | getOrderStatusDetailed _ _ _ => cases h
  | cancelOrder _ _ => cases h
  | placeOrder _ => cases h
  | placeMarketOrder _ => cases h
  | haltTrading _ => cases h
  | tryAcquireHedgeLock _ => cases h
  | dropHedgeLock _ => cases h
  | now => rfl
  | isTradingHalted => rfl
  | alert _ => rfl
  | newUuid => rfl
  | _ => exact trade_reported _ _

theorem wp_silent {env : Env} {C : World → BackendOp → Prop} {p : Prog backend α}
    {Q : α → World → Prop} {w : World} (hp : p.Only Silent)
    (h : ∀ a w', Still w w' → Q a w') : (exchanges env).wp C p Q w :=
  wp_mono (wp_only Still.refl (fun _ _ _ => Still.trans) (fun op w hk _ =>
    serve_still env op hk w) hp w) h

section Rules

variable {env : Env} {q : ℚ} {C : World → BackendOp → Prop} {w : World}

theorem smooth_status (hs : Smooth env q) {exchange symbol : String} {id : OrderId}
    {Q : Except String OrderStatusInfo → World → Prop}
    (h : ∀ w', Quiet w w' → (w'.book id).reported = (w'.book id).filled →
      (∀ i, i ≠ id → (w'.book i).reported = (w.book i).reported) → Q (.ok (w'.book id).info) w') :
    (exchanges env).wp C (Backend.getOrderStatusDetailed exchange id symbol) Q w := by
  intro _
  have hq := serve_quiet env (.getOrderStatusDetailed exchange id symbol) trivial w
  have hserve : (exchanges env).serve (.getOrderStatusDetailed exchange id symbol) w =
      (.ok ((w.advance env).book id).info,(w.advance env).setOrder id
        { (w.advance env).book id with reported := ((w.advance env).book id).filled }) := by
    rw [serve_getOrderStatusDetailed]
    simp only [World.serveStatus,hs.succeeds,hs.truthful,Option.getD_none,BookOrder.info]
  rw [hserve] at hq ⊢
  have hget : ((w.advance env).setOrder id { (w.advance env).book id with
      reported := ((w.advance env).book id).filled }).book id =
      { (w.advance env).book id with reported := ((w.advance env).book id).filled } := if_pos rfl
  have hres := h _ hq (by rw [hget]) (fun i hi => by
    rw [setOrder_book,if_neg hi,advance_book,trade_reported])
  rw [hget] at hres
  exact hres

/-- A status answer about one of the orders counted from `c` on moves it to reported. -/
theorem since_status {c : Nat} {id : OrderId} {w' : World} (hq : Quiet w w')
    (hid : (w'.book id).reported = (w'.book id).filled)
    (hrest : ∀ i, i ≠ id → (w'.book i).reported = (w.book i).reported)
    (hc : c ≤ id) (hlt : id < w.count) :
    reportedSince c w' = reportedSince c w - (w.book id).reported + (w'.book id).filled := by
  have hmem : id ∈ Finset.Ico c w.count := Finset.mem_Ico.mpr ⟨hc,hlt⟩
  rw [reportedSince,reportedSince,hq.count_eq,← Finset.add_sum_erase _ _ hmem,
    ← Finset.add_sum_erase _ (fun i => (w.book i).reported) hmem,hid]
  have he : ∑ i ∈ (Finset.Ico c w.count).erase id, (w'.book i).reported =
      ∑ i ∈ (Finset.Ico c w.count).erase id, (w.book i).reported :=
    Finset.sum_congr rfl (fun i hi => hrest i (Finset.ne_of_mem_erase hi))
  rw [he]
  ring

theorem smooth_cancel (hs : Smooth env q) {exchange : String} {id : OrderId}
    {Q : Except String Unit → World → Prop}
    (h : ∀ w', Still w w' → (w'.book id).live = false → Q (.ok ()) w') :
    (exchanges env).wp C (Backend.cancelOrder exchange id) Q w := by
  intro _
  have hq := serve_quiet env (.cancelOrder exchange id) trivial w
  have hserve : (exchanges env).serve (.cancelOrder exchange id) w =
      (.ok (),(w.advance env).setOrder id ((w.advance env).book id).kill) := by
    rw [serve_cancelOrder]
    simp only [World.serveCancel,hs.succeeds]
  rw [hserve] at hq ⊢
  refine h _ ⟨hq,fun i => ?_⟩ ?_
  · rw [setOrder_book]
    split
    · next hi =>
      rw [hi]
      exact trade_reported _ _
    · exact trade_reported _ _
  · rw [setOrder_book,if_pos rfl]
    exact kill_live _

theorem booked_all (hs : Smooth env q) (t : Nat) {size : ℚ} (h : 0 ≤ size) :
    World.booked (env t) size = size := by
  rw [World.booked,hs.lot,Option.getD_none,max_eq_right h,min_self]

/-- A new order that nothing was reported of yet. -/
structure New (w : World) (o : BookOrder) (w' : World) : Prop extends Grows w w' where
  count_eq : w'.count = w.count+1
  booked : w'.book w.count = o
  reported : ∀ i < w.count, (w'.book i).reported = (w.book i).reported
  locks_eq : w'.locks = w.locks

theorem New.since {w' : World} {o : BookOrder} (h : New w o w') (hz : o.reported = 0) {c : Nat}
    (hc : c ≤ w.count) : reportedSince c w' = reportedSince c w := by
  rw [reportedSince,h.count_eq,Finset.sum_Ico_succ_top hc,h.booked,hz,add_zero]
  exact Finset.sum_congr rfl (fun i hi => h.reported i (Finset.mem_Ico.mp hi).2)

theorem new_add (env : Env) (w : World) (o : BookOrder) : New w o ((w.advance env).add o) := by
  refine ⟨(grows_advance env w).trans (grows_add _ _),rfl,if_pos rfl,fun i hi => ?_,rfl⟩
  rw [add_book,if_neg (by rw [advance_count]; exact hi.ne),advance_book,trade_reported]

theorem smooth_place (hs : Smooth env q) {o : SimulatedOrder} (hz : 0 ≤ o.size)
    {Q : Except String SimulatedOrder → World → Prop}
    (h : ∀ placed w' b, placed.id = w.count → New w b w' → b.size = o.size → b.reported = 0 →
      Q (.ok placed) w') :
    (exchanges env).wp C (Backend.placeOrder o) Q w := by
  intro _
  rw [serve_placeOrder]
  simp only [World.servePlace,hs.succeeds]
  exact h _ _ _ rfl (new_add env w _) (booked_all hs _ hz) rfl

theorem smooth_market (hs : Smooth env q) {o : SimulatedOrder} (hz : 0 ≤ o.size)
    {Q : Except String SimulatedOrder → World → Prop}
    (h : ∀ placed w' b, placed.id = w.count → New w b w' → b.filled = o.size → b.live = false →
      b.reported = 0 → Q (.ok placed) w') :
    (exchanges env).wp C (Backend.placeMarketOrder o) Q w := by
  intro _
  rw [serve_placeMarketOrder]
  simp only [World.serveMarket,hs.succeeds]
  have hsize : (World.fresh (env w.tick) o).size = o.size := booked_all hs _ hz
  have hsize' : (World.freshMarket (env w.tick) o).size = o.size := (trade_size _ _).trans hsize
  have hfill : (World.freshMarket (env w.tick) o).filled = o.size := by
    change ((World.fresh (env w.tick) o).trade ((env w.tick).fill.getD o.size)).filled = o.size
    rw [hs.fill,Option.getD_none]
    by_cases hl : (World.fresh (env w.tick) o).live = true
    · rw [BookOrder.trade,if_pos hl]
      change min (World.fresh (env w.tick) o).size (0 + max 0 o.size) = o.size
      rw [hsize,max_eq_right hz,zero_add,min_self]
    · rw [trade_dead (by simpa using hl)]
      rcases (dead_iff _).mp (by simpa using hl) with hk | hf
      · cases hk
      · rw [hf,hsize]
  exact h _ _ _ rfl (new_add env w _) hfill ((dead_iff _).mpr (.inr (hfill.trans hsize'.symm)))
    (trade_reported _ _)

/-- A market hedge buys its target with the first order, and sees it. -/
theorem smooth_hedge (hs : Smooth env q) {template : SimulatedOrder} {target : ℚ} (ht : 0 < target)
    {c : Nat} (hc : c ≤ w.count) :
    (exchanges env).wp C (placeMarketOrderWithRetry template target)
      (fun r w' => (∃ o, r = .ok o) ∧ Grows w w' ∧ reportedSince c w' = reportedSince c w + target ∧
        filledSince w.count w' = target) w := by
  unfold placeMarketOrderWithRetry marketAttempts
  rw [if_neg (by linarith)]
  refine wp_bind.mpr (smooth_market hs (by dsimp only; linarith)
    (fun placed w₁ b hid hn hf hd hr => ?_))
  dsimp only
  rw [hid]
  refine wp_bind.mpr (smooth_status hs (fun w₂ hq hrep hrest => ?_))
  have he := hq.order w.count (by rw [hn.count_eq]; exact Nat.lt_succ_self _)
  have hfill : (w₂.book w.count).filled = target := by
    rw [(he.dead (by rw [hn.booked]; exact hd)).2,hn.booked,hf]
    exact sub_zero _
  have hge : (0 : ℚ) + (w₂.book w.count).info.filledQuantity ≥ target := by
    change 0 + (w₂.book w.count).filled ≥ target
    rw [hfill,zero_add]
  dsimp only
  rw [if_pos hge]
  refine ⟨⟨_,rfl⟩,hn.toGrows.trans hq.toGrows,?_,?_⟩
  · rw [since_status hq hrep hrest hc (by rw [hn.count_eq]; exact Nat.lt_succ_self _),
      hn.since hr hc,hn.booked,hr,hfill]
    ring
  · rw [filledSince,hq.count_eq,hn.count_eq,Finset.sum_Ico_succ_top le_rfl,Finset.Ico_self,
      Finset.sum_empty,zero_add,hfill]

/-- The depth check lets a smooth hedge pass. -/
theorem smooth_gate (hs : Smooth env q) {opportunity : ArbitrageOpportunity} {side : OrderSide}
    {legs : Legs} (hcached : ∀ t depth, legs.cache.fresh (legs.leg side.opposite).order.exchange
      opportunity.symbol t = some depth → Deep q depth) {E : World → Prop} :
    (exchanges env).wp C (depthGate opportunity side q legs)
      (Ends E (fun legs' w' => Still w w' ∧ ∃ cache, legs' = { legs with cache })) w := by
  refine ends_lift (wp_bind.mpr (wp_silent ⟨trivial,fun _ => trivial⟩ (fun start w₁ hs₁ => ?_)))
  cases hf : legs.cache.fresh (legs.leg side.opposite).order.exchange opportunity.symbol start with
  | some depth =>
    have hdeep : (calculateDepthResult (legs.leg side.opposite).order.exchange opportunity.symbol
        depth q 0).shouldAbort = false := hcached start depth hf
    dsimp only
    refine wp_pure.mpr ?_
    dsimp only
    rw [hdeep]
    exact ⟨hs₁,legs.cache,rfl⟩
  | none =>
    refine wp_bind.mpr (fun _ => ?_)
    have hserve : (exchanges env).serve (.getOrderBookDepth
        (legs.leg side.opposite).order.exchange opportunity.symbol 10) w₁ =
        (.ok (env w₁.tick).depth,w₁.advance env) := by
      rw [serve_getOrderBookDepth]
      simp only [World.answer,hs.succeeds]
    have hstill := serve_still env (.getOrderBookDepth
      (legs.leg side.opposite).order.exchange opportunity.symbol 10) trivial w₁
    rw [hserve] at hstill ⊢
    refine wp_ret.mpr (wp_bind.mpr (wp_silent ⟨trivial,fun _ => trivial⟩ (fun done w₂ hs₂ => ?_)))
    refine wp_pure.mpr ?_
    have hdeep : (calculateDepthResult (legs.leg side.opposite).order.exchange opportunity.symbol
        (env w₁.tick).depth q (done - start)).shouldAbort = false := hs.deep w₁.tick
    dsimp only
    rw [hdeep]
    exact ⟨hs₁.trans (hstill.trans hs₂),_,rfl⟩

end Rules

section Paths

variable {env : Env} {q : ℚ} {opportunity : ArbitrageOpportunity} {side : OrderSide} {legs : Legs}
  {w : World}

/-- The check of both legs: it finds both filled exactly when what it is told of the other
leg is all of it. -/
theorem smooth_check (hs : Smooth env q) {C : World → BackendOp → Prop}
    (h : Start opportunity side q legs w) :
    (exchanges env).wp C (checkBothLegsStatus legs.long.order legs.short.order)
      (fun r w' => Quiet w w' ∧
        (((w'.book (legs.leg side.opposite).order.id).reported = q ∧
          (w'.book (legs.leg side.opposite).order.id).filled = q ∧ r = .ok (.bothFilled q q)) ∨
        ((w'.book (legs.leg side.opposite).order.id).reported ≠ q ∧
          ∃ s, r = .ok s ∧ ∀ lq sq, s ≠ .bothFilled lq sq))) w := by
  have hne : legs.long.order.id ≠ legs.short.order.id := by
    cases side
    · exact h.distinct
    · exact h.distinct.symm
  refine wp_bind.mpr (smooth_status hs (fun w₁ hq₁ hr₁ _ => ?_))
  refine wp_bind.mpr (smooth_status hs (fun w₂ hq₂ hr₂ hrest₂ => ?_))
  have hq := hq₁.trans hq₂
  have hlong : (w₂.book legs.long.order.id).reported = (w₁.book legs.long.order.id).filled :=
    (hrest₂ _ hne).trans hr₁
  have hsize₁ : (w₁.book legs.long.order.id).size = q :=
    (hq₁.order _ (h.lt_count .long)).size.trans (h.book_size .long)
  have hsize₂ : (w₂.book legs.short.order.id).size = q :=
    (hq.order _ (h.lt_count .short)).size.trans (h.book_size .short)
  have hfull₁ : (w₁.book legs.long.order.id).info.isFullyFilled = true ↔
      (w₂.book legs.long.order.id).reported = q := by rw [info_fully,hsize₁,hlong]
  have hfull₂ : (w₂.book legs.short.order.id).info.isFullyFilled = true ↔
      (w₂.book legs.short.order.id).reported = q := by rw [info_fully,hsize₂,hr₂]
  -- the filled leg is complete from the start, so it is always found so
  have hdone : ∀ w', Quiet w w' → (w'.book (legs.leg side).order.id).filled = q := fun w' hq' => by
    rw [((hq'.order _ (h.lt_count side)).dead
      ((dead_iff _).mpr (.inr (h.complete.trans (h.book_size side).symm)))).2,h.complete]
  dsimp only
  split
  · next h₁ h₂ =>
    have hl := hfull₁.mp h₁
    have hsh := hfull₂.mp h₂
    refine ⟨hq,.inl ⟨?_,?_,?_⟩⟩
    · cases side
      · exact hsh
      · exact hl
    · cases side
      · exact hr₂.symm.trans hsh
      · have hdead := (dead_iff _).mpr (.inr ((info_fully _).mp h₁))
        exact ((hq₂.order _ (hq₁.count_eq ▸ h.lt_count .long)).dead hdead).2.trans
          (hlong.symm.trans hl)
    · change Except.ok (BothLegsStatus.bothFilled (w₁.book legs.long.order.id).filled
        (w₂.book legs.short.order.id).filled) = _
      rw [← hlong,← hr₂,hl,hsh]
  · next h₁ h₂ =>
    refine ⟨hq,.inr ⟨?_,_,rfl,fun _ _ he => by cases he⟩⟩
    cases side
    · exact fun hp => absurd (hfull₂.mpr hp) (by rw [h₂]; simp)
    · have hsh : (w₂.book legs.short.order.id).info.isFullyFilled = true :=
        hfull₂.mpr (hr₂.trans (hdone w₂ hq))
      rw [h₂] at hsh
      cases hsh
  · next h₁ h₂ =>
    refine ⟨hq,.inr ⟨?_,_,rfl,fun _ _ he => by cases he⟩⟩
    cases side
    · have hl : (w₁.book legs.long.order.id).info.isFullyFilled = true :=
        hfull₁.mpr (hlong.trans (hdone w₁ hq₁))
      rw [h₁] at hl
      cases hl
    · exact fun hp => absurd (hfull₁.mpr hp) (by rw [h₁]; simp)
  · next h₁ h₂ =>
    refine ⟨hq,.inr ⟨?_,_,rfl,fun _ _ he => by cases he⟩⟩
    cases side
    · exact fun hp => absurd (hfull₂.mpr hp) (by rw [h₂]; simp)
    · exact fun hp => absurd (hfull₁.mpr hp) (by rw [h₁]; simp)

theorem Start.quiet {w' : World} (h : Start opportunity side q legs w) (hq : Quiet w w') :
    Start opportunity side q legs w' where
  pos := h.pos
  filled := h.filled
  other_open := h.other_open
  size_eq := h.size_eq
  lt_count s := hq.count_eq ▸ h.lt_count s
  distinct := h.distinct
  book_size s := (hq.order _ (h.lt_count s)).size.trans (h.book_size s)
  complete := ((hq.order _ (h.lt_count side)).dead
    ((dead_iff _).mpr (.inr (h.complete.trans (h.book_size side).symm)))).2.trans h.complete
  cached := h.cached

theorem Start.locks (h : Start opportunity side q legs w) (locks : List String) :
    Start opportunity side q legs { w with locks } :=
  ⟨h.pos,h.filled,h.other_open,h.size_eq,h.lt_count,h.distinct,h.book_size,h.complete,h.cached⟩

/-- A market hedge of `target` adds as much to the contracts, and to what is reported. -/
theorem marketHedge_contracts (hs : Smooth env q) {C : World → BackendOp → Prop}
    {template : SimulatedOrder} {target : ℚ} (ht : 0 < target) {c : Nat} (hc : c ≤ w.count)
    {E : World → Prop} :
    (exchanges env).wp C (marketHedge template side target legs)
      (Ends E (fun _ w' => Grows w w' ∧ reportedSince c w' = reportedSince c w + target ∧
        filledSince w.count w' = target)) w := by
  refine ends_lift (wp_mono (smooth_hedge hs ht hc) (fun r w' hr => ?_))
  obtain ⟨⟨o,rfl⟩,hg,hrep,hfill⟩ := hr
  exact ⟨hg,hrep,hfill⟩

/-- The hedge of the loop: after a check that saw the other leg filled nothing more is
done; else the whole quantity is bought on top of what the cancelled order filled. -/
theorem hedgeInLoop_contracts (hs : Smooth env q) (h : Start opportunity side q legs w) :
    let checked := ((exchanges env).run
      (checkBothLegsStatus legs.long.order legs.short.order) w).2
    (exchanges env).wp (fun _ _ => True) (hedgeInLoop opportunity side q legs)
      (Ends (fun _ => False) (fun _ w' =>
        contracts (legs.leg side.opposite).order.id w.count w' =
          q + if (checked.book (legs.leg side.opposite).order.id).reported = q then 0
            else (w'.book (legs.leg side.opposite).order.id).filled)) w := by
  intro checked
  have hcheck := ((exchanges env).wp_iff (fun _ _ => True) _ _ w).mp (smooth_check hs h)
    (along_true _ w)
  refine ends_lift (((exchanges env).wp_iff _ _ _ w).mpr (fun _ => ?_))
  obtain ⟨hq,hcase⟩ := hcheck
  have hst := h.quiet hq
  rcases hcase with ⟨hrep,hfull,hr⟩ | ⟨hrep,s,hr,hnot⟩
  · rw [hr]
    dsimp only
    have hnone : balanceLegs opportunity q q legs = pure legs :=
      balanceLegs_none q ⟨by linarith [tolerance_nonneg],le_rfl⟩
        ⟨by linarith [tolerance_nonneg],le_rfl⟩
    refine ends_lift ?_
    rw [hnone]
    refine ends_lift (wp_asking nowSecs_asks (fun secs w₂ hq₂ => ?_))
    change contracts _ _ w₂ = _
    have hdead : (checked.book (legs.leg side.opposite).order.id).live = false :=
      (dead_iff _).mpr (.inr (hfull.trans (hst.book_size _).symm))
    rw [if_pos hrep,contracts,filledSince,hq₂.count_eq,hq.count_eq,Finset.Ico_self,Finset.sum_empty,
      ((hq₂.order _ (hst.lt_count _)).dead hdead).2,hfull]
  · have hhedge : (exchanges env).wp (fun _ _ => True)
        (do
          let legs' ← depthGate opportunity side q legs
          let secs ← nowSecs
          let other := (legs'.leg side.opposite).order
          let _ ← Backend.cancelOrder other.exchange other.id
          let legs' ← marketHedge (marketTemplate opportunity side.opposite q secs) side q legs'
          pure (.next legs') : Entry Flow)
        (Ends (fun _ => False) (fun _ w' =>
          contracts (legs.leg side.opposite).order.id w.count w' =
            q + (w'.book (legs.leg side.opposite).order.id).filled)) checked := by
      refine ends_bind (smooth_gate hs h.cached) ?_
      rintro _ w₁ ⟨hs₁,cache,rfl⟩
      refine ends_lift (wp_silent ⟨trivial,fun _ => trivial⟩ (fun secs w₂ hs₂ => ?_))
      refine ends_lift (smooth_cancel hs (fun w₃ hs₃ hd₃ => ?_))
      have hc : w₃.count = w.count := by
        rw [hs₃.count_eq,hs₂.count_eq,hs₁.count_eq,hq.count_eq]
      refine ends_bind (marketHedge_contracts hs h.pos (le_refl w₃.count)) (fun legs' w₄ h₄ => ?_)
      change contracts _ _ w₄ = _
      rw [contracts,← hc,h₄.2.2,add_comm]
    rw [hr]
    have hif : ∀ w' : World, (q + if (checked.book (legs.leg side.opposite).order.id).reported = q
        then 0 else (w'.book (legs.leg side.opposite).order.id).filled) =
        q + (w'.book (legs.leg side.opposite).order.id).filled := fun w' => by rw [if_neg hrep]
    simp only [hif]
    cases s with
    | bothFilled lq sq => exact absurd rfl (hnot lq sq)
    | onlyLongFilled lq => exact hhedge
    | onlyShortFilled sq => exact hhedge
    | neitherFilled => exact hhedge

theorem getBestHedgePrice_silent (s : OrderSide) (exchange symbol : String) :
    (getBestHedgePrice s exchange symbol).Only Silent := by
  cases s <;> exact ⟨trivial,fun _ => trivial⟩

/-- The aggressive limit order adds to the total what is reported of it. -/
theorem aggressiveLimit_reported (hs : Smooth env q) {s : OrderSide} {remaining total : ℚ}
    {leg : Leg} (hr : 0 < remaining) :
    (exchanges env).wp (fun _ _ => True) (aggressiveLimit opportunity s remaining total leg)
      (fun r w' => Grows w w' ∧ r.1 = total + reportedSince w.count w' ∧
        r.1 ≤ total + remaining) w := by
  have hnone : ∀ w', w'.count = w.count → reportedSince w.count w' = 0 := fun w' hc => by
    rw [reportedSince,hc,Finset.Ico_self,Finset.sum_empty]
  refine wp_bind.mpr (wp_silent (getBestHedgePrice_silent _ _ _) (fun r w₁ hs₁ => ?_))
  cases r with
  | error e =>
    exact ⟨hs₁.toGrows,by rw [hnone w₁ hs₁.count_eq,add_zero],by linarith⟩
  | ok best =>
    refine wp_bind.mpr (wp_silent ⟨trivial,fun _ => trivial⟩ (fun secs w₂ hs₂ => ?_))
    have hs₂' := hs₁.trans hs₂
    refine wp_bind.mpr (smooth_place hs hr.le (fun placed w₃ b hid hn hz hb => ?_))
    rw [hs₂'.count_eq] at hid
    dsimp only
    rw [hid]
    refine wp_bind.mpr (wp_silent ⟨trivial,fun _ => trivial⟩ (fun _ w₄ hs₄ => ?_))
    refine wp_bind.mpr (smooth_status hs (fun w₅ hq₅ hrep₅ hrest₅ => ?_))
    have hcount₄ : w₄.count = w.count+1 := by rw [hs₄.count_eq,hn.count_eq,hs₂'.count_eq]
    have hg₅ : Grows w w₅ :=
      hs₂'.toGrows.trans (hn.toGrows.trans (hs₄.toGrows.trans hq₅.toGrows))
    have hold : (w₄.book w.count).reported = 0 := by
      have hbook := hn.booked
      rw [hs₂'.count_eq] at hbook
      rw [hs₄.reported,hbook,hb]
    have hsum₅ : reportedSince w.count w₅ = (w₅.book w.count).filled := by
      have hzero : reportedSince w.count w₄ = 0 := by
        rw [hs₄.since,hn.since hb (by rw [hs₂'.count_eq]),hs₂'.since,hnone w rfl]
      rw [since_status hq₅ hrep₅ hrest₅ le_rfl (by rw [hcount₄]; exact Nat.lt_succ_self _),hold,
        hzero]
      ring
    have hle : (w₅.book w.count).filled ≤ remaining := by
      have he := (hs₄.toGrows.trans hq₅.toGrows).order w.count
        (by rw [hn.count_eq,hs₂'.count_eq]; exact Nat.lt_succ_self _)
      have hbook := hn.booked
      rw [hs₂'.count_eq] at hbook
      refine (w₅.book w.count).filled_le.trans ?_
      rw [he.size,hbook,hz]
      exact le_refl remaining
    dsimp only [BookOrder.info]
    split
    · refine ⟨hg₅,?_,?_⟩
      · dsimp only
        rw [hsum₅]
      · dsimp only
        linarith
    · refine wp_bind.mpr (smooth_cancel hs (fun w₆ hs₆ _ => ?_))
      refine ⟨hg₅.trans hs₆.toGrows,?_,?_⟩
      · dsimp only
        rw [hs₆.since,hsum₅]
      · dsimp only
        linarith

/-- The hedge after the loop: what is reported of its orders and what the cancelled order
filled add up to the quantity. -/
theorem completeHedge_contracts (hs : Smooth env q)
    (hlt : (legs.leg side.opposite).order.id < w.count)
    (hsize : (w.book (legs.leg side.opposite).order.id).size = q) :
    (exchanges env).wp (fun _ _ => True) (completeHedge opportunity side q legs)
      (Ends (fun _ => False) (fun _ w' =>
        (w'.book (legs.leg side.opposite).order.id).filled + reportedSince w.count w' = q)) w := by
  have hnone : ∀ w', w'.count = w.count → reportedSince w.count w' = 0 := fun w' hc => by
    rw [reportedSince,hc,Finset.Ico_self,Finset.sum_empty]
  refine ends_lift (smooth_cancel hs (fun w₁ hs₁ hd₁ => ?_))
  refine ends_lift (smooth_status hs (fun w₂ hq₂ _ _ => ?_))
  have hlt₁ := hs₁.count_eq ▸ hlt
  have hcount₂ : w₂.count = w.count := hq₂.count_eq.trans hs₁.count_eq
  have hd₂ := ((hq₂.order _ hlt₁).dead hd₁).1
  have hle : (w₂.book (legs.leg side.opposite).order.id).filled ≤ q :=
    (w₂.book _).filled_le.trans (((hs₁.toQuiet.trans hq₂).order _ hlt).size.trans hsize).le
  have hlt₂ : (legs.leg side.opposite).order.id < w₂.count := hcount₂ ▸ hlt
  -- the cancelled order is over, so later steps leave its fill alone
  have hx : ∀ w', Grows w₂ w' → (w'.book (legs.leg side.opposite).order.id).filled =
      (w₂.book (legs.leg side.opposite).order.id).filled := fun w' hg =>
    ((hg.order _ hlt₂).dead hd₂).2
  dsimp only [reportedFill,BookOrder.info]
  split
  · next hge =>
    change _ + reportedSince _ w₂ = q
    rw [hnone w₂ hcount₂,add_zero]
    exact le_antisymm hle hge
  · next hnot =>
    have hrem := sub_pos.mpr (not_le.mp hnot)
    refine ends_lift (wp_mono (aggressiveLimit_reported hs hrem) (fun r w₃ hr => ?_))
    obtain ⟨total,other⟩ := r
    obtain ⟨hg₃,htotal,hbound⟩ := hr
    rw [hcount₂] at htotal
    dsimp only at htotal hbound ⊢
    split
    · next hge =>
      change _ + reportedSince _ w₃ = q
      rw [hx w₃ hg₃]
      linarith
    · next hless =>
      refine ends_lift (wp_silent ⟨trivial,fun _ => trivial⟩ (fun secs w₄ hs₄ => ?_))
      have hg₄ := hg₃.trans hs₄.toGrows
      refine wp_mono (marketHedge_contracts hs (sub_pos.mpr (not_le.mp hless))
        (c := w.count) (hcount₂ ▸ hg₄.count_le) (E := fun _ => False)) (fun r w₅ hr => ?_)
      cases r with
      | error e => exact hr
      | ok legs' =>
        change _ + reportedSince _ w₅ = q
        rw [hx w₅ (hg₄.trans hr.1),hr.2.1,hs₄.since]
        linarith

theorem hedgeInLoop_locked (hs : Smooth env q) (h : Start opportunity side q legs w)
    (hfree : opportunity.symbol ∉ w.locks) :
    (exchanges env).wp (fun _ _ => True)
      (withHedgeLock opportunity.symbol (hedgeInLoop opportunity side q legs))
      (Ends (fun _ => False) (fun _ w' =>
        contracts (legs.leg side.opposite).order.id w.count w' =
          q + if seenByCheck env opportunity side legs w = q then 0
            else (w'.book (legs.leg side.opposite).order.id).filled)) w := by
  refine wp_mono (wp_withHedgeLock (fun _ _ h => h) (fun _ _ _ h => h) (fun _ hl => ?_)
    (hedgeInLoop_contracts hs (h.locks _))) (fun r w' hr => ?_)
  · rw [hs.foreign] at hl
    exact hl.elim hfree (List.not_mem_nil)
  · cases r with
    | error e => exact hr
    | ok flow => exact hr.2

/-- The hedge after the loop buys the quantity and whatever its orders fill unreported. -/
theorem finalHedge_contracts (hs : Smooth env q) (h : Start opportunity side q legs w)
    (hfree : opportunity.symbol ∉ w.locks) :
    (exchanges env).wp (fun _ _ => True) (finalHedge opportunity side legs)
      (Ends (fun _ => False) (fun _ w' =>
        contracts (legs.leg side.opposite).order.id w.count w' = q + unreported w.count w')) w := by
  unfold finalHedge
  rw [h.filled,h.other_open,h.size_eq]
  have hbody : (exchanges env).wp (fun _ _ => True)
      (do
        let legs ← depthGate opportunity side q legs
        completeHedge opportunity side q legs : Entry Legs)
      (Ends (fun _ => False) (fun _ w' =>
        contracts (legs.leg side.opposite).order.id w.count w' = q + unreported w.count w'))
      { w with locks := opportunity.symbol :: w.locks } := by
    refine ends_bind (smooth_gate hs h.cached) ?_
    rintro _ w₁ ⟨hs₁,cache,rfl⟩
    have h₁ := (h.locks _).quiet hs₁.toQuiet
    refine wp_mono (completeHedge_contracts hs (by simpa using h₁.lt_count side.opposite)
      (by simpa using h₁.book_size side.opposite)) (fun r w₂ hr => ?_)
    cases r with
    | error e => exact hr
    | ok legs' =>
      have hsum : (w₂.book (legs.leg side.opposite).order.id).filled + reportedSince
          w₁.count w₂ = q := by
        simpa [Ends] using hr
      change contracts _ _ w₂ = _
      rw [hs₁.count_eq] at hsum
      rw [contracts,← reported_add_unreported,← add_assoc]
      exact congrArg (· + unreported w.count w₂) hsum
  refine wp_mono (wp_withHedgeLock (fun _ _ h => h) (fun _ _ _ h => h) (fun _ hl => ?_) hbody)
    (fun r w' hr => ?_)
  · rw [hs.foreign] at hl
    exact hl.elim hfree (List.not_mem_nil)
  · cases r with
    | error e => exact hr
    | ok legs' => exact hr.2

end Paths

/-- A hedge came to its end with exactly `q` contracts on the other leg. -/
def HedgedTo (q : ℚ) (id : OrderId) (c : Nat) (out : Except EntryError α × World) : Prop :=
  out.1.isOk = true ∧ contracts id c out.2 = q

theorem hedgedTo_iff {q : ℚ} {d : World → ℚ} {id : OrderId} {c : Nat}
    {out : Except EntryError α × World}
    (h : Ends (fun _ => False) (fun _ w' => contracts id c w' = q + d w') out.1 out.2) :
    HedgedTo q id c out ↔ d out.2 = 0 := by
  obtain ⟨r,w'⟩ := out
  cases r with
  | error e => exact h.elim
  | ok a =>
    have hsum : contracts id c w' = q + d w' := h
    change (true = true ∧ contracts id c w' = q) ↔ d w' = 0
    rw [hsum]
    simp

/-- The two hedges agree on exactly the quantity of the filled leg just when the order
cancelled in the loop had filled nothing or was seen complete, and the hedge after the loop
was told of all that its own orders filled. -/
theorem hedge_paths_agree_iff (env : Env) (q : ℚ) (hs : Smooth env q)
    (opportunity : ArbitrageOpportunity) (side : OrderSide) (legs : Legs) (w : World)
    (h : Start opportunity side q legs w) (hfree : opportunity.symbol ∉ w.locks) :
    let id := (legs.leg side.opposite).order.id
    let loop := (exchanges env).run
      (withHedgeLock opportunity.symbol (hedgeInLoop opportunity side q legs)) w
    let final := (exchanges env).run (finalHedge opportunity side legs) w
    (HedgedTo q id w.count loop ∧ HedgedTo q id w.count final) ↔
      ((loop.2.book id).filled = 0 ∨ seenByCheck env opportunity side legs w = q) ∧
        unreported w.count final.2 = 0 := by
  intro id loop final
  have hloop := ((exchanges env).wp_iff _ _ _ w).mp (hedgeInLoop_locked hs h hfree) (along_true _ w)
  have hfinal := ((exchanges env).wp_iff _ _ _ w).mp (finalHedge_contracts hs h hfree)
      (along_true _ w)
  refine and_congr ((hedgedTo_iff (d := fun w' => if seenByCheck env opportunity side legs w =
    q then 0 else (w'.book id).filled) hloop).trans ?_) (hedgedTo_iff hfinal)
  split
  · next hseen => simp [hseen]
  · next hseen => simp [hseen,loop]

/-! A scene: the long order has filled its one contract, the short one is out. -/

def limitOrder (id : OrderId) (side : OrderSide) : SimulatedOrder :=
  { limitTemplate onePercent side 1 0 with id }

def oneFilled : Legs :=
  ⟨{ Leg.new (limitOrder 0 .long) with filled := true },Leg.new (limitOrder 1 .short),[]⟩

def oneFilledWorld : World :=
  { World.empty with
    count := 2
    book := fun i => if i = 0 then
      ⟨"bybit",.long,.limit,1,1,false,1,Rat.num_nonneg.mp (Int.zero_le_ofNat 1),Rat.le_refl⟩
      else ⟨"okx",.short,.limit,1,0,false,0,Rat.le_refl,Rat.num_nonneg.mp (Int.zero_le_ofNat 1)⟩ }

theorem oneFilled_start : Start onePercent .long 1 oneFilled oneFilledWorld where
  pos := by decide
  filled := rfl
  other_open := rfl
  size_eq := rfl
  lt_count s := by cases s <;> decide
  distinct := by decide
  book_size s := by cases s <;> rfl
  complete := rfl
  cached t depth hd := by cases hd

/-- A deep book, and no trade but those of the market orders. -/
def deepBook : Move := { value := 100, depth := ⟨[⟨100,10⟩],[⟨100,10⟩],0⟩ }

/-- Half of the short order, or half of the aggressive limit order of the later hedge,
fills just before it is cancelled. -/
def halfFills : Env := fun t =>
  if t = 3 then { deepBook with trades := fun i => if i = 1 then 1/2 else 0 }
  else if t = 7 then { deepBook with trades := fun i => if i = 2 then 1/2 else 0 }
  else deepBook

theorem smooth_deepBook : Smooth (fun _ => deepBook) 1 :=
  ⟨fun _ => rfl,fun _ => rfl,fun _ => rfl,fun _ => rfl,fun _ => rfl,fun _ => by
    unfold Deep
    decide +kernel⟩

theorem smooth_halfFills : Smooth halfFills 1 := by
  have hcase : ∀ t, ∃ trades, halfFills t = { deepBook with trades } := fun t => by
    unfold halfFills
    split_ifs <;> exact ⟨_,rfl⟩
  constructor
  all_goals
    intro t
    obtain ⟨trades,ht⟩ := hcase t
    rw [ht]
  exacts [rfl,rfl,rfl,rfl,rfl,smooth_deepBook.deep 0]

/-- Without a fill in the race both hedges end with one contract. -/
theorem quiet_hedges_agree :
    HedgedTo 1 1 2 ((exchanges fun _ => deepBook).run
      (withHedgeLock "BTCUSDT" (hedgeInLoop onePercent .long 1 oneFilled)) oneFilledWorld) ∧
    HedgedTo 1 1 2 ((exchanges fun _ => deepBook).run
      (finalHedge onePercent .long oneFilled) oneFilledWorld) :=
  (hedge_paths_agree_iff (fun _ => deepBook) 1 smooth_deepBook onePercent .long oneFilled
    oneFilledWorld oneFilled_start (by decide)).mpr (by decide +kernel)

/-- A half that fills before the cancel is bought twice: in the loop the half of the
cancelled order, after it the half of the aggressive limit order. -/
theorem raced_hedges_overbuy :
    Smooth halfFills 1 ∧ Start onePercent .long 1 oneFilled oneFilledWorld ∧
    (let loop := (exchanges halfFills).run
      (withHedgeLock "BTCUSDT" (hedgeInLoop onePercent .long 1 oneFilled)) oneFilledWorld
     loop.1.isOk = true ∧ (loop.2.book 1).filled = 1/2 ∧ contracts 1 2 loop.2 = 1 + 1/2) ∧
    (let final := (exchanges halfFills).run (finalHedge onePercent .long oneFilled) oneFilledWorld
     final.1.isOk = true ∧ contracts 1 2 final.2 = 1 + 1/2) :=
  ⟨smooth_halfFills,oneFilled_start,by decide +kernel,by decide +kernel⟩

end SpreadArb.Proofs.Agree
