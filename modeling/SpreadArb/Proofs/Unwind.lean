import SpreadArb.Proofs.Polling
import SpreadArb.Proofs.Sections
import SpreadArb.Proofs.Close

namespace SpreadArb.Proofs.Unwind
open Interact Close Sections

/-- No order numbered from `n` on can still trade, and together they have left
no position on any exchange. -/
structure Flat (n : Nat) (w : World) : Prop where
  dead : ∀ i, n ≤ i → i < w.count → (w.book i).live = false
  position : ∀ exchange, net n exchange w = 0

/-- What a failed entry may leave behind. -/
def Safe (n : Nat) (w : World) : Prop := Flat n w ∨ w.halted = true

/-- A step of an entry that numbers its orders from `n` on goes as the code counts on:
the short order is not accepted after the long one was refused, a market order does
not stay in the book, an order cancelled outside a hedge has traded nothing and is
over then, the hedge lock is free, and when an emergency close begins nothing but the
order to be closed is left and each closing order fills what it has to. -/
def Orderly (env : Env) (n : Nat) (symbol : String) (w : World) : BackendOp → Prop
  | .placeOrder o => o.side = .short → w.count = n → (env w.tick).failure ≠ none
  | .placeMarketOrder o => (env w.tick).failure = none →
      (World.freshMarket (env w.tick) o).live = false
  | .cancelOrder _ id => symbol ∉ w.locks → ((w.advance env).book id).filled = 0 ∧
      ((env w.tick).failure = none ∨ ((w.advance env).book id).live = false)
  | .tryAcquireHedgeLock s => s ∉ w.locks ∧ s ∉ (env w.tick).foreign
  | .alert (.closingNaked order) =>
      (∀ i, n ≤ i → i < w.count → i ≠ order.id → Idle (w.book i)) ∧ ClosesOut env order w
  | _ => True

instance (env : Env) (n : Nat) (symbol : String) (w : World) (op : BackendOp) :
    Decidable (Orderly env n symbol w op) :=
  match op with
  | .placeOrder o => inferInstanceAs
    (Decidable (o.side = .short → w.count = n → (env w.tick).failure ≠ none))
  | .placeMarketOrder o => inferInstanceAs
    (Decidable ((env w.tick).failure = none → (World.freshMarket (env w.tick) o).live = false))
  | .cancelOrder _ id => inferInstanceAs
    (Decidable (symbol ∉ w.locks → ((w.advance env).book id).filled = 0 ∧
      ((env w.tick).failure = none ∨ ((w.advance env).book id).live = false)))
  | .tryAcquireHedgeLock s => inferInstanceAs
    (Decidable (s ∉ w.locks ∧ s ∉ (env w.tick).foreign))
  | .alert (.closingNaked order) => inferInstanceAs
    (Decidable ((∀ i, n ≤ i → i < w.count → i ≠ order.id → Idle (w.book i)) ∧
      ClosesOut env order w))
  | .alert (.closeFailed _) | .setLeverage .. | .setMarginTypeIsolated .. | .getOrderStatus ..
  | .getOrderStatusDetailed .. | .getAvailableBalance _ | .getOrderBookDepth .. | .getBestBid ..
  | .getBestAsk .. | .getQuantityStep .. | .sleep _ | .now | .isTradingHalted | .haltTrading _
  | .dropHedgeLock _ | .newUuid => inferInstanceAs (Decidable True)

section Emergency

variable {env : Env} {n : Nat} {symbol : String}

/-- A request of a closing call adds at most an order that is over. -/
theorem closing_step {order : SimulatedOrder} (op : BackendOp) (w : World) (hk : Closing order op)
    (hc : Orderly env n symbol w op) :
    Adds order.exchange order.side.opposite w ((exchanges env).serve op w).2 := by
  have hg := serve_grows env op w
  have hquiet : Harmless op →
      Adds order.exchange order.side.opposite w ((exchanges env).serve op w).2 := fun h =>
    have hq := serve_quiet env _ h w
    ⟨hg,fun i hl hr => absurd hr (by rw [hq.count_eq]; exact not_lt.mpr hl),hq.locks_eq⟩
  cases op with
  | placeMarketOrder o =>
    obtain ⟨now,size,rfl⟩ := hk
    refine ⟨hg,fun i hl hr => ?_,?_⟩
    · rw [serve_placeMarketOrder] at hr ⊢
      unfold World.serveMarket at hr ⊢
      cases hf : (env w.tick).failure with
      | some e =>
        rw [hf] at hr
        exact absurd hr (not_lt.mpr hl)
      | none =>
        rw [hf] at hr
        have hi : i = (w.advance env).count :=
          le_antisymm (Nat.lt_succ_iff.mp hr) hl
        dsimp only
        rw [hi,add_book,if_pos rfl]
        exact ⟨hc hf,freshMarket_exchange _ _,freshMarket_side _ _⟩
    · rw [serve_placeMarketOrder]
      unfold World.serveMarket
      split <;> rfl
  | haltTrading r => exact ⟨hg,fun i hl hr => absurd hr (not_lt.mpr hl),rfl⟩
  | placeOrder o => cases hk
  | tryAcquireHedgeLock s => cases hk
  | dropHedgeLock s => cases hk
  | _ => exact hquiet trivial

/-- An emergency close that fails halts trading. -/
theorem emergency_halts (env : Env) (order : SimulatedOrder) (w : World) (e : String)
    (h : ((exchanges env).run (emergencyClosePosition order) w).1 = .error e) :
    ((exchanges env).run (emergencyClosePosition order) w).2.halted = true := by
  simp only [emergencyClosePosition,Machine.run_bind,Machine.run_call,Machine.run_ret,serve_now,
    serve_alert] at h ⊢
  cases hr : ((exchanges env).run (placeWithRetry (closeOrderOf order w.clock)
    (closeOrderOf order w.clock).size closeRetries) w).1 with
  | ok o =>
    rw [hr] at h
    cases h
  | error e' =>
    rw [hr] at h
    dsimp only at h ⊢
    by_cases hq : quantityLimitHit e' = true
    · simp only [hq,if_true,Machine.run_bind] at h ⊢
      split at h
      · cases h
      · next hb =>
        simp only [hb]
        rfl
    · simp only [hq,Bool.false_eq_true,if_false]
      rfl

/-- A filled order and as much sold against it leave no position. -/
theorem closed_flat {order : SimulatedOrder} {w w' : World} (hd : Done n order w)
    (hi : ∀ i, n ≤ i → i < w.count → i ≠ order.id → Idle (w.book i))
    (ha : Adds order.exchange order.side.opposite w w')
    (hs : filledSince w.count w' = order.size) : Flat n w' := by
  have hle : n ≤ w.count := hd.from_le.trans hd.lt_count.le
  have hd' := hd.grows ha.toGrows
  constructor
  · intro i hl hr
    by_cases hc : i < w.count
    · by_cases he : i = order.id
      · rw [he]
        exact hd'.dead
      · exact ((hi i hl hc he).extends (ha.order i hc)).1
    · exact (ha.added i (not_lt.mp hc) hr).1
  intro exchange
  have hold : ∑ i ∈ Finset.Ico n w.count, (w'.book i).signed exchange =
      if order.exchange = exchange then sign order.side * order.size else 0 := by
    rw [Finset.sum_eq_single_of_mem order.id (Finset.mem_Ico.mpr ⟨hd.from_le,hd.lt_count⟩),
      signed_eq,hd'.exchange,hd'.side,hd'.filled]
    intro i hm he
    obtain ⟨hl,hr⟩ := Finset.mem_Ico.mp hm
    rw [signed_eq,((hi i hl hr he).extends (ha.order i hr)).2,mul_zero,ite_self]
  have hnew : ∑ i ∈ Finset.Ico w.count w'.count, (w'.book i).signed exchange =
      if order.exchange = exchange then -sign order.side * order.size else 0 := by
    rw [← hs,filledSince,Finset.mul_sum]
    split
    · next he =>
      refine Finset.sum_congr rfl (fun i hm => ?_)
      obtain ⟨hl,hr⟩ := Finset.mem_Ico.mp hm
      obtain ⟨_,hx,hside⟩ := ha.added i hl hr
      rw [signed_eq,hx,hside,if_pos he,sign_opposite]
    · next he =>
      refine Finset.sum_eq_zero (fun i hm => ?_)
      obtain ⟨hl,hr⟩ := Finset.mem_Ico.mp hm
      rw [signed_eq,(ha.added i hl hr).2.1,if_neg he]
  rw [net,← Finset.sum_Ico_consecutive _ hle ha.count_le,hold,hnew]
  split <;> ring

/-- An emergency close of a filled order leaves nothing behind, or halts trading. -/
theorem emergency_safe {order : SimulatedOrder} {w : World} (hd : Done n order w) :
    (exchanges env).wp (Orderly env n symbol) (emergencyClosePosition order)
      (fun _ w' => Safe n w' ∧ w'.locks = w.locks) w := by
  rw [Machine.wp_iff]
  intro hrun
  have ha := ((exchanges env).wp_iff _ _ _ w).mp
      (Machine.wp_only Adds.refl (fun _ _ _ => Adds.trans) closing_step (emergency_closing order) w)
      hrun
  refine ⟨?_,ha.locks_eq⟩
  obtain ⟨hidle,hcloses⟩ : Orderly env n symbol w (.alert (.closingNaked order)) := hrun.2.1
  have hsize : 0 ≤ order.size := hd.filled ▸ (w.book order.id).filled_nonneg
  obtain ⟨-,hexact⟩ := (closesOut_iff env order w hsize).mp hcloses
  cases hr : ((exchanges env).run (emergencyClosePosition order) w).1 with
  | error e => exact .inr (emergency_halts env order w e hr)
  | ok u =>
    rw [hr] at hexact
    exact .inl (closed_flat hd hidle ha (hexact rfl))

end Emergency

theorem Safe.locks {n : Nat} {w : World} (h : Safe n w) (locks : List String) :
    Safe n { w with locks } := by
  rcases h with ⟨hd,hp⟩ | h
  · exact .inl ⟨hd,hp⟩
  · exact .inr h

section Hedging

variable {env : Env} {n : Nat} {symbol : String}

/-- The depth check lets the hedge go on, or closes the filled leg. -/
theorem depthGate_ends {opportunity : ArbitrageOpportunity} {side : OrderSide} {quantity : ℚ}
    {legs : Legs} {w : World} (hd : Done n (legs.leg side).order w) :
    (exchanges env).wp (Orderly env n symbol) (depthGate opportunity side quantity legs)
      (Machine.Ends (Safe n) (fun legs' w' => Grows w w' ∧ ∃ cache, legs' = { legs with cache }))
        w := by
  refine Machine.ends_lift (wp_asking (checkDepthForHedge_asks _ _ _ _) (fun r w' hq => ?_))
  obtain ⟨result,cache⟩ := r
  cases result with
  | error e => exact ⟨hq.toGrows,cache,rfl⟩
  | ok depth =>
    dsimp only
    split
    · refine Machine.ends_lift
        (Machine.wp_mono (emergency_safe (hd.grows hq.toGrows)) (fun r w₁ h => ?_))
      cases r <;> exact h.1
    · exact ⟨hq.toGrows,cache,rfl⟩

/-- The market hedge fills the other leg, or closes the filled one. -/
theorem marketHedge_ends {template : SimulatedOrder} {side : OrderSide} {quantity : ℚ}
    {legs : Legs} {w : World} (hd : Done n (legs.leg side).order w)
    (hf : (legs.leg side).filled = true) :
    (exchanges env).wp (Orderly env n symbol) (marketHedge template side quantity legs)
      (Machine.Ends (Safe n) (fun legs' _ => legs'.bothFilled = true)) w := by
  refine Machine.ends_lift (wp_grows (fun r w' hg => ?_))
  cases r with
  | ok order =>
    change Legs.bothFilled _ = true
    rw [bothFilled_iff _ side]
    simp [hf]
  | error e =>
    refine Machine.ends_lift (Machine.wp_mono (emergency_safe (hd.grows hg)) (fun r w₁ h => ?_))
    cases r <;> exact h.1

theorem balanceLegs_filled (opportunity : ArbitrageOpportunity) (long short : ℚ) (legs : Legs)
    (w : World) :
    (exchanges env).wp (Orderly env n symbol) (balanceLegs opportunity long short legs)
      (fun legs' _ => ∀ s, (legs'.leg s).filled = (legs.leg s).filled) w := by
  have hleg : ∀ side diff target, (exchanges env).wp (Orderly env n symbol)
      (balanceLeg opportunity side diff target legs)
      (fun legs' _ => ∀ s, (legs'.leg s).filled = (legs.leg s).filled) w := by
    intro side diff target
    refine Machine.wp_bind.mpr (wp_grows (fun secs w₁ _ => ?_))
    refine Machine.wp_bind.mpr (wp_grows (fun r w₂ _ => ?_))
    cases r with
    | error e => exact fun _ => rfl
    | ok o =>
      intro s
      cases side <;> cases s <;> rfl
  unfold balanceLegs
  split
  · split
    · exact hleg _ _ _
    · exact hleg _ _ _
  · exact fun _ => rfl

/-- The hedge of the loop ends with both legs filled. -/
theorem hedgeInLoop_ends {opportunity : ArbitrageOpportunity} {side : OrderSide} {quantity : ℚ}
    {legs : Legs} {w : World} (hd : Done n (legs.leg side).order w)
    (hf : (legs.leg side).filled = true) :
    (exchanges env).wp (Orderly env n symbol) (hedgeInLoop opportunity side quantity legs)
      (Machine.Ends (Safe n) (fun flow _ => (flowLegs flow).bothFilled = true)) w := by
  have hhedge : ∀ w', Grows w w' → (exchanges env).wp (Orderly env n symbol)
      (do
        let legs ← depthGate opportunity side quantity legs
        let secs ← nowSecs
        let other := (legs.leg side.opposite).order
        let _ ← Backend.cancelOrder other.exchange other.id
        let legs ← marketHedge (marketTemplate opportunity side.opposite quantity secs) side
          quantity legs
        pure (.next legs) : Entry Flow)
      (Machine.Ends (Safe n) (fun flow _ => (flowLegs flow).bothFilled = true)) w' := by
    intro w' hg
    refine Machine.ends_bind (depthGate_ends (hd.grows hg)) ?_
    rintro _ w₁ ⟨hg₁,cache,rfl⟩
    refine Machine.ends_lift (wp_grows (fun secs w₂ hg₂ => ?_))
    refine Machine.ends_lift (wp_grows (fun r w₃ hg₃ => ?_))
    refine Machine.ends_bind (marketHedge_ends ?_ ?_) (fun legs' w₄ h => h)
    · rw [leg_cache]
      exact hd.grows (hg.trans (hg₁.trans (hg₂.trans hg₃)))
    · rw [leg_cache]
      exact hf
  refine Machine.ends_lift (wp_grows (fun r w' hg => ?_))
  rcases r with e | (⟨long,short⟩ | long | short | _)
  · exact hhedge w' hg
  · refine Machine.ends_lift (Machine.wp_mono (balanceLegs_filled opportunity long short legs w')
      (fun legs' w₁ h => ?_))
    refine Machine.ends_lift (wp_grows (fun secs w₂ _ => ?_))
    refine (bothFilled_iff _ side).mpr ?_
    simp only [flowLegs,leg_opposite_set,leg_set]
    exact ⟨(h side).trans hf,rfl⟩
  · exact hhedge w' hg
  · exact hhedge w' hg
  · exact hhedge w' hg

/-- A hedge section gives its lock back. -/
theorem withHedgeLock_ends {body : Entry α} {Q : α → Prop} {w : World}
    (h : (exchanges env).wp (Orderly env n symbol) body (Machine.Ends (Safe n) (fun a _ => Q a))
      { w with locks := symbol :: w.locks }) :
    (exchanges env).wp (Orderly env n symbol) (withHedgeLock symbol body)
      (Machine.Ends (Safe n) (fun a w' => symbol ∉ w'.locks ∧ Q a)) w := by
  refine wp_withHedgeLock (fun _ _ hs => hs.locks _) (fun _ _ _ hq => hq) (fun hc hl => ?_) h
  exact absurd hl (not_or.mpr hc)

/-- The hedge after the loop ends with both legs filled. -/
theorem completeHedge_ends {opportunity : ArbitrageOpportunity} {side : OrderSide} {quantity : ℚ}
    {legs : Legs} {w : World} (hd : Done n (legs.leg side).order w)
    (hf : (legs.leg side).filled = true) :
    (exchanges env).wp (Orderly env n symbol) (completeHedge opportunity side quantity legs)
      (Machine.Ends (Safe n) (fun legs' _ => legs'.bothFilled = true)) w := by
  have hboth : ∀ x : Leg, x.filled = true → (legs.set side.opposite x).bothFilled = true := by
    intro x hx
    rw [bothFilled_iff _ side]
    simp [hf,hx]
  refine Machine.ends_lift (wp_grows (fun r w₁ hg₁ => ?_))
  refine Machine.ends_lift (wp_grows (fun status w₂ hg₂ => ?_))
  dsimp only
  split
  · exact hboth _ rfl
  refine Machine.ends_lift (wp_grows (fun r w₃ hg₃ => ?_))
  obtain ⟨total,other⟩ := r
  dsimp only
  split
  · exact hboth _ rfl
  refine Machine.ends_lift (wp_grows (fun secs w₄ hg₄ => ?_))
  exact marketHedge_ends (hd.grows (hg₁.trans (hg₂.trans (hg₃.trans hg₄)))) hf

end Hedging

/-- Two open legs: their current orders are in the books, and every other order of
the call is idle. -/
structure Open (n : Nat) (legs : Legs) (w : World) : Prop where
  booked : ∀ s, Booked n (legs.leg s).order w
  rest : ∀ i, n ≤ i → i < w.count → i ≠ legs.long.order.id → i ≠ legs.short.order.id →
    Idle (w.book i)

theorem Open.quiet {n : Nat} {legs : Legs} {w w' : World} (h : Open n legs w) (hq : Quiet w w') :
    Open n legs w' where
  booked s := (h.booked s).grows hq.toGrows
  rest i hl hr hlong hshort := by
    rw [hq.count_eq] at hr
    exact (h.rest i hl hr hlong hshort).extends (hq.order i hr)

/-- Between two turns of the loop both legs are filled, or both are open. -/
def Turn (n : Nat) (symbol : String) (legs : Legs) (w : World) : Prop :=
  symbol ∉ w.locks ∧ (legs.bothFilled = true ∨ (legs.neitherFilled = true ∧ Open n legs w))

theorem Turn.quiet {n : Nat} {symbol : String} {legs : Legs} {w w' : World}
    (h : Turn n symbol legs w) (hq : Quiet w w') : Turn n symbol legs w' :=
  ⟨hq.locks_eq ▸ h.1,h.2.imp_right (fun ho => ⟨ho.1,ho.2.quiet hq⟩)⟩

/-- Orders that never traded are no position. -/
theorem flat_of_idle {n : Nat} {w : World} (h : ∀ i, n ≤ i → i < w.count → Idle (w.book i)) :
    Flat n w := by
  refine ⟨fun i hl hr => (h i hl hr).1,fun exchange => Finset.sum_eq_zero (fun i hm => ?_)⟩
  obtain ⟨hl,hr⟩ := Finset.mem_Ico.mp hm
  rw [signed_eq,(h i hl hr).2,mul_zero,ite_self]

section Polling

variable {env : Env} {n : Nat} {symbol : String}

/-- A cancel outside a hedge leaves its order idle. -/
theorem wp_cancel_idle {exchange : String} {id : OrderId} {Q : Except String Unit → World → Prop}
    {w : World} (hl : symbol ∉ w.locks)
    (h : ∀ r w', Quiet w w' → Idle (w'.book id) → Q r w') :
    (exchanges env).wp (Orderly env n symbol) (Backend.cancelOrder exchange id) Q w := by
  intro hc
  obtain ⟨hzero,hover⟩ := hc hl
  refine h _ _ (serve_quiet env (.cancelOrder exchange id) trivial w) ?_
  rw [serve_cancelOrder]
  unfold World.serveCancel
  cases hf : (env w.tick).failure with
  | some e => exact ⟨hover.resolve_left (by rw [hf]; simp),hzero⟩
  | none =>
    dsimp only
    rw [setOrder_book,if_pos rfl]
    exact ⟨kill_live _,hzero⟩

/-- Giving up on two open legs leaves nothing behind. -/
theorem cancelBoth_flat {legs : Legs} {w : World} (hl : symbol ∉ w.locks) (ho : Open n legs w) :
    (exchanges env).wp (Orderly env n symbol) (cancelBoth legs) (fun _ w' => Flat n w') w := by
  refine Machine.wp_bind.mpr (wp_cancel_idle hl (fun _ w₁ hq₁ hlong => ?_))
  refine Machine.wp_bind.mpr (wp_cancel_idle (hq₁.locks_eq ▸ hl) (fun _ w₂ hq₂ hshort => ?_))
  have ho₂ := ho.quiet (hq₁.trans hq₂)
  refine flat_of_idle (fun i hn hr => ?_)
  by_cases h₁ : i = legs.long.order.id
  · have hc : i < w₁.count := hq₂.count_eq ▸ hr
    exact h₁ ▸ hlong.extends (hq₂.order _ (h₁ ▸ hc))
  by_cases h₂ : i = legs.short.order.id
  · exact h₂ ▸ hshort
  · exact ho₂.rest i hn hr h₁ h₂

/-- The status check of a leg ends a turn between turns, or safely. -/
theorem pollLeg_ends (ht : Truthful env) {opportunity : ArbitrageOpportunity} {side : OrderSide}
    {legs : Legs} {w : World} (h : Turn n opportunity.symbol legs w) :
    (exchanges env).wp (Orderly env n opportunity.symbol) (pollLeg opportunity side legs)
      (Machine.Ends (Safe n) (fun flow w' => Turn n opportunity.symbol (flowLegs flow) w')) w := by
  unfold pollLeg
  dsimp only
  rcases h.2 with hboth | ⟨hneither,ho⟩
  · rw [if_pos ((bothFilled_iff legs side).mp hboth).1]
    exact h
  obtain ⟨hside,hother⟩ := (neitherFilled_iff legs side).mp hneither
  rw [if_neg (by rw [hside]; simp)]
  refine Machine.ends_lift (wp_status ht (fun e w' hq => h.quiet hq) (fun w' hq => ?_))
  dsimp only
  split
  · next hfull =>
    refine Machine.ends_lift (wp_asking nowSecs_asks (fun secs w₁ hq₁ => ?_))
    have hd : Done n ((legs.leg side).fill secs
        (w'.book (legs.leg side).order.id).info.filledQuantity).order w' :=
      done_of_info ((ho.quiet hq).booked side) hfull rfl rfl rfl rfl
    rw [if_neg (by rw [leg_set_opposite,hother]; simp)]
    refine Machine.wp_mono (withHedgeLock_ends
      (Q := fun flow => (flowLegs flow).bothFilled = true) (hedgeInLoop_ends ?_ ?_))
      (fun r w₂ hr => ?_)
    · rw [leg_set]
      exact (hd.grows hq₁.toGrows).locks _
    · rw [leg_set]
      rfl
    · cases r with
      | error e => exact hr
      | ok flow => exact ⟨hr.1,.inl hr.2⟩
  · split
    · exact h.quiet hq
    · split <;> exact h.quiet hq

/-- The orders of a leg that was repriced: the old one is idle, the new one open. -/
theorem Open.reprice {side : OrderSide} {legs : Legs} (leg : Leg) {w w' : World}
    {o : SimulatedOrder} (h : Open n legs w) (hi : Idle (w.book (legs.leg side).order.id))
    (hp : Placed env w o leg.order w') (hn : n ≤ w.count) : Open n (legs.set side leg) w' := by
  have hbook : Booked n leg.order w' := placed_booked hp hn
  have hold : ∀ i, n ≤ i → i < w'.count → i ≠ leg.order.id →
      i ≠ (legs.leg side.opposite).order.id → Idle (w'.book i) := by
    intro i hl hr hnew hother
    have hc : i < w.count := by
      rw [hp.count_eq] at hr
      rw [hp.id_eq] at hnew
      omega
    by_cases hi' : i = (legs.leg side).order.id
    · exact (hi' ▸ hi).extends (hp.order i hc)
    · refine (h.rest i hl hc ?_ ?_).extends (hp.order i hc)
      · cases side
        · exact hi'
        · exact hother
      · cases side
        · exact hother
        · exact hi'
  constructor
  · intro s
    cases side <;> cases s
    · exact hbook
    · exact (h.booked .short).grows hp.toGrows
    · exact (h.booked .long).grows hp.toGrows
    · exact hbook
  · intro i hl hr hlong hshort
    cases side
    · exact hold i hl hr hlong hshort
    · exact hold i hl hr hshort hlong

/-- An open leg rules out that both are filled. -/
theorem Turn.open {legs : Legs} {w : World} (h : Turn n symbol legs w) (s : OrderSide)
    (hs : (legs.leg s).filled = false) : legs.neitherFilled = true ∧ Open n legs w := by
  refine h.2.resolve_left (fun hb => ?_)
  rw [((bothFilled_iff legs s).mp hb).1] at hs
  cases hs

/-- Chasing the price keeps the legs between turns. -/
theorem chaseLeg_turn {config : RepricingConfig} {side : OrderSide} {legs : Legs} {w : World}
    (h : Turn n symbol legs w) :
    (exchanges env).wp (Orderly env n symbol) (chaseLeg config side legs)
      (fun legs' w' => Turn n symbol legs' w') w := by
  refine wp_chaseLeg (fun w' hq => h.quiet hq) (fun _ w₁ hq₁ => ?_)
    (fun hs => ((h.open side hs).2.booked side).lt_count) ?_
  · exact wp_cancel_idle (h.quiet hq₁).1 (fun r w₂ hq₂ hidle => ⟨hq₂,fun _ => hidle⟩)
  · intro hs w₁ price secs placed w₂ w₃ metrics hq₁ hidle _ hp hq₃
    obtain ⟨hneither,ho⟩ := h.open side hs
    have ho₁ := ho.quiet hq₁
    have hb := ho₁.booked side
    refine ⟨?_,.inr ⟨?_,?_⟩⟩
    · rw [hq₃.locks_eq,hp.locks_eq,hq₁.locks_eq]
      exact h.1
    · refine (neitherFilled_iff _ side).mpr ?_
      rw [leg_set,leg_set_opposite]
      exact (neitherFilled_iff legs side).mp hneither
    · exact (ho₁.reprice (repriced (legs.leg side) placed metrics) hidle hp
        (hb.from_le.trans hb.lt_count.le)).quiet hq₃

/-- Giving up on open legs ends safely. -/
theorem Turn.giveUp {legs : Legs} {w : World} (h : Turn n symbol legs w) (s : OrderSide)
    (hs : (legs.leg s).filled = false) :
    (exchanges env).wp (Orderly env n symbol) (cancelBoth legs) (fun _ w' => Safe n w') w :=
  Machine.wp_mono (cancelBoth_flat h.1 (h.open s hs).2) (fun _ _ hf => .inl hf)

/-- The polling loop keeps the legs between turns, or ends safely. -/
theorem turn_invariant (ht : Truthful env) (opportunity : ArbitrageOpportunity)
    (config : RepricingConfig) :
    PollInvariant env (Orderly env n opportunity.symbol) opportunity config (Safe n)
      (Turn n opportunity.symbol) where
  quiet h hq := h.quiet hq
  poll h := pollLeg_ends ht h
  chase h := chaseLeg_turn h
  spread {legs _} h := wp_checkSpread h (fun hn =>
    h.giveUp .long ((neitherFilled_iff legs .long).mp hn).1)
  reprices {side _ _} h := wp_checkReprices h (fun hs => h.giveUp side hs)

end Polling

section Finishing

variable {env : Env} {n : Nat} {symbol : String}

/-- After the last look at the orders a leg that counts as filled is done. -/
structure Checked (n : Nat) (symbol : String) (legs : Legs) (w : World) : Prop extends
    Open n legs w where
  free : symbol ∉ w.locks
  done : ∀ s, (legs.leg s).filled = true → Done n (legs.leg s).order w

theorem Checked.quiet {legs : Legs} {w w' : World} (h : Checked n symbol legs w)
    (hq : Quiet w w') : Checked n symbol legs w' where
  toOpen := h.toOpen.quiet hq
  free := hq.locks_eq ▸ h.free
  done s hs := (h.done s hs).grows hq.toGrows

theorem verifyLeg_checked (ht : Truthful env) {opportunity : ArbitrageOpportunity}
    {side : OrderSide} {legs : Legs} {w : World} (h : Checked n symbol legs w) :
    (exchanges env).wp (Orderly env n symbol) (verifyLeg opportunity side legs)
      (fun legs' w' => Checked n symbol legs' w') w := by
  refine Machine.wp_bind.mpr (wp_status ht (fun e w' hq => h.quiet hq) (fun w' hq => ?_))
  have h' := h.quiet hq
  dsimp only
  split
  · next hfull =>
    have hd := done_of_info (h'.booked side) hfull (p := { (legs.leg side).order with
      status := .filled, size := (w'.book (legs.leg side).order.id).info.filledQuantity })
      rfl rfl rfl rfl
    refine ⟨⟨fun s => ?_,fun i hl hr hlong hshort => ?_⟩,h'.free,fun s hs => ?_⟩
    · cases side <;> cases s
      · exact hd.toBooked
      · exact h'.booked .short
      · exact h'.booked .long
      · exact hd.toBooked
    · refine h'.rest i hl hr ?_ ?_
      · cases side <;> exact hlong
      · cases side <;> exact hshort
    · cases side <;> cases s
      · exact hd
      · exact h'.done .short hs
      · exact h'.done .long hs
      · exact hd
  · exact h'

/-- What the hedges after the loop start from. -/
structure Half (n : Nat) (symbol : String) (legs : Legs) (w : World) : Prop where
  free : symbol ∉ w.locks
  some : legs.neitherFilled = false
  done : ∀ s, (legs.leg s).filled = true → (legs.leg s.opposite).filled = false →
    Done n (legs.leg s).order w

theorem Half.of_both {legs : Legs} {w : World} (hl : symbol ∉ w.locks)
    (hb : legs.bothFilled = true) : Half n symbol legs w := by
  refine ⟨hl,?_,fun s _ ho => ?_⟩
  · have hf := ((bothFilled_iff legs .long).mp hb).1
    cases hn : legs.neitherFilled with
    | false => rfl
    | true =>
      rw [((neitherFilled_iff legs .long).mp hn).1] at hf
      cases hf
  · rw [((bothFilled_iff legs s).mp hb).2] at ho
    cases ho

theorem finalCheck_ends (ht : Truthful env) {opportunity : ArbitrageOpportunity} {legs : Legs}
    {w : World} (h : Turn n symbol legs w) :
    (exchanges env).wp (Orderly env n symbol) (finalCheck opportunity legs)
      (Machine.Ends (Safe n) (fun legs' w' => Half n symbol legs' w')) w := by
  unfold finalCheck
  split
  · next hneither =>
    have ho : Open n legs w := by
      rcases h.2 with hboth | ⟨_,ho⟩
      · have hf := ((bothFilled_iff legs .long).mp hboth).1
        rw [((neitherFilled_iff legs .long).mp hneither).1] at hf
        cases hf
      · exact ho
    have hc : Checked n symbol legs w := by
      refine ⟨ho,h.1,fun s hs => ?_⟩
      rw [((neitherFilled_iff legs s).mp hneither).1] at hs
      cases hs
    refine Machine.ends_lift (Machine.wp_mono (verifyLeg_checked ht hc) (fun legs₁ w₁ h₁ => ?_))
    refine Machine.ends_lift (Machine.wp_mono (verifyLeg_checked ht h₁) (fun legs₂ w₂ h₂ => ?_))
    split
    · exact Machine.ends_lift (Machine.wp_mono (cancelBoth_flat h₂.free h₂.toOpen)
        (fun _ _ hf => .inl hf))
    · next hsome =>
      exact ⟨h₂.free,by simpa using hsome,fun s hs _ => h₂.done s hs⟩
  · next hsome =>
    rcases h.2 with hboth | ⟨hneither,_⟩
    · exact .of_both h.1 hboth
    · exact absurd hneither hsome

theorem finalHedge_ends {opportunity : ArbitrageOpportunity} {side : OrderSide} {legs : Legs}
    {w : World} (h : Half n opportunity.symbol legs w) :
    (exchanges env).wp (Orderly env n opportunity.symbol) (finalHedge opportunity side legs)
      (Machine.Ends (Safe n) (fun legs' w' => Half n opportunity.symbol legs' w' ∧
        (legs'.bothFilled = true ∨ legs' = legs ∧
          ((legs.leg side).filled = true → (legs.leg side.opposite).filled = true)))) w := by
  unfold finalHedge
  split
  · next hgo =>
    rw [Bool.and_eq_true] at hgo
    have hother : (legs.leg side.opposite).filled = false := by simpa using hgo.2
    have hd := h.done side hgo.1 hother
    refine Machine.wp_mono (withHedgeLock_ends (Q := fun legs' => legs'.bothFilled = true) ?_)
      (fun r w' hr => ?_)
    · refine Machine.ends_bind (depthGate_ends (hd.locks _)) ?_
      rintro _ w₁ ⟨hg₁,cache,rfl⟩
      refine completeHedge_ends ?_ ?_
      · rw [leg_cache]
        exact (hd.locks _).grows hg₁
      · rw [leg_cache]
        exact hgo.1
    · cases r with
      | error e => exact hr
      | ok legs' => exact ⟨.of_both hr.1 hr.2,.inl hr.2⟩
  · next hgo =>
    refine ⟨h,.inr ⟨rfl,fun hf => ?_⟩⟩
    rw [Bool.and_eq_true,not_and] at hgo
    simpa using hgo hf

/-- Placing the entry orders opens both legs, or leaves nothing behind. -/
theorem placeEntry_ends {opportunity : ArbitrageOpportunity} {quantity : ℚ} {secs : Nat}
    {cache : DepthCache} {w : World} (hn : w.count = n) (hl : symbol ∉ w.locks) :
    (exchanges env).wp (Orderly env n symbol) (placeEntry opportunity quantity secs cache)
      (Machine.Ends (Safe n) (fun legs w' => Turn n symbol legs w')) w := by
  have hnone : ∀ w', w'.count = n → Safe n w' := fun w' hc => .inl (flat_of_idle (fun i hi hr =>
    absurd hr (by rw [hc]; exact not_lt.mpr hi)))
  refine Machine.ends_lift (wp_placeOrder (fun e w₁ hq₁ => ?_) (fun _ long w₁ hp₁ => ?_))
  · refine Machine.ends_lift (wp_placeOrder (fun e' w₂ hq₂ => ?_) (fun hc short w₂ hp₂ => ?_))
    · exact hnone w₂ (by rw [hq₂.count_eq,hq₁.count_eq,hn])
    · exact absurd hp₂.accepted (hc rfl (by rw [hq₁.count_eq,hn]))
  have hb₁ := placed_booked (n := n) hp₁ hn.ge
  refine Machine.ends_lift (wp_placeOrder (fun e w₂ hq₂ => ?_) (fun _ short w₂ hp₂ => ?_))
  · have hl₂ : symbol ∉ w₂.locks := by
      rw [hq₂.locks_eq,hp₁.locks_eq]
      exact hl
    refine Machine.ends_lift (wp_cancel_idle hl₂ (fun _ w₃ hq₃ hidle => ?_))
    refine .inl (flat_of_idle (fun i hi hr => ?_))
    obtain rfl : i = long.id := by
      rw [hq₃.count_eq,hq₂.count_eq,hp₁.count_eq] at hr
      rw [hp₁.id_eq]
      omega
    exact hidle
  · have hn₁ : n ≤ w₁.count := by
      rw [hp₁.count_eq,hn]
      exact Nat.le_succ n
    have hb₂ := placed_booked hp₂ hn₁
    refine ⟨?_,.inr ⟨rfl,⟨fun s => ?_,fun i hi hr hlong hshort => ?_⟩⟩⟩
    · rw [hp₂.locks_eq,hp₁.locks_eq]
      exact hl
    · cases s
      · exact hb₁.grows hp₂.toGrows
      · exact hb₂
    · have h₁ : i ≠ long.id := hlong
      have h₂ : i ≠ short.id := hshort
      rw [hp₁.id_eq] at h₁
      rw [hp₂.id_eq,hp₁.count_eq] at h₂
      rw [hp₂.count_eq,hp₁.count_eq] at hr
      omega

/-- From two open legs to two filled ones, or a safe end. -/
theorem fillLegs_ends (ht : Truthful env) {opportunity : ArbitrageOpportunity} {legs : Legs}
    {w : World} (h : Turn n opportunity.symbol legs w) :
    (exchanges env).wp (Orderly env n opportunity.symbol) (fillLegs opportunity legs)
      (Machine.Ends (Safe n) (fun legs' _ => legs'.bothFilled = true)) w := by
  refine Machine.ends_lift (wp_harmless ⟨trivial,fun _ => trivial⟩ (fun start w₁ hq₁ => ?_))
  refine Machine.ends_bind ((turn_invariant ht _ _).loop (h.quiet hq₁)) (fun legs₂ w₂ h₂ => ?_)
  refine Machine.ends_bind (finalCheck_ends ht h₂) (fun legs₃ w₃ h₃ => ?_)
  refine Machine.ends_bind (finalHedge_ends h₃) (fun legs₄ w₄ h₄ => ?_)
  refine Machine.ends_bind (finalHedge_ends h₄.1) (fun legs₅ w₅ h₅ => ?_)
  have hboth : legs₅.bothFilled = true := by
    rcases h₅.2 with hb | ⟨rfl,hshort⟩
    · exact hb
    rcases h₄.2 with hb | ⟨rfl,hlong⟩
    · exact hb
    have hsome := h₄.1.some
    refine (bothFilled_iff _ .long).mpr ?_
    cases hl : (legs₅.leg .long).filled with
    | true => exact ⟨rfl,hlong hl⟩
    | false =>
      cases hs : (legs₅.leg .short).filled with
      | true =>
        have hlong' : (legs₅.leg .long).filled = true := hshort hs
        rw [hl] at hlong'
        cases hlong'
      | false =>
        rw [(neitherFilled_iff legs₅ .long).mpr ⟨hl,hs⟩] at hsome
        cases hsome
  obtain ⟨hlong,hshort⟩ := (bothFilled_iff legs₅ .long).mp hboth
  have hpass : (!legs₅.long.filled || !legs₅.short.filled) = false := by
    change (!(legs₅.leg .long).filled || !(legs₅.leg OrderSide.long.opposite).filled) = false
    rw [hlong,hshort]
    rfl
  rw [hpass]
  exact hboth

end Finishing

/-- A failed entry leaves no position and no open order behind, or trading is halted,
in every run whose steps go as the code counts on. -/
theorem failed_entry_unwinds (env : Env) (ht : Truthful env) (opportunity : ArbitrageOpportunity)
    (availableCapital positionSize : ℚ) (w : World) (hfree : opportunity.symbol ∉ w.locks)
    (hrun : (exchanges env).Along (Orderly env w.count opportunity.symbol)
    (executeAtomicEntryReal opportunity availableCapital positionSize) w) (e : EntryError)
    (he : ((exchanges env).run
    (executeAtomicEntryReal opportunity availableCapital positionSize) w).1 = .error e) :
    let w' := ((exchanges env).run
      (executeAtomicEntryReal opportunity availableCapital positionSize) w).2
    ((net w.count opportunity.longExchange w' = 0 ∧ net w.count opportunity.shortExchange w' = 0) ∧
      ∀ i, w.count ≤ i → i < w'.count → (w'.book i).live = false) ∨ w'.halted = true := by
  have hwp : (exchanges env).wp (Orderly env w.count opportunity.symbol)
      (executeAtomicEntryReal opportunity availableCapital positionSize)
      (Machine.Ends (Safe w.count) (fun _ _ => True)) w := by
    refine Machine.wp_except_bind.mpr (wp_asking (prepareEntry_asks _ _ _)
      (fun r w₁ hq₁ => ?_))
    cases r with
    | error e =>
      exact .inl (flat_of_idle (fun i hi hr => absurd hr (by
        rw [hq₁.count_eq]
        exact not_lt.mpr hi)))
    | ok prepared =>
      refine Machine.ends_bind (placeEntry_ends hq₁.count_eq (hq₁.locks_eq ▸ hfree))
        (fun legs w₂ h₂ => ?_)
      refine Machine.ends_bind (fillLegs_ends ht h₂) (fun legs' w₃ _ => ?_)
      exact Machine.wp_lift.mpr (wp_grows (fun _ _ _ => trivial))
  have hends := ((exchanges env).wp_iff _ _ _ w).mp hwp hrun
  rw [he] at hends
  exact hends.imp_left (fun h => ⟨⟨h.position _,h.position _⟩,h.dead⟩)

/-- The long order fills, and the market orders that should hedge it are refused. -/
def refusedHedge : Env := fun t =>
  if t = 11 then { trades := fun i => if i = 0 then 1 else 0 }
  else if t = 16 ∨ t = 18 ∨ t = 20 then { failure := some "rejected" }
  else calm t

/-- The long order is refused, the short one is not. -/
def refusedLong : Env := fun t => if t = 8 then { failure := some "rejected" } else calm t

/-- After a refused hedge the long leg is closed again. -/
theorem refused_hedge_unwinds :
    let w' := ((exchanges refusedHedge).run (executeAtomicEntryReal onePercent 1000 101) .empty).2
    ((net 0 "bybit" w' = 0 ∧ net 0 "okx" w' = 0) ∧
      ∀ i, 0 ≤ i → i < w'.count → (w'.book i).live = false) ∨ w'.halted = true := by
  have herr : ∃ e, ((exchanges refusedHedge).run
      (executeAtomicEntryReal onePercent 1000 101) .empty).1
      = .error e := by
    cases h : ((exchanges refusedHedge).run
      (executeAtomicEntryReal onePercent 1000 101) .empty).1 with
    | error e => exact ⟨e,rfl⟩
    | ok trade =>
      have hfail : ((exchanges refusedHedge).run
        (executeAtomicEntryReal onePercent 1000 101) .empty).1.isOk = false := by decide +kernel
      rw [h] at hfail
      cases hfail
  obtain ⟨e,he⟩ := herr
  refine failed_entry_unwinds refusedHedge (fun t => ?_) onePercent 1000 101 .empty (by decide)
    (by decide +kernel) e he
  unfold refusedHedge calm
  split_ifs <;> rfl

/-- A refused long order leaves the short one in the book, and trading goes on. -/
theorem refused_long_leaves_short :
    let out := (exchanges refusedLong).run (executeAtomicEntryReal onePercent 1000 101) .empty
    Truthful refusedLong ∧ out.1.isOk = false ∧ out.2.count = 1 ∧ (out.2.book 0).live = true ∧
      out.2.halted = false := by
  refine ⟨fun t => ?_,by decide +kernel⟩
  unfold refusedLong calm
  split_ifs <;> rfl

end SpreadArb.Proofs.Unwind
