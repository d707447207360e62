import SpreadArb.Proofs.Polling

namespace SpreadArb.Proofs.Neutral
open Interact Machine

/-- A step of an entry that numbers its orders from `n` on goes as the code counts on.
Limit orders are booked with the size asked for, up to the tolerance. An order that is
cancelled outside a hedge has traded nothing; in a hedge the cancel takes effect. No
market order is accepted while a limit order of its leg has traded or still can. In a
hedge a market order is over when it is looked at, and a query about an order that is
over fails only if it never traded. -/
def Tidy (env : Env) (n : Nat) (symbol : String) (w : World) : BackendOp → Prop
  | .placeOrder o => (env w.tick).failure = none →
      0 < World.booked (env w.tick) o.size ∧
        o.size - balanceTolerance ≤ World.booked (env w.tick) o.size
  | .placeMarketOrder o => (env w.tick).failure = none → ∀ i, n ≤ i → i < w.count →
      (w.book i).orderType = .limit → (w.book i).exchange = o.exchange →
      (w.book i).side = o.side → Idle (w.book i)
  | .cancelOrder _ id =>
      if symbol ∈ w.locks then
        (env w.tick).failure = none ∨ ((w.advance env).book id).live = false
      else (env w.tick).failure = none → ((w.advance env).book id).filled = 0
  | .getOrderStatusDetailed _ id _ => symbol ∈ w.locks →
      (((w.advance env).book id).orderType = .market → ((w.advance env).book id).live = false) ∧
      (((w.advance env).book id).live = false →
        (env w.tick).failure = none ∨ ((w.advance env).book id).filled = 0)
  | _ => True

instance (env : Env) (n : Nat) (symbol : String) (w : World) (op : BackendOp) :
    Decidable (Tidy env n symbol w op) :=
  match op with
  | .placeOrder o => inferInstanceAs (Decidable ((env w.tick).failure = none →
      0 < World.booked (env w.tick) o.size ∧
        o.size - balanceTolerance ≤ World.booked (env w.tick) o.size))
  | .placeMarketOrder o => inferInstanceAs (Decidable ((env w.tick).failure = none →
      ∀ i, n ≤ i → i < w.count → (w.book i).orderType = .limit → (w.book i).exchange = o.exchange →
        (w.book i).side = o.side → Idle (w.book i)))
  | .cancelOrder _ id => inferInstanceAs (Decidable (if symbol ∈ w.locks then
        (env w.tick).failure = none ∨ ((w.advance env).book id).live = false
      else (env w.tick).failure = none → ((w.advance env).book id).filled = 0))
  | .getOrderStatusDetailed _ id _ => inferInstanceAs (Decidable (symbol ∈ w.locks →
      (((w.advance env).book id).orderType = .market → ((w.advance env).book id).live = false) ∧
      (((w.advance env).book id).live = false →
        (env w.tick).failure = none ∨ ((w.advance env).book id).filled = 0)))
  | .setLeverage .. | .setMarginTypeIsolated .. | .getOrderStatus .. | .getAvailableBalance _
  | .getOrderBookDepth .. | .getBestBid .. | .getBestAsk .. | .getQuantityStep .. | .sleep _ | .now
  | .isTradingHalted | .haltTrading _ | .tryAcquireHedgeLock _ | .dropHedgeLock _ | .alert _
  | .newUuid => inferInstanceAs (Decidable True)

/-- Both legs are what the records say: every order is over, the position on each
exchange is the leg's recorded size, and the two sizes agree up to the tolerance. -/
structure Matched (n : Nat) (opportunity : ArbitrageOpportunity) (legs : Legs) (w : World) :
    Prop where
  dead : ∀ i, n ≤ i → i < w.count → (w.book i).live = false
  position : ∀ s, net n (opportunity.exchange s) w = sign s * (legs.leg s).order.size
  close : ∀ s, (legs.leg s).order.size - (legs.leg s.opposite).order.size ≤ balanceTolerance

theorem tolerance_nonneg : 0 ≤ balanceTolerance := by
  unfold balanceTolerance
  norm_num

section Accounting

variable {n : Nat} {opportunity : ArbitrageOpportunity}

theorem exchange_ne (hx : opportunity.longExchange ≠ opportunity.shortExchange) (s : OrderSide) :
    opportunity.exchange s.opposite ≠ opportunity.exchange s := by
  cases s
  · exact hx.symm
  · exact hx

theorem filledSince_congr {c : Nat} {w w' : World} (hg : Grows w w')
    (hd : ∀ i, c ≤ i → i < w.count → (w.book i).live = false) :
    ∑ i ∈ Finset.Ico c w.count, (w'.book i).filled = filledSince c w := by
  refine Finset.sum_congr rfl (fun i hm => ?_)
  obtain ⟨hl,hr⟩ := Finset.mem_Ico.mp hm
  exact ((hg.order i hr).dead (hd i hl hr)).2

theorem filledSince_quiet {c : Nat} {w w' : World} (hq : Quiet w w')
    (hd : ∀ i, c ≤ i → i < w.count → (w.book i).live = false) :
    filledSince c w' = filledSince c w := by
  rw [filledSince,hq.count_eq]
  exact filledSince_congr hq.toGrows hd

theorem filledSince_succ {c : Nat} {w w' : World} (hg : Grows w w') (hc : c ≤ w.count)
    (hs : w'.count = w.count+1) (hd : ∀ i, c ≤ i → i < w.count → (w.book i).live = false) :
    filledSince c w' = filledSince c w + (w'.book w.count).filled := by
  rw [filledSince,hs,Finset.sum_Ico_succ_top hc,filledSince_congr hg hd]

/-- The accounts of a hedged pair: below `c` only the two legs' orders have traded, and
from `c` on all orders belong to the leg on the other side. -/
theorem hedged_position (hx : opportunity.longExchange ≠ opportunity.shortExchange)
    (side : OrderSide) {c a b : Nat} {w : World} (hc : c ≤ w.count)
    (ha : n ≤ a ∧ a < c) (hb : n ≤ b ∧ b < c)
    (hax : (w.book a).exchange = opportunity.exchange side) (has : (w.book a).side = side)
    (hbx : (w.book b).exchange = opportunity.exchange side.opposite)
    (hbs : (w.book b).side = side.opposite)
    (hrest : ∀ i, n ≤ i → i < c → i ≠ a → i ≠ b → (w.book i).filled = 0)
    (hnew : ∀ i, c ≤ i → i < w.count → (w.book i).exchange = opportunity.exchange side.opposite ∧
      (w.book i).side = side.opposite) :
    net n (opportunity.exchange side) w = sign side * (w.book a).filled ∧
    net n (opportunity.exchange side.opposite) w =
      sign side.opposite * ((w.book b).filled + filledSince c w) := by
  have hab : a ≠ b := by
    rintro rfl
    rw [has] at hbs
    exact OrderSide.opposite_ne side hbs.symm
  have hne := exchange_ne hx side
  have hn : n ≤ c := ha.1.trans ha.2.le
  have hold : ∀ exchange, ∑ i ∈ Finset.Ico n c, (w.book i).signed exchange =
      (w.book a).signed exchange + (w.book b).signed exchange := by
    intro exchange
    refine Finset.sum_eq_add_of_mem a b (Finset.mem_Ico.mpr ha) (Finset.mem_Ico.mpr hb) hab ?_
    intro i hm hi
    obtain ⟨hl,hr⟩ := Finset.mem_Ico.mp hm
    rw [signed_eq,hrest i hl hr hi.1 hi.2,mul_zero,ite_self]
  constructor
  · have hzero : ∑ i ∈ Finset.Ico c w.count, (w.book i).signed (opportunity.exchange side) = 0 := by
      refine Finset.sum_eq_zero (fun i hm => ?_)
      obtain ⟨hl,hr⟩ := Finset.mem_Ico.mp hm
      rw [signed_eq,(hnew i hl hr).1,if_neg hne]
    rw [net,← Finset.sum_Ico_consecutive _ hn hc,hold,hzero,signed_eq,signed_eq,hax,hbx,if_pos rfl,
      if_neg hne,has,add_zero,add_zero]
  · have hsum : ∑ i ∈ Finset.Ico c w.count, (w.book i).signed (opportunity.exchange side.opposite) =
        sign side.opposite * filledSince c w := by
      rw [filledSince,Finset.mul_sum]
      refine Finset.sum_congr rfl (fun i hm => ?_)
      obtain ⟨hl,hr⟩ := Finset.mem_Ico.mp hm
      rw [signed_eq,(hnew i hl hr).1,(hnew i hl hr).2,if_pos rfl]
    rw [net,← Finset.sum_Ico_consecutive _ hn hc,hold,hsum,signed_eq,signed_eq,hax,hbx,if_pos rfl,
      if_neg hne.symm,hbs]
    ring

end Accounting

section Market

variable {env : Env} {n : Nat} {symbol : String}

/-- What a successful market hedge that began in `w` has done. -/
structure Bought (n : Nat) (template : SimulatedOrder) (target : ℚ) (w : World) (o : SimulatedOrder)
    (w' : World) : Prop extends Adds template.exchange template.side w w' where
  size_eq : o.size = target
  bought : filledSince w.count w' = target
  limits : ∀ i, n ≤ i → i < w.count → (w.book i).orderType = .limit →
    (w.book i).exchange = template.exchange → (w.book i).side = template.side → Idle (w'.book i)

theorem adds_quiet {exchange : String} {side : OrderSide} {a b c : World}
    (h : Adds exchange side a b) (hq : Quiet b c) : Adds exchange side a c :=
  h.trans ⟨hq.toGrows,fun i hl hr => absurd hr (by rw [hq.count_eq]; exact not_lt.mpr hl),
    hq.locks_eq⟩

theorem adds_dead {exchange : String} {side : OrderSide} {a b : World}
    (h : Adds exchange side a b) :
    ∀ i, a.count ≤ i → i < b.count → (b.book i).live = false := fun i hl hr => (h.added i hl hr).1

theorem booked_le {c : Move} {size : ℚ} (h : 0 ≤ size) : World.booked c size ≤ size := by
  rw [World.booked,max_eq_right h]
  exact min_le_left _ _

/-- A market order that was accepted and is over joins the orders of the hedge. -/
theorem adds_sold {w₀ w w₁ w₂ : World} {o placed : SimulatedOrder}
    (h : Adds o.exchange o.side w₀ w) (hs : Sold env w o placed w₁) (hq : Quiet w₁ w₂)
    (hd : (w₂.book w.count).live = false) :
    Adds o.exchange o.side w₀ w₂ ∧
      filledSince w₀.count w₂ = filledSince w₀.count w + (w₂.book w.count).filled := by
  have hg : Grows w w₂ := hs.toGrows.trans hq.toGrows
  have hc : w₂.count = w.count+1 := hq.count_eq.trans hs.count_eq
  have he := hq.order w.count (by rw [hs.count_eq]; exact Nat.lt_succ_self _)
  refine ⟨h.trans ⟨hg,fun i hl hr => ?_,hq.locks_eq.trans hs.locks_eq⟩,
    filledSince_succ hg h.count_le hc (adds_dead h)⟩
  obtain rfl : i = w.count := by omega
  refine ⟨hd,?_,?_⟩
  · rw [he.exchange,hs.booked,freshMarket_exchange]
  · rw [he.side,hs.booked,freshMarket_side]

/-- The attempts of a market hedge buy the target, and say so. The induction is on the
attempts left; `total` is what the orders since `w₀` have filled. -/
theorem attempts_bought (ht : Truthful env) {template : SimulatedOrder}
    (hm : template.orderType = .market) {target : ℚ} {w₀ : World} (hl : symbol ∈ w₀.locks)
    (left : Nat) (total : ℚ) (last : SimulatedOrder) (w : World)
    (ha : Adds template.exchange template.side w₀ w) (hf : filledSince w₀.count w = total)
    (hlt : total < target) :
    (exchanges env).wp (Tidy env n symbol) (marketAttempts template target left total last)
      (fun r w' => ∀ o, r = .ok o → Bought n template target w₀ o w') w := by
  induction left generalizing total last w with
  | zero =>
    intro o ho
    cases ho
  | succ left ih =>
    have hgo : ¬ target - total ≤ 0 := by linarith
    unfold marketAttempts
    rw [if_neg hgo]
    refine wp_bind.mpr (wp_placeMarketOrder (fun e w₁ hq₁ => ?_) (fun hc placed w₁ hs => ?_))
    · dsimp only
      split
      · intro o ho
        cases ho
      · refine wp_bind.mpr (wp_harmless ⟨trivial,fun _ => trivial⟩ (fun _ w₂ hq₂ => ?_))
        have hq := hq₁.trans hq₂
        exact ih total last w₂ (adds_quiet ha hq)
          (by rw [filledSince_quiet hq (adds_dead ha),hf]) hlt
    -- the order just accepted, as it stands when its status is asked for
    have hlock : symbol ∈ w₁.locks := by
      rw [hs.locks_eq,ha.locks_eq]
      exact hl
    have hmarket : ((w₁.advance env).book placed.id).orderType = .market := by
      rw [advance_book,trade_orderType,hs.id_eq,hs.booked]
      exact (trade_orderType _ _).trans hm
    have hsize : ∀ w₂, Quiet w₁ w₂ → (w₂.book w.count).filled ≤ target - total := by
      intro w₂ hq
      have he := hq.order w.count (by rw [hs.count_eq]; exact Nat.lt_succ_self _)
      refine (w₂.book w.count).filled_le.trans ?_
      rw [he.size,hs.booked]
      exact (trade_size _ _).trans_le (booked_le (by linarith))
    refine wp_bind.mpr (wp_status_at ht (fun hc' hfail e w₂ hq₂ hbook => ?_)
      (fun hc' w₂ hq₂ hlive => ?_))
    · obtain ⟨hover,hzero⟩ := hc' hlock
      have hd := hover hmarket
      have hz := (hzero hd).resolve_left hfail
      rw [hs.id_eq,← hbook] at hd hz
      obtain ⟨ha₂,hf₂⟩ := adds_sold (o := { template with size := target - total }) ha hs hq₂ hd
      dsimp only
      split
      · intro o ho
        cases ho
      · refine wp_bind.mpr (wp_harmless ⟨trivial,fun _ => trivial⟩ (fun _ w₃ hq₃ => ?_))
        refine ih total placed w₃ (adds_quiet ha₂ hq₃) ?_ hlt
        rw [filledSince_quiet hq₃ (adds_dead ha₂),hf₂,hz,hf,add_zero]
    · have hd := (hc' hlock).1 hmarket
      rw [hs.id_eq] at hd hlive ⊢
      obtain ⟨ha₂,hf₂⟩ := adds_sold (o := { template with size := target - total }) ha hs hq₂
        (hlive.trans hd)
      rw [hf] at hf₂
      have hle := hsize w₂ hq₂
      dsimp only
      split
      · next hge =>
        intro o ho
        cases ho
        have hge' : target ≤ total + (w₂.book w.count).filled := hge
        have heq : total + (w₂.book w.count).filled = target := le_antisymm (by linarith) hge'
        refine ⟨ha₂,heq,hf₂.trans heq,fun i hn hi hlim hx hside => ?_⟩
        have hi' := ha.order i hi
        refine (hc hs.accepted i hn (hi.trans_le ha.count_le) ?_ ?_ ?_).extends ?_
        · rw [hi'.orderType,hlim]
        · rw [hi'.exchange,hx]
        · rw [hi'.side,hside]
        · exact (hs.order i (hi.trans_le ha.count_le)).trans
            (hq₂.order i ((hi.trans_le ha.count_le).trans_le hs.count_le))
      · next hlt' =>
        exact ih _ placed w₂ ha₂ hf₂ (not_le.mp hlt')

end Market

/-- An order that has filled its whole book size, which is what `o` says. -/
structure Complete (n : Nat) (o : SimulatedOrder) (w : World) : Prop extends Done n o w where
  full : (w.book o.id).filled = (w.book o.id).size

theorem Complete.grows {n : Nat} {o : SimulatedOrder} {w w' : World} (h : Complete n o w)
    (hg : Grows w w') : Complete n o w' where
  toDone := h.toDone.grows hg
  full := by
    rw [(hg.order _ h.lt_count).size,((hg.order _ h.lt_count).dead h.dead).2]
    exact h.full

/-- The limit order of a leg, asked for `quantity` and booked so up to the tolerance. -/
structure LegOrder (n : Nat) (opportunity : ArbitrageOpportunity) (quantity : ℚ) (s : OrderSide)
    (o : SimulatedOrder) (w : World) : Prop extends Booked n o w where
  exchange_eq : o.exchange = opportunity.exchange s
  side_eq : o.side = s
  type_eq : o.orderType = .limit
  limit : (w.book o.id).orderType = .limit
  pos : 0 < (w.book o.id).size
  near : quantity - balanceTolerance ≤ (w.book o.id).size
  le : (w.book o.id).size ≤ quantity

theorem LegOrder.grows {n : Nat} {opportunity : ArbitrageOpportunity} {quantity : ℚ} {s : OrderSide}
    {o : SimulatedOrder} {w w' : World} (h : LegOrder n opportunity quantity s o w)
    (hg : Grows w w') : LegOrder n opportunity quantity s o w' := by
  have he := hg.order _ h.lt_count
  refine ⟨h.toBooked.grows hg,h.exchange_eq,h.side_eq,h.type_eq,?_,?_,?_,?_⟩
  · rw [he.orderType,h.limit]
  · rw [he.size]
    exact h.pos
  · rw [he.size]
    exact h.near
  · rw [he.size]
    exact h.le

/-- The legs while at most one of them counts as filled: the orders of the legs, every
other order idle, and a leg that counts as filled complete. -/
structure Working (n : Nat) (opportunity : ArbitrageOpportunity) (quantity : ℚ) (legs : Legs)
    (w : World) : Prop where
  leg : ∀ s, LegOrder n opportunity quantity s (legs.leg s).order w
  asked : ∀ s, (legs.leg s).filled = false → (legs.leg s).order.size = quantity
  done : ∀ s, (legs.leg s).filled = true → Complete n (legs.leg s).order w
  rest : ∀ i, n ≤ i → i < w.count → i ≠ legs.long.order.id → i ≠ legs.short.order.id →
    Idle (w.book i)

section Hedging

variable {env : Env} {n : Nat} {opportunity : ArbitrageOpportunity} {quantity : ℚ} {symbol : String}
  {legs : Legs} {side : OrderSide}

theorem Working.grows {w w' : World} (h : Working n opportunity quantity legs w) (hg : Grows w w')
    (hc : w'.count = w.count) : Working n opportunity quantity legs w' where
  leg s := (h.leg s).grows hg
  asked := h.asked
  done s hs := (h.done s hs).grows hg
  rest i hl hr hlong hshort := by
    rw [hc] at hr
    exact (h.rest i hl hr hlong hshort).extends (hg.order i hr)

theorem Working.quiet {w w' : World} (h : Working n opportunity quantity legs w) (hq : Quiet w w') :
    Working n opportunity quantity legs w' := h.grows hq.toGrows hq.count_eq

theorem Working.locks {w : World} (h : Working n opportunity quantity legs w)
    (locks : List String) : Working n opportunity quantity legs { w with locks } :=
  h.grows ⟨le_rfl,fun _ _ => .refl _⟩ rfl

theorem Working.rest_side {w : World} (h : Working n opportunity quantity legs w) (s : OrderSide) :
    ∀ i, n ≤ i → i < w.count → i ≠ (legs.leg s).order.id → i ≠ (legs.leg s.opposite).order.id →
      Idle (w.book i) := by
  intro i hl hr ha hb
  cases s
  · exact h.rest i hl hr ha hb
  · exact h.rest i hl hr hb ha

/-- A recorded size of a complete leg is close to the quantity asked for. -/
theorem Complete.bounds {o : SimulatedOrder} {w : World} {s : OrderSide} (hc : Complete n o w)
    (hl : LegOrder n opportunity quantity s o w) :
    0 < o.size ∧ quantity - balanceTolerance ≤ o.size ∧ o.size ≤ quantity := by
  rw [← hc.filled,hc.full]
  exact ⟨hl.pos,hl.near,hl.le⟩

variable (side) in
/-- Legs of which the one on `side` is complete and the other has `total`. -/
theorem matched_of_hedge (hx : opportunity.longExchange ≠ opportunity.shortExchange)
    {w₀ w : World} (h : Working n opportunity quantity legs w₀)
    (hf : (legs.leg side).filled = true) (hg : Grows w₀ w) {c : Nat} (hc : w₀.count ≤ c)
    (hcw : c ≤ w.count)
    (hmid : ∀ i, w₀.count ≤ i → i < c → Idle (w.book i))
    (hother : (w.book (legs.leg side.opposite).order.id).live = false)
    (hnew : ∀ i, c ≤ i → i < w.count →
      Spot (opportunity.exchange side.opposite) side.opposite (w.book i)) (leg : Leg)
    (hsize : leg.order.size = (w.book (legs.leg side.opposite).order.id).filled + filledSince c w)
    (hclose : leg.order.size - (legs.leg side).order.size ≤ balanceTolerance ∧
      (legs.leg side).order.size - leg.order.size ≤ balanceTolerance) :
    Matched n opportunity (legs.set side.opposite leg) w := by
  have hdone := (h.done side hf).grows hg
  have ha := h.leg side
  have hb := h.leg side.opposite
  have hb' := hb.grows hg
  have hidle : ∀ i, n ≤ i → i < c → i ≠ (legs.leg side).order.id →
      i ≠ (legs.leg side.opposite).order.id → Idle (w.book i) := by
    intro i hl hr h₁ h₂
    by_cases hi : i < w₀.count
    · exact (h.rest_side side i hl hi h₁ h₂).extends (hg.order i hi)
    · exact hmid i (not_lt.mp hi) hr
  obtain ⟨hpos,hopp⟩ := hedged_position hx side (n := n) hcw
    ⟨ha.from_le,ha.lt_count.trans_le hc⟩ ⟨hb.from_le,hb.lt_count.trans_le hc⟩
    (hdone.exchange.trans ha.exchange_eq) (hdone.side.trans ha.side_eq)
    (hb'.exchange.trans hb.exchange_eq) (hb'.side.trans hb.side_eq)
    (fun i hl hr h₁ h₂ => (hidle i hl hr h₁ h₂).2) (fun i hl hr => (hnew i hl hr).2)
  rw [hdone.filled] at hpos
  rw [← hsize] at hopp
  refine ⟨fun i hl hr => ?_,fun s => ?_,fun s => ?_⟩
  · by_cases hic : i < c
    · by_cases h₁ : i = (legs.leg side).order.id
      · rw [h₁]
        exact hdone.dead
      by_cases h₂ : i = (legs.leg side.opposite).order.id
      · rw [h₂]
        exact hother
      · exact (hidle i hl hic h₁ h₂).1
    · exact (hnew i (not_lt.mp hic) hr).1
  · cases side <;> cases s
    · exact hpos
    · exact hopp
    · exact hopp
    · exact hpos
  · cases side <;> cases s
    · exact hclose.2
    · exact hclose.1
    · exact hclose.1
    · exact hclose.2

/-- Two complete legs match. -/
theorem matched_of_both (hx : opportunity.longExchange ≠ opportunity.shortExchange) {w : World}
    (h : Working n opportunity quantity legs w) (hb : legs.bothFilled = true) :
    Matched n opportunity legs w := by
  obtain ⟨hlong,hshort⟩ := (bothFilled_iff legs .long).mp hb
  have hl := (h.done .long hlong).bounds (h.leg .long)
  have hs := (h.done _ hshort).bounds (h.leg _)
  refine matched_of_hedge .long hx h hlong (.refl w) le_rfl le_rfl
    (fun i hl hr => absurd hr (not_lt.mpr hl)) (h.done .short hshort).dead
    (fun i hl hr => absurd hr (not_lt.mpr hl)) legs.short ?_ ?_
  · rw [filledSince,Finset.Ico_self,Finset.sum_empty,add_zero]
    exact (h.done .short hshort).filled.symm
  · constructor
    · have h₁ : legs.short.order.size ≤ quantity := hs.2.2
      linarith [hl.2.1]
    · have h₁ : quantity - balanceTolerance ≤ legs.short.order.size := hs.2.1
      linarith [hl.2.2]

variable (side symbol) in
/-- A market hedge that found the limit orders of its leg idle matches the legs. -/
theorem marketHedge_matched (ht : Truthful env)
    (hx : opportunity.longExchange ≠ opportunity.shortExchange) {w₀ w : World}
    (h : Working n opportunity quantity legs w₀) (hf : (legs.leg side).filled = true)
    (hg : Grows w₀ w) (hl : symbol ∈ w.locks) (total : ℚ) (secs : Nat)
    (hlimits : ∀ i, w₀.count ≤ i → i < w.count → (w.book i).orderType = .limit ∧
      (w.book i).exchange = opportunity.exchange side.opposite ∧ (w.book i).side = side.opposite)
    (hlt : total < (legs.leg side).order.size)
    (htotal : ∀ w', Grows w w' → (∀ i, n ≤ i → i < w.count → (w.book i).orderType = .limit →
      (w.book i).exchange = opportunity.exchange side.opposite →
      (w.book i).side = side.opposite → Idle (w'.book i)) → total = 0) :
    (exchanges env).wp (Tidy env n symbol)
      (marketHedge (marketTemplate opportunity side.opposite
        ((legs.leg side).order.size - total) secs) side ((legs.leg side).order.size - total) legs)
      (Ends (fun _ => True) (fun legs' w' => legs'.bothFilled = true ∧
        Matched n opportunity legs' w')) w := by
  refine ends_lift (wp_mono (attempts_bought (n := n) ht rfl hl 3 0 _ w (Adds.refl w)
    (by simp [filledSince]) (by linarith)) (fun r w' hr => ?_))
  cases r with
  | error e =>
    refine ends_lift (wp_grows (fun r w₁ _ => ?_))
    cases r <;> trivial
  | ok o =>
    have hb := hr o rfl
    have hzero := htotal w' hb.toGrows hb.limits
    have hother := (h.leg side.opposite).grows hg
    have hidle := hb.limits _ hother.from_le hother.lt_count hother.limit
      (hother.exchange.trans hother.exchange_eq) (hother.side.trans hother.side_eq)
    have hsize : o.size = (legs.leg side).order.size := by
      rw [hb.size_eq,hzero,sub_zero]
    refine ⟨(bothFilled_iff _ side).mpr (by simp [hf]),?_⟩
    refine matched_of_hedge side hx h hf (hg.trans hb.toGrows) hg.count_le hb.count_le
      (fun i hi hr => ?_) hidle.1 (fun i hi hr => hb.added i hi hr) _ ?_ ?_
    · obtain ⟨h₁,h₂,h₃⟩ := hlimits i hi hr
      exact hb.limits i (hother.from_le.trans (((h.leg side.opposite).lt_count.le).trans hi)) hr h₁
        h₂ h₃
    · change o.size = _
      rw [hidle.2,hb.bought,hb.size_eq,zero_add]
    · change o.size - _ ≤ _ ∧ _ - o.size ≤ _
      rw [hsize,sub_self]
      exact ⟨tolerance_nonneg,tolerance_nonneg⟩

/-- A leg found completely filled takes its quantity from the books. -/
theorem Working.fill {w : World} (h : Working n opportunity quantity legs w) (s : OrderSide)
    (hi : (w.book (legs.leg s).order.id).info.isFullyFilled = true) (leg : Leg)
    (hid : leg.order.id = (legs.leg s).order.id)
    (hex : leg.order.exchange = (legs.leg s).order.exchange)
    (hs : leg.order.side = (legs.leg s).order.side)
    (hty : leg.order.orderType = (legs.leg s).order.orderType) (hf : leg.filled = true)
    (hz : leg.order.size = (w.book (legs.leg s).order.id).info.filledQuantity) :
    Working n opportunity quantity (legs.set s leg) w := by
  have hdone : Complete n leg.order w :=
    ⟨done_of_info (h.leg s).toBooked hi hid hex hs hz,by
      rw [hid]
      exact (info_fully _).mp hi⟩
  have hleg : LegOrder n opportunity quantity s leg.order w := by
    have hold := h.leg s
    refine ⟨hdone.toBooked,hex.trans hold.exchange_eq,hs.trans hold.side_eq,hty.trans hold.type_eq,
      ?_,?_,?_,?_⟩
    · rw [hid,hold.limit]
    · rw [hid]
      exact hold.pos
    · rw [hid]
      exact hold.near
    · rw [hid]
      exact hold.le
  refine ⟨?_,?_,?_,fun i hl hr hlong hshort => ?_⟩
  · exact forall_leg_set (P := fun t x => LegOrder n opportunity quantity t x.order w)
      hleg (h.leg _)
  · refine forall_leg_set (P := fun _ x => x.filled = false → x.order.size = quantity)
      (fun hu => ?_)
      (h.asked _)
    exact absurd (hf.symm.trans hu) (by simp)
  · exact forall_leg_set (P := fun _ x => x.filled = true → Complete n x.order w)
      (fun _ => hdone) (h.done _)
  · refine h.rest i hl hr ?_ ?_
    · cases s
      · exact fun he => hlong (he.trans hid.symm)
      · exact hlong
    · cases s
      · exact hshort
      · exact fun he => hshort (he.trans hid.symm)

/-- Asking for both legs leaves the books alone, and legs that are both found filled are. -/
theorem checkBothLegs_quiet (ht : Truthful env) {C : World → BackendOp → Prop}
    {long short : SimulatedOrder} {w : World} (hl : long.id < w.count) :
    (exchanges env).wp C (checkBothLegsStatus long short)
      (fun r w' => Quiet w w' ∧ ∀ lq sq, r = .ok (.bothFilled lq sq) →
        (w'.book long.id).info.isFullyFilled = true ∧ lq = (w'.book long.id).info.filledQuantity ∧
        (w'.book short.id).info.isFullyFilled = true ∧
        sq = (w'.book short.id).info.filledQuantity) w := by
  refine wp_bind.mpr (wp_status ht (fun e w₁ hq₁ => ?_) (fun w₁ hq₁ => ?_))
  · refine wp_bind.mpr (wp_harmless ⟨trivial,fun _ => trivial⟩ (fun r w₂ hq₂ => ?_))
    refine ⟨hq₁.trans hq₂,fun lq sq hr => ?_⟩
    cases hr
  refine wp_bind.mpr (wp_status ht (fun e w₂ hq₂ => ?_) (fun w₂ hq₂ => ?_))
  · refine ⟨hq₁.trans hq₂,fun lq sq hr => ?_⟩
    cases hr
  dsimp only
  split
  · next hlong hshort =>
    refine ⟨hq₁.trans hq₂,fun lq sq hr => ?_⟩
    cases hr
    -- the long order was complete at the first query, so it is the same at the second
    have hfull := (info_fully _).mp hlong
    have he := hq₂.order long.id (by rw [hq₁.count_eq]; exact hl)
    have hsame := (he.dead ((dead_iff _).mpr (.inr hfull))).2
    refine ⟨(info_fully _).mpr ?_,hsame.symm,hshort,rfl⟩
    rw [hsame,he.size,hfull]
  · exact ⟨hq₁.trans hq₂,fun lq sq hr => by cases hr⟩
  · exact ⟨hq₁.trans hq₂,fun lq sq hr => by cases hr⟩
  · exact ⟨hq₁.trans hq₂,fun lq sq hr => by cases hr⟩

theorem depthGate_quiet {C : World → BackendOp → Prop} {q : ℚ} {w : World} :
    (exchanges env).wp C (depthGate opportunity side q legs)
      (Ends (fun _ => True) (fun legs' w' => Quiet w w' ∧ ∃ cache, legs' = { legs with cache }))
        w := by
  refine ends_lift (wp_asking (checkDepthForHedge_asks _ _ _ _) (fun r w' hq => ?_))
  obtain ⟨result,cache⟩ := r
  cases result with
  | error e => exact ⟨hq,cache,rfl⟩
  | ok depth =>
    dsimp only
    split
    · refine ends_lift (wp_grows (fun r w₁ _ => ?_))
      cases r <;> trivial
    · exact ⟨hq,cache,rfl⟩

theorem Working.cache {w : World} (h : Working n opportunity quantity legs w) (cache : DepthCache) :
    Working n opportunity quantity { legs with cache } w := by
  refine ⟨fun s => ?_,fun s => ?_,fun s => ?_,h.rest⟩
  · rw [leg_cache]
    exact h.leg s
  · rw [leg_cache]
    exact h.asked s
  · rw [leg_cache]
    exact h.done s

variable (quantity) in
/-- Two complete legs need no balancing. -/
theorem balanceLegs_none {lq sq : ℚ} (hl : quantity - balanceTolerance ≤ lq ∧ lq ≤ quantity)
    (hs : quantity - balanceTolerance ≤ sq ∧ sq ≤ quantity) :
    balanceLegs opportunity lq sq legs = pure legs := by
  unfold balanceLegs
  rw [if_neg]
  rw [not_lt,abs_le]
  constructor <;> linarith [hl.1,hl.2,hs.1,hs.2]

variable (side) in
/-- The hedge of the loop matches the legs. -/
theorem hedgeInLoop_matched (ht : Truthful env)
    (hx : opportunity.longExchange ≠ opportunity.shortExchange) {w : World}
    (h : Working n opportunity quantity legs w) (hf : (legs.leg side).filled = true)
    (hl : symbol ∈ w.locks) :
    (exchanges env).wp (Tidy env n symbol)
      (hedgeInLoop opportunity side (legs.leg side).order.size legs)
      (Ends (fun _ => True) (fun flow w' => (flowLegs flow).bothFilled = true ∧
        Matched n opportunity (flowLegs flow) w')) w := by
  have hhedge : ∀ w', Quiet w w' → (exchanges env).wp (Tidy env n symbol)
      (do
        let legs' ← depthGate opportunity side (legs.leg side).order.size legs
        let secs ← nowSecs
        let other := (legs'.leg side.opposite).order
        let _ ← Backend.cancelOrder other.exchange other.id
        let legs' ← marketHedge (marketTemplate opportunity side.opposite
          (legs.leg side).order.size secs) side (legs.leg side).order.size legs'
        pure (.next legs') : Entry Flow)
      (Ends (fun _ => True) (fun flow w' => (flowLegs flow).bothFilled = true ∧
        Matched n opportunity (flowLegs flow) w')) w' := by
    intro w' hq
    refine ends_bind depthGate_quiet ?_
    rintro _ w₁ ⟨hq₁,cache,rfl⟩
    refine ends_lift (wp_asking nowSecs_asks (fun secs w₂ hq₂ => ?_))
    refine ends_lift (wp_harmless ⟨trivial,fun _ => trivial⟩ (fun r w₃ hq₃ => ?_))
    have hq' := hq.trans (hq₁.trans (hq₂.trans hq₃))
    have hw := (h.quiet hq').cache cache
    have hpos := ((h.done side hf).bounds (h.leg side)).1
    have hmh := marketHedge_matched symbol side (n := n) ht hx hw
        (by rw [leg_cache]; exact hf) (.refl w₃)
      (by rw [hq'.locks_eq]; exact hl) 0 secs
      (fun i hi hr => absurd hr (not_lt.mpr hi)) (by rw [leg_cache]; exact hpos)
      (fun _ _ _ => rfl)
    rw [leg_cache,sub_zero] at hmh
    exact ends_bind hmh (fun legs' w₄ hm => hm)
  refine ends_lift (wp_mono (checkBothLegs_quiet ht (h.leg .long).lt_count) (fun r w' hr => ?_))
  obtain ⟨hq,hboth⟩ := hr
  rcases r with e | (⟨lq,sq⟩ | long | short | _)
  · exact hhedge w' hq
  · obtain ⟨hfl,rfl,hfs,rfl⟩ := hboth lq sq rfl
    have hw := h.quiet hq
    have hbound : ∀ s, (w'.book (legs.leg s).order.id).info.isFullyFilled = true →
        quantity - balanceTolerance ≤ (w'.book (legs.leg s).order.id).info.filledQuantity ∧
        (w'.book (legs.leg s).order.id).info.filledQuantity ≤ quantity := by
      intro s hi
      have hfull : (w'.book (legs.leg s).order.id).info.filledQuantity =
          (w'.book (legs.leg s).order.id).size := (info_fully _).mp hi
      rw [hfull]
      exact ⟨(hw.leg s).near,(hw.leg s).le⟩
    have hnone : balanceLegs opportunity (w'.book legs.long.order.id).info.filledQuantity
        (w'.book legs.short.order.id).info.filledQuantity legs = pure legs :=
      balanceLegs_none quantity (hbound .long hfl) (hbound .short hfs)
    refine ends_lift ?_
    rw [hnone]
    refine ends_lift (wp_asking nowSecs_asks (fun secs w₂ hq₂ => ?_))
    have hb : (legs.set side.opposite ((legs.leg side.opposite).fill secs
        (w'.book (legs.leg side.opposite).order.id).info.filledQuantity)).bothFilled = true :=
      (bothFilled_iff _ side).mpr (by simp [hf,Leg.fill])
    have hi : (w'.book (legs.leg side.opposite).order.id).info.isFullyFilled = true := by
      cases side
      · exact hfs
      · exact hfl
    have hfill := (hw.fill side.opposite hi ((legs.leg side.opposite).fill secs
      (w'.book (legs.leg side.opposite).order.id).info.filledQuantity) rfl rfl rfl rfl
        rfl rfl).quiet hq₂
    have hm := matched_of_both hx hfill hb
    cases side
    · exact ⟨hb,hm⟩
    · exact ⟨hb,hm⟩
  · exact hhedge w' hq
  · exact hhedge w' hq
  · exact hhedge w' hq

/-- A cancel in a hedge leaves its order over. -/
theorem wp_cancel_dead {exchange : String} {id : OrderId} {Q : Except String Unit → World → Prop}
    {w : World} (hl : symbol ∈ w.locks)
    (h : ∀ r w', Quiet w w' → (w'.book id).live = false → Q r w') :
    (exchanges env).wp (Tidy env n symbol) (Backend.cancelOrder exchange id) Q w := by
  intro hc
  simp only [Tidy,hl,if_true] at hc
  refine h _ _ (serve_quiet env (.cancelOrder exchange id) trivial w) ?_
  rw [serve_cancelOrder]
  unfold World.serveCancel
  cases hf : (env w.tick).failure with
  | some e => exact hc.resolve_left (by rw [hf]; simp)
  | none =>
    dsimp only
    rw [setOrder_book,if_pos rfl]
    exact kill_live _

/-- The answer about an order that is over is what it has filled. -/
theorem wp_status_over (ht : Truthful env) {exchange sym : String} {id : OrderId}
    {Q : Except String OrderStatusInfo → World → Prop} {w : World} (hl : symbol ∈ w.locks)
    (hd : (w.book id).live = false)
    (h : ∀ r w', Quiet w w' → (w'.book id).live = false → reportedFill r = (w'.book id).filled →
      Q r w') :
    (exchanges env).wp (Tidy env n symbol)
      (Backend.getOrderStatusDetailed exchange id sym) Q w := by
  have hadv : ((w.advance env).book id).live = false := dead_trade hd _
  refine wp_status_at ht (fun hc hfail e w' hq hbook => ?_) (fun hc w' hq hlive => ?_)
  · refine h _ w' hq (by rw [hbook]; exact hadv) ?_
    rw [hbook]
    exact (((hc hl).2 hadv).resolve_left hfail).symm
  · exact h _ w' hq (hlive.trans hadv) rfl

/-- What the aggressive limit order of a hedge has done: it took all that remained,
or less, and then nothing was added to the total unless it traded. -/
structure Tried (opportunity : ArbitrageOpportunity) (s : OrderSide) (remaining total : ℚ)
    (w : World) (total' : ℚ) (w' : World) : Prop extends Grows w w' where
  locks_eq : w'.locks = w.locks
  limits : ∀ i, w.count ≤ i → i < w'.count → (w'.book i).orderType = .limit ∧
    (w'.book i).exchange = opportunity.exchange s ∧ (w'.book i).side = s
  outcome : (total' = total + remaining ∧ filledSince w.count w' = remaining ∧
      ∀ i, w.count ≤ i → i < w'.count → (w'.book i).live = false) ∨
    (total' < total + remaining ∧ ∀ w'', Grows w' w'' →
      (∀ i, w.count ≤ i → i < w'.count → (w''.book i).filled = 0) → total' = total)

theorem tried_quiet {s : OrderSide} {remaining total : ℚ} {w w' : World} (hq : Quiet w w')
    (hr : 0 < remaining) : Tried opportunity s remaining total w total w' :=
  ⟨hq.toGrows,hq.locks_eq,fun i hi hr => absurd hr (by rw [hq.count_eq]; exact not_lt.mpr hi),
    .inr ⟨by linarith,fun _ _ _ => rfl⟩⟩

theorem aggressiveLimit_tried (ht : Truthful env) {s : OrderSide} {remaining total : ℚ} {leg : Leg}
    {w : World} (hr : 0 < remaining) :
    (exchanges env).wp (Tidy env n symbol) (aggressiveLimit opportunity s remaining total leg)
      (fun r w' => Tried opportunity s remaining total w r.1 w') w := by
  refine wp_bind.mpr (wp_asking (getBestHedgePrice_asks _ _ _) (fun r w₁ hq₁ => ?_))
  cases r with
  | error e => exact tried_quiet hq₁ hr
  | ok best =>
    refine wp_bind.mpr (wp_asking nowSecs_asks (fun secs w₂ hq₂ => ?_))
    have hq := hq₁.trans hq₂
    refine wp_bind.mpr (wp_placeOrder (fun e w₃ hq₃ => tried_quiet (hq.trans hq₃) hr)
      (fun _ placed w₃ hp => ?_))
    have hid : placed.id = w.count := hp.id_eq.trans hq.count_eq
    -- the books from here on: one more order, of this leg
    have hbase : ∀ w', Quiet w₃ w' → Grows w w' ∧ w'.locks = w.locks ∧ w'.count = w.count+1 ∧
        (w'.book w.count).orderType = .limit ∧
        (w'.book w.count).exchange = opportunity.exchange s ∧ (w'.book w.count).side = s ∧
        (w'.book w.count).size ≤ remaining := by
      intro w' hq'
      have he := hq'.order w.count (by rw [hp.count_eq,hq.count_eq]; exact Nat.lt_succ_self _)
      have hbook := hp.booked
      rw [hq.count_eq] at hbook
      refine ⟨hq.toGrows.trans (hp.toGrows.trans hq'.toGrows),?_,?_,?_,?_,?_,?_⟩
      · rw [hq'.locks_eq,hp.locks_eq,hq.locks_eq]
      · rw [hq'.count_eq,hp.count_eq,hq.count_eq]
      · rw [he.orderType,hbook]
        rfl
      · rw [he.exchange,hbook]
        rfl
      · rw [he.side,hbook]
        rfl
      · rw [he.size,hbook]
        exact booked_le hr.le
    have hlimits : ∀ w', Quiet w₃ w' → ∀ i, w.count ≤ i → i < w'.count →
        (w'.book i).orderType = .limit ∧ (w'.book i).exchange = opportunity.exchange s ∧
        (w'.book i).side = s := by
      intro w' hq' i hi hlt
      obtain ⟨_,_,hc,h₁,h₂,h₃,_⟩ := hbase w' hq'
      obtain rfl : i = w.count := by omega
      exact ⟨h₁,h₂,h₃⟩
    refine wp_bind.mpr (wp_harmless ⟨trivial,fun _ => trivial⟩ (fun _ w₄ hq₄ => ?_))
    refine wp_bind.mpr (wp_status ht (fun e w₅ hq₅ => ?_) (fun w₅ hq₅ => ?_))
    · refine wp_bind.mpr (wp_harmless ⟨trivial,fun _ => trivial⟩ (fun _ w₆ hq₆ => ?_))
      have hq' := hq₄.trans (hq₅.trans hq₆)
      exact ⟨(hbase w₆ hq').1,(hbase w₆ hq').2.1,hlimits w₆ hq',.inr ⟨by linarith,fun _ _ _ => rfl⟩⟩
    have hq₅' := hq₄.trans hq₅
    obtain ⟨hg,hlocks,hcount,_,_,_,hsize⟩ := hbase w₅ hq₅'
    have hle := (w₅.book w.count).filled_le
    rw [hid]
    dsimp only [BookOrder.info]
    split
    · next hge =>
      have hfull : (w₅.book w.count).filled = remaining := le_antisymm (hle.trans hsize) hge
      have hdead : (w₅.book w.count).live = false :=
        (dead_iff _).mpr (.inr (le_antisymm hle (hsize.trans hge)))
      refine ⟨hg,hlocks,hlimits w₅ hq₅',.inl ⟨?_,?_,fun i hi hlt => ?_⟩⟩
      · dsimp only
        rw [hfull]
      · rw [filledSince,hcount,Finset.sum_Ico_succ_top le_rfl,Finset.Ico_self,Finset.sum_empty,
          zero_add,hfull]
      · obtain rfl : i = w.count := by omega
        exact hdead
    · next hlt =>
      refine wp_bind.mpr (wp_harmless ⟨trivial,fun _ => trivial⟩ (fun _ w₆ hq₆ => ?_))
      have hq₆' := hq₅'.trans hq₆
      refine ⟨(hbase w₆ hq₆').1,(hbase w₆ hq₆').2.1,hlimits w₆ hq₆',.inr ⟨?_,fun w'' hg'' hz => ?_⟩⟩
      · dsimp only
        linarith [not_le.mp hlt]
      · have hcount₆ := (hbase w₆ hq₆').2.2.1
        have hmono := ((hq₆.order w.count (by omega)).trans
            (hg''.order w.count (by omega))).filled_le
        rw [hz w.count le_rfl (by omega)] at hmono
        dsimp only
        rw [le_antisymm hmono (w₅.book w.count).filled_nonneg,add_zero]

variable (side symbol) in
/-- The hedge after the loop matches the legs. -/
theorem completeHedge_matched (ht : Truthful env)
    (hx : opportunity.longExchange ≠ opportunity.shortExchange) {w : World}
    (h : Working n opportunity quantity legs w) (hf : (legs.leg side).filled = true)
    (hl : symbol ∈ w.locks) :
    (exchanges env).wp (Tidy env n symbol)
      (completeHedge opportunity side (legs.leg side).order.size legs)
      (Ends (fun _ => True) (fun legs' w' => legs'.bothFilled = true ∧
        Matched n opportunity legs' w')) w := by
  have hboth : ∀ x : Leg, x.filled = true → (legs.set side.opposite x).bothFilled = true :=
    fun x hx => (bothFilled_iff _ side).mpr (by simp [hf,hx])
  obtain ⟨hpos,hnear,hle⟩ := (h.done side hf).bounds (h.leg side)
  refine ends_lift (wp_cancel_dead hl (fun _ w₁ hq₁ hd₁ => ?_))
  refine ends_lift (wp_status_over ht (hq₁.locks_eq ▸ hl) hd₁
    (fun status w₂ hq₂ hd₂ hx₂ => ?_))
  have hq := hq₁.trans hq₂
  have hw := h.quiet hq
  dsimp only
  rw [hx₂]
  have hle₂ := (w₂.book (legs.leg side.opposite).order.id).filled_le.trans (hw.leg side.opposite).le
  split
  · next hge =>
    refine ⟨hboth _ rfl,matched_of_hedge side hx hw hf (.refl w₂) le_rfl le_rfl
      (fun i hi hr => absurd hr (not_lt.mpr hi)) hd₂
      (fun i hi hr => absurd hr (not_lt.mpr hi)) _ ?_ ⟨?_,?_⟩⟩
    · rw [filledSince,Finset.Ico_self,Finset.sum_empty,add_zero]
      rfl
    · change (w₂.book (legs.leg side.opposite).order.id).filled - _ ≤ _
      linarith
    · change _ - (w₂.book (legs.leg side.opposite).order.id).filled ≤ _
      linarith [tolerance_nonneg]
  · next hlt =>
    have hlt' := not_le.mp hlt
    refine ends_lift (wp_mono (aggressiveLimit_tried ht (sub_pos.mpr hlt')) (fun r w₃ htry => ?_))
    obtain ⟨total,other⟩ := r
    have hdead₃ := ((htry.order _ (hw.leg side.opposite).lt_count).dead hd₂)
    dsimp only at htry ⊢
    rcases htry.outcome with ⟨htotal,hfilled,hnew⟩ | ⟨hless,hzero⟩
    · have hall : total = (legs.leg side).order.size := by
        rw [htotal]
        ring
      rw [if_pos hall.ge]
      refine ⟨hboth _ rfl,matched_of_hedge side hx hw hf htry.toGrows le_rfl htry.count_le
        (fun i hi hr => absurd hr (not_lt.mpr hi)) hdead₃.1 (fun i hi hr => ?_) _ ?_ ⟨?_,?_⟩⟩
      · exact ⟨hnew i hi hr,(htry.limits i hi hr).2⟩
      · rw [hfilled,hdead₃.2]
        exact htotal
      · change total - _ ≤ _
        rw [hall,sub_self]
        exact tolerance_nonneg
      · change _ - total ≤ _
        rw [hall,sub_self]
        exact tolerance_nonneg
    · have hless' : total < (legs.leg side).order.size := by linarith
      rw [if_neg (not_le.mpr hless')]
      refine ends_lift (wp_asking nowSecs_asks (fun secs w₄ hq₄ => ?_))
      have hg₄ := htry.toGrows.trans hq₄.toGrows
      refine marketHedge_matched symbol side ht hx hw hf hg₄ ?_ _ _ (fun i hi hr => ?_) hless'
        (fun w' hg' hidle => ?_)
      · rw [hq₄.locks_eq,htry.locks_eq,hq.locks_eq]
        exact hl
      · have hr₃ : i < w₃.count := hq₄.count_eq ▸ hr
        obtain ⟨h₁,h₂,h₃⟩ := htry.limits i hi hr₃
        have he := hq₄.order i hr₃
        exact ⟨he.orderType.trans h₁,he.exchange.trans h₂,he.side.trans h₃⟩
      · -- both limit orders of the leg end idle, so nothing was ever counted
        have hlast := hzero w' (hq₄.toGrows.trans hg') (fun i hi hr => by
          obtain ⟨h₁,h₂,h₃⟩ := htry.limits i hi hr
          have he := hq₄.order i hr
          exact (hidle i ((hw.leg .long).from_le.trans ((hw.leg .long).lt_count.le.trans hi))
            (hq₄.count_eq ▸ hr) (he.orderType.trans h₁) (he.exchange.trans h₂)
            (he.side.trans h₃)).2)
        have hleg := (hw.leg side.opposite).grows hg₄
        have hfirst := (hidle _ hleg.from_le hleg.lt_count hleg.limit
          (hleg.exchange.trans hleg.exchange_eq) (hleg.side.trans hleg.side_eq)).2
        have hmono := ((htry.order _ (hw.leg side.opposite).lt_count).trans
          ((hq₄.order _ ((hw.leg side.opposite).lt_count.trans_le htry.count_le)).trans
            (hg'.order _ hleg.lt_count))).filled_le
        rw [hlast]
        exact le_antisymm (hfirst ▸ hmono) (w₂.book _).filled_nonneg

end Hedging

/-- Between two turns of the loop the legs match, or both are being worked on. -/
def Round (n : Nat) (opportunity : ArbitrageOpportunity) (quantity : ℚ) (legs : Legs) (w : World) :
    Prop :=
  opportunity.symbol ∉ w.locks ∧ ((legs.bothFilled = true ∧ Matched n opportunity legs w) ∨
    (legs.neitherFilled = true ∧ Working n opportunity quantity legs w))

theorem Matched.quiet {n : Nat} {opportunity : ArbitrageOpportunity} {legs : Legs} {w w' : World}
    (h : Matched n opportunity legs w) (hq : Quiet w w') : Matched n opportunity legs w' := by
  refine ⟨fun i hl hr => ?_,fun s => ?_,h.close⟩
  · rw [hq.count_eq] at hr
    exact ((hq.order i hr).dead (h.dead i hl hr)).1
  · rw [← h.position s,net,net,hq.count_eq]
    refine Finset.sum_congr rfl (fun i hm => ?_)
    obtain ⟨hl,hr⟩ := Finset.mem_Ico.mp hm
    have he := hq.order i hr
    rw [signed_eq,signed_eq,he.exchange,he.side,(he.dead (h.dead i hl hr)).2]

section Polling

variable {env : Env} {n : Nat} {opportunity : ArbitrageOpportunity} {quantity : ℚ} {legs : Legs}
  {side : OrderSide} {config : RepricingConfig}

theorem Round.quiet {w w' : World} (h : Round n opportunity quantity legs w) (hq : Quiet w w') :
    Round n opportunity quantity legs w' := by
  refine ⟨hq.locks_eq ▸ h.1,?_⟩
  rcases h.2 with ⟨hb,hm⟩ | ⟨hn,hw⟩
  · exact .inl ⟨hb,hm.quiet hq⟩
  · exact .inr ⟨hn,hw.quiet hq⟩

/-- Both flags or neither: the two cases of a round exclude each other. -/
theorem Round.working {w : World} (h : Round n opportunity quantity legs w) (s : OrderSide)
    (hs : (legs.leg s).filled = false) :
    legs.neitherFilled = true ∧ Working n opportunity quantity legs w := by
  refine h.2.resolve_left (fun hb => ?_)
  rw [((bothFilled_iff legs s).mp hb.1).1] at hs
  cases hs

variable (quantity) in
theorem hedge_locked {body : Entry α} {f : α → Legs} {w : World}
    (h : (exchanges env).wp (Tidy env n opportunity.symbol) body
      (Ends (fun _ => True) (fun a w' => (f a).bothFilled = true ∧ Matched n opportunity (f a) w'))
      { w with locks := opportunity.symbol :: w.locks }) :
    (exchanges env).wp (Tidy env n opportunity.symbol) (withHedgeLock opportunity.symbol body)
      (Ends (fun _ => True) (fun a w' => Round n opportunity quantity (f a) w')) w := by
  refine wp_mono (wp_withHedgeLock (fun _ _ h => h)
    (fun a w locks hq => ⟨hq.1,⟨hq.2.dead,hq.2.position,hq.2.close⟩⟩) (fun _ _ => trivial) h)
    (fun r w' hr => ?_)
  cases r with
  | error e => trivial
  | ok a => exact ⟨hr.1,.inl hr.2⟩

/-- The status check of a leg. -/
theorem pollLeg_round (ht : Truthful env)
    (hx : opportunity.longExchange ≠ opportunity.shortExchange) {w : World}
    (h : Round n opportunity quantity legs w) :
    (exchanges env).wp (Tidy env n opportunity.symbol) (pollLeg opportunity side legs)
      (Ends (fun _ => True) (fun flow w' => Round n opportunity quantity (flowLegs flow) w'))
        w := by
  unfold pollLeg
  dsimp only
  cases hside : (legs.leg side).filled with
  | true => exact h
  | false =>
    obtain ⟨hneither,hw⟩ := h.working side hside
    have hother := ((neitherFilled_iff legs side).mp hneither).2
    rw [if_neg (by simp)]
    refine ends_lift (wp_status ht (fun e w' hq => h.quiet hq) (fun w' hq => ?_))
    dsimp only
    split
    · next hfull =>
      refine ends_lift (wp_asking nowSecs_asks (fun secs w₁ hq₁ => ?_))
      rw [if_neg (by rw [leg_set_opposite,hother]; simp)]
      have hfill := ((hw.quiet hq).fill side hfull ((legs.leg side).fill secs
        (w'.book (legs.leg side).order.id).info.filledQuantity) rfl rfl rfl rfl rfl rfl).quiet hq₁
      have hhedge := hedgeInLoop_matched side ht hx
        (hfill.locks (opportunity.symbol :: w₁.locks)) (by rw [leg_set]; rfl)
          (List.mem_cons_self ..)
      rw [leg_set] at hhedge
      exact hedge_locked quantity hhedge
    · split
      · exact h.quiet hq
      · split <;> exact h.quiet hq

theorem booked_le_of_pos {c : Move} {size : ℚ} (h : 0 < World.booked c size) :
    World.booked c size ≤ size := by
  have hle : World.booked c size ≤ max 0 size := min_le_left _ _
  rcases le_total 0 size with hs | hs
  · exact booked_le hs
  · rw [max_eq_left hs] at hle
    exact absurd h (not_lt.mpr hle)

variable (quantity) in
/-- An accepted limit order of a leg, as Tidy books it. -/
theorem placed_leg {o placed : SimulatedOrder} {s : OrderSide} {w w' : World}
    (hp : Placed env w o placed w') (hn : n ≤ w.count)
    (hc : Tidy env n opportunity.symbol w (.placeOrder o))
    (hex : o.exchange = opportunity.exchange s) (hs : o.side = s) (hlim : o.orderType = .limit)
    (hq : o.size = quantity) : LegOrder n opportunity quantity s placed w' := by
  obtain ⟨hpos,hnear⟩ := hc hp.accepted
  have hbook : w'.book placed.id = World.fresh (env w.tick) o := by rw [hp.id_eq,hp.booked]
  refine ⟨placed_booked hp hn,hp.exchange_eq.trans hex,hp.side_eq.trans hs,hp.type_eq.trans hlim,
    ?_,?_,?_,?_⟩
  · rw [hbook]
    exact hlim
  · rw [hbook]
    exact hpos
  · rw [hbook,← hq]
    exact hnear
  · rw [hbook,← hq]
    exact booked_le_of_pos hpos

/-- A leg that was repriced: the old order is idle, the new one is the leg's. -/
theorem Working.reprice (leg : Leg) {w w' : World} {o : SimulatedOrder}
    (h : Working n opportunity quantity legs w) (hi : Idle (w.book (legs.leg side).order.id))
    (hp : Placed env w o leg.order w') (hl : LegOrder n opportunity quantity side leg.order w')
    (hf : leg.filled = false) (hq : leg.order.size = quantity) :
    Working n opportunity quantity (legs.set side leg) w' := by
  have hrest : ∀ i, n ≤ i → i < w'.count → i ≠ leg.order.id →
      i ≠ (legs.leg side.opposite).order.id → Idle (w'.book i) := by
    intro i hl hr hnew hother
    have hc : i < w.count := by
      rw [hp.count_eq] at hr
      rw [hp.id_eq] at hnew
      omega
    by_cases hi' : i = (legs.leg side).order.id
    · exact (hi' ▸ hi).extends (hp.order i hc)
    · exact (h.rest_side side i hl hc hi' hother).extends (hp.order i hc)
  refine ⟨?_,?_,?_,fun i hn hr hlong hshort => ?_⟩
  · exact forall_leg_set (P := fun t x => LegOrder n opportunity quantity t x.order w') hl
      ((h.leg _).grows hp.toGrows)
  · exact forall_leg_set (P := fun _ x => x.filled = false → x.order.size = quantity)
      (fun _ => hq) (h.asked _)
  · refine forall_leg_set (P := fun _ x => x.filled = true → Complete n x.order w') (fun hd => ?_)
      (fun hd => (h.done _ hd).grows hp.toGrows)
    exact absurd (hf.symm.trans hd) (by simp)
  · cases side
    · exact hrest i hn hr hlong hshort
    · exact hrest i hn hr hshort hlong

/-- Outside a hedge a cancel that succeeds leaves its order idle. -/
theorem wp_cancel_open {exchange symbol : String} {id : OrderId}
    {Q : Except String Unit → World → Prop} {w : World} (hl : symbol ∉ w.locks)
    (herr : ∀ e w', Quiet w w' → Q (.error e) w')
    (hok : ∀ w', Quiet w w' → Idle (w'.book id) → Q (.ok ()) w') :
    (exchanges env).wp (Tidy env n symbol) (Backend.cancelOrder exchange id) Q w := by
  intro hc
  simp only [Tidy,hl,if_false] at hc
  have hq := serve_quiet env (.cancelOrder exchange id) trivial w
  rw [serve_cancelOrder] at hq ⊢
  unfold World.serveCancel at hq ⊢
  cases hf : (env w.tick).failure with
  | some e =>
    rw [hf] at hq
    exact herr e _ hq
  | none =>
    rw [hf] at hq
    refine hok _ hq ?_
    dsimp only
    rw [setOrder_book,if_pos rfl]
    exact ⟨kill_live _,hc hf⟩

/-- Chasing the price keeps the round. -/
theorem chaseLeg_round {w : World} (h : Round n opportunity quantity legs w) :
    (exchanges env).wp (Tidy env n opportunity.symbol) (chaseLeg config side legs)
      (fun legs' w' => Round n opportunity quantity legs' w') w := by
  refine wp_chaseLeg (fun w' hq => h.quiet hq) (fun _ w₁ hq₁ => ?_)
    (fun hs => ((h.working side hs).2.leg side).lt_count) ?_
  · refine wp_cancel_open (h.quiet hq₁).1 (fun e w₂ hq₂ => ⟨hq₂,fun he => by cases he⟩)
      (fun w₂ hq₂ hidle => ⟨hq₂,fun _ => hidle⟩)
  · intro hs w₁ price secs placed w₂ w₃ metrics hq₁ hidle hc hp hq₃
    obtain ⟨hneither,hw⟩ := h.working side hs
    have hw₁ := hw.quiet hq₁
    have hold := hw₁.leg side
    have hnew := placed_leg quantity hp (hold.from_le.trans hold.lt_count.le) hc
      hold.exchange_eq hold.side_eq hold.type_eq (hw.asked side hs)
    refine ⟨?_,.inr ⟨?_,?_⟩⟩
    · rw [hq₃.locks_eq,hp.locks_eq,hq₁.locks_eq]
      exact h.1
    · refine (neitherFilled_iff _ side).mpr ?_
      rw [leg_set,leg_set_opposite]
      exact (neitherFilled_iff legs side).mp hneither
    · exact (hw₁.reprice (repriced (legs.leg side) placed metrics) hidle hp hnew hs
        (hp.size_eq.trans (hw.asked side hs))).quiet hq₃

/-- The polling loop keeps the round. -/
theorem round_invariant (ht : Truthful env)
    (hx : opportunity.longExchange ≠ opportunity.shortExchange) (config : RepricingConfig) :
    PollInvariant env (Tidy env n opportunity.symbol) opportunity config (fun _ => True)
      (Round n opportunity quantity) where
  quiet h hq := h.quiet hq
  poll h := pollLeg_round ht hx h
  chase h := chaseLeg_round h
  spread h := wp_checkSpread h (fun _ => wp_grows (fun _ _ _ => trivial))
  reprices h := wp_checkReprices h (fun _ => wp_grows (fun _ _ _ => trivial))

end Polling

section Finishing

variable {env : Env} {n : Nat} {opportunity : ArbitrageOpportunity} {quantity : ℚ} {legs : Legs}
  {side : OrderSide}

theorem verifyLeg_working (ht : Truthful env) {C : World → BackendOp → Prop} {w : World}
    (h : Working n opportunity quantity legs w) :
    (exchanges env).wp C (verifyLeg opportunity side legs)
      (fun legs' w' => Working n opportunity quantity legs' w' ∧ w'.locks = w.locks) w := by
  refine wp_bind.mpr (wp_status ht (fun e w' hq => ⟨h.quiet hq,hq.locks_eq⟩) (fun w' hq => ?_))
  dsimp only
  split
  · next hfull => exact ⟨(h.quiet hq).fill side hfull _ rfl rfl rfl rfl rfl rfl,hq.locks_eq⟩
  · exact ⟨h.quiet hq,hq.locks_eq⟩

/-- What the hedges after the loop start from. -/
def Ready (n : Nat) (opportunity : ArbitrageOpportunity) (quantity : ℚ) (legs : Legs) (w : World) :
    Prop :=
  opportunity.symbol ∉ w.locks ∧ ((legs.bothFilled = true ∧ Matched n opportunity legs w) ∨
    (legs.bothFilled = false ∧ Working n opportunity quantity legs w))

theorem finalCheck_ready (ht : Truthful env)
    (hx : opportunity.longExchange ≠ opportunity.shortExchange) {w : World}
    (h : Round n opportunity quantity legs w) :
    (exchanges env).wp (Tidy env n opportunity.symbol) (finalCheck opportunity legs)
      (Ends (fun _ => True) (fun legs' w' => Ready n opportunity quantity legs' w')) w := by
  unfold finalCheck
  split
  · next hneither =>
    obtain ⟨_,hw⟩ := h.working .long ((neitherFilled_iff legs .long).mp hneither).1
    refine ends_lift (wp_mono (verifyLeg_working ht hw) (fun legs₁ w₁ h₁ => ?_))
    refine ends_lift (wp_mono (verifyLeg_working ht h₁.1) (fun legs₂ w₂ h₂ => ?_))
    split
    · exact ends_lift (wp_grows (fun _ _ _ => trivial))
    · refine ⟨by rw [h₂.2,h₁.2]; exact h.1,?_⟩
      cases hb : legs₂.bothFilled with
      | true => exact .inl ⟨rfl,matched_of_both hx h₂.1 hb⟩
      | false => exact .inr ⟨rfl,h₂.1⟩
  · next hsome =>
    rcases h.2 with hm | ⟨hneither,_⟩
    · exact ⟨h.1,.inl hm⟩
    · exact absurd hneither hsome

theorem finalHedge_ready (ht : Truthful env)
    (hx : opportunity.longExchange ≠ opportunity.shortExchange) {w : World}
    (h : Ready n opportunity quantity legs w) :
    (exchanges env).wp (Tidy env n opportunity.symbol) (finalHedge opportunity side legs)
      (Ends (fun _ => True) (fun legs' w' => Ready n opportunity quantity legs' w')) w := by
  unfold finalHedge
  split
  · next hgo =>
    rw [Bool.and_eq_true] at hgo
    have hother : (legs.leg side.opposite).filled = false := by simpa using hgo.2
    have hw : Working n opportunity quantity legs w := by
      rcases h.2 with ⟨hb,_⟩ | ⟨_,hw⟩
      · rw [((bothFilled_iff legs side).mp hb).2] at hother
        cases hother
      · exact hw
    refine wp_mono (hedge_locked quantity (f := id) ?_) (fun r w' hr => ?_)
    · refine ends_bind depthGate_quiet ?_
      rintro _ w₁ ⟨hq₁,cache,rfl⟩
      have hw₁ := ((hw.locks (opportunity.symbol :: w.locks)).quiet hq₁).cache cache
      have hc := completeHedge_matched opportunity.symbol side ht hx hw₁
        (by rw [leg_cache]; exact hgo.1) (by rw [hq₁.locks_eq]; exact List.mem_cons_self ..)
      rw [leg_cache] at hc
      exact hc
    · cases r with
      | error e => trivial
      | ok legs' =>
        refine ⟨hr.1,?_⟩
        rcases hr.2 with hm | ⟨hn,hw'⟩
        · exact .inl hm
        · refine .inr ⟨?_,hw'⟩
          cases hb : Legs.bothFilled legs' with
          | false => rfl
          | true =>
            have hf := ((bothFilled_iff legs' .long).mp hb).1
            have hn' : (legs'.leg .long).filled = false := ((neitherFilled_iff legs' .long).mp hn).1
            rw [hn'] at hf
            cases hf
  · exact h

/-- Two accepted entry orders are a round. -/
theorem placeEntry_round {cache : DepthCache} {secs : Nat} {w : World} (hn : w.count = n)
    (hl : opportunity.symbol ∉ w.locks) :
    (exchanges env).wp (Tidy env n opportunity.symbol) (placeEntry opportunity quantity secs cache)
      (Ends (fun _ => True) (fun legs w' => Round n opportunity quantity legs w')) w := by
  refine ends_lift (wp_placeOrder (fun e w₁ hq₁ => ?_) (fun hc₁ long w₁ hp₁ => ?_))
  · exact ends_lift (wp_grows (fun _ _ _ => trivial))
  have hlong := placed_leg quantity (s := .long) (n := n) hp₁ hn.ge hc₁ rfl rfl rfl rfl
  refine ends_lift (wp_placeOrder (fun e w₂ hq₂ => ?_) (fun hc₂ short w₂ hp₂ => ?_))
  · exact ends_lift (wp_grows (fun _ _ _ => trivial))
  have hn₁ : n ≤ w₁.count := by
    rw [hp₁.count_eq,hn]
    exact Nat.le_succ n
  have hshort := placed_leg quantity (s := .short) hp₂ hn₁ hc₂ rfl rfl rfl rfl
  refine ⟨by rw [hp₂.locks_eq,hp₁.locks_eq]; exact hl,.inr ⟨rfl,⟨fun s => ?_,fun s _ => ?_,
    fun s hs => ?_,fun i hi hr h₁ h₂ => ?_⟩⟩⟩
  · cases s
    · exact hlong.grows hp₂.toGrows
    · exact hshort
  · cases s
    · exact hp₁.size_eq
    · exact hp₂.size_eq
  · cases s <;> cases hs
  · have h₁' : i ≠ long.id := h₁
    have h₂' : i ≠ short.id := h₂
    rw [hp₁.id_eq] at h₁'
    rw [hp₂.id_eq,hp₁.count_eq] at h₂'
    rw [hp₂.count_eq,hp₁.count_eq] at hr
    omega

/-- Two filled legs match. -/
theorem fillLegs_matched (ht : Truthful env)
    (hx : opportunity.longExchange ≠ opportunity.shortExchange) {w : World}
    (h : Round n opportunity quantity legs w) :
    (exchanges env).wp (Tidy env n opportunity.symbol) (fillLegs opportunity legs)
      (Ends (fun _ => True) (fun legs' w' => Matched n opportunity legs' w')) w := by
  refine ends_lift (wp_harmless ⟨trivial,fun _ => trivial⟩ (fun start w₁ hq₁ => ?_))
  refine ends_bind ((round_invariant ht hx _).loop (h.quiet hq₁)) (fun legs₂ w₂ h₂ => ?_)
  refine ends_bind (finalCheck_ready ht hx h₂) (fun legs₃ w₃ h₃ => ?_)
  refine ends_bind (finalHedge_ready ht hx h₃) (fun legs₄ w₄ h₄ => ?_)
  refine ends_bind (finalHedge_ready ht hx h₄) (fun legs₅ w₅ h₅ => ?_)
  unfold failWhen
  rcases h₅.2 with ⟨hb,hm⟩ | ⟨hb,_⟩
  · obtain ⟨hlong,hshort⟩ := (bothFilled_iff legs₅ .long).mp hb
    have hpass : (!legs₅.long.filled || !legs₅.short.filled) = false := by
      change (!(legs₅.leg .long).filled || !(legs₅.leg OrderSide.long.opposite).filled) = false
      rw [hlong,hshort]
      rfl
    rw [hpass]
    exact hm
  · have hfail : (!legs₅.long.filled || !legs₅.short.filled) = true := by
      rw [← Bool.not_and]
      change (!legs₅.bothFilled) = true
      rw [hb]
      rfl
    rw [hfail]
    trivial

end Finishing

/-- The exit orders of a trade that were accepted. -/
def exitIds (trade : PaperTrade) : List OrderId :=
  (trade.longExitOrder.map SimulatedOrder.id).toList ++
    (trade.shortExitOrder.map SimulatedOrder.id).toList

/-- The position on `exchange` that the entry created: that of all orders numbered from
`n` on, less the exit orders, which may already trade when the call returns. -/
def entryNet (n : Nat) (trade : PaperTrade) (exchange : String) (w : World) : ℚ :=
  ∑ i ∈ (Finset.Ico n w.count).filter (· ∉ exitIds trade), (w.book i).signed exchange

section Exits

variable {env : Env} {n : Nat} {opportunity : ArbitrageOpportunity} {legs : Legs}

/-- The orders placed since `w` are those numbered `ids`. -/
structure Since (w : World) (ids : List Nat) (w' : World) : Prop extends Grows w w' where
  mem_iff : ∀ i : Nat, i ∈ ids ↔ w.count ≤ i ∧ i < w'.count

theorem since_quiet {w w₁ w₂ : World} {ids : List Nat} (h : Since w ids w₁) (hq : Quiet w₁ w₂) :
    Since w ids w₂ :=
  ⟨h.toGrows.trans hq.toGrows,fun i => by rw [h.mem_iff,hq.count_eq]⟩

theorem since_placed {w w₁ w₂ : World} {ids : List Nat} {o placed : SimulatedOrder}
    (h : Since w ids w₁) (hp : Placed env w₁ o placed w₂) : Since w (ids ++ [placed.id]) w₂ := by
  refine ⟨h.toGrows.trans hp.toGrows,fun i => ?_⟩
  have hle := h.count_le
  rw [List.mem_append,List.mem_singleton,h.mem_iff,hp.id_eq,hp.count_eq]
  omega

/-- The exit orders do not touch the position of the entry. -/
theorem entryNet_since {w w' : World} {trade : PaperTrade} (h : Matched n opportunity legs w)
    (hs : Since w (exitIds trade) w') (exchange : String) :
    entryNet n trade exchange w' = net n exchange w := by
  have hset : (Finset.Ico n w'.count).filter (· ∉ exitIds trade) = Finset.Ico n w.count := by
    ext i
    have hle := hs.count_le
    rw [Finset.mem_filter,Finset.mem_Ico,Finset.mem_Ico,hs.mem_iff]
    constructor
    · rintro ⟨⟨hl,hr⟩,hnew⟩
      exact ⟨hl,not_le.mp (fun hc => hnew ⟨hc,hr⟩)⟩
    · rintro ⟨hl,hr⟩
      exact ⟨⟨hl,hr.trans_le hle⟩,fun hnew => absurd hr (not_lt.mpr hnew.1)⟩
  rw [entryNet,hset,net]
  refine Finset.sum_congr rfl (fun i hm => ?_)
  obtain ⟨hl,hr⟩ := Finset.mem_Ico.mp hm
  have he := hs.order i hr
  rw [signed_eq,signed_eq,he.exchange,he.side,(he.dead (h.dead i hl hr)).2]

/-- The trade record of two filled legs: their orders, and exits of their sizes. -/
theorem createTrade_since {C : World → BackendOp → Prop} {positionSize : ℚ} {secs : Nat}
    {w : World} :
    (exchanges env).wp C (createTrade opportunity positionSize secs legs)
      (fun trade w' => trade.longOrder = legs.long.order ∧ trade.shortOrder = legs.short.order ∧
        (∀ o, trade.longExitOrder = some o → o.size = legs.long.order.size) ∧
        (∀ o, trade.shortExitOrder = some o → o.size = legs.short.order.size) ∧
        Since w (exitIds trade) w') w := by
  have hstart : ∀ w', Quiet w w' → Since w [] w' := fun w' hq =>
    since_quiet ⟨.refl w,fun i => by simp⟩ hq
  refine wp_bind.mpr (wp_harmless ⟨trivial,fun _ => trivial⟩ (fun id w₁ hq₁ => ?_))
  refine wp_bind.mpr (wp_asking nowSecs_asks (fun longSecs w₂ hq₂ => ?_))
  refine wp_bind.mpr (wp_asking nowSecs_asks (fun shortSecs w₃ hq₃ => ?_))
  have hs₃ := hstart w₃ (hq₁.trans (hq₂.trans hq₃))
  refine wp_bind.mpr (wp_placeOrder (fun e w₄ hq₄ => ?_) (fun _ long w₄ hp₄ => ?_))
  · refine wp_bind.mpr (wp_placeOrder (fun e w₅ hq₅ => ?_) (fun _ short w₅ hp₅ => ?_))
    · exact ⟨rfl,rfl,(fun o ho => by cases ho),(fun o ho => by cases ho),
        since_quiet (since_quiet hs₃ hq₄) hq₅⟩
    · refine ⟨rfl,rfl,(fun o ho => by cases ho),fun o ho =>
        ?_,since_placed (since_quiet hs₃ hq₄) hp₅⟩
      cases ho
      exact hp₅.size_eq
  · refine wp_bind.mpr (wp_placeOrder (fun e w₅ hq₅ => ?_) (fun _ short w₅ hp₅ => ?_))
    · refine ⟨rfl,rfl,fun o ho => ?_,(fun o ho => by cases ho),
        since_quiet (since_placed hs₃ hp₄) hq₅⟩
      cases ho
      exact hp₄.size_eq
    · refine ⟨rfl,rfl,fun o ho => ?_,fun o ho => ?_,since_placed (since_placed hs₃ hp₄) hp₅⟩
      · cases ho
        exact hp₄.size_eq
      · cases ho
        exact hp₅.size_eq

end Exits

/-- A successful entry is delta neutral and recorded as it is, in every run whose steps go
as the code counts on. -/
theorem entry_recorded_neutral (env : Env) (ht : Truthful env) (opportunity : ArbitrageOpportunity)
    (hx : opportunity.longExchange ≠ opportunity.shortExchange) (availableCapital positionSize : ℚ)
    (w : World) (hfree : opportunity.symbol ∉ w.locks)
    (hrun : (exchanges env).Along (Tidy env w.count opportunity.symbol)
    (executeAtomicEntryReal opportunity availableCapital positionSize) w) (trade : PaperTrade)
    (hok : ((exchanges env).run
    (executeAtomicEntryReal opportunity availableCapital positionSize) w).1 = .ok trade) :
    let w' := ((exchanges env).run
      (executeAtomicEntryReal opportunity availableCapital positionSize) w).2
    entryNet w.count trade opportunity.longExchange w' = trade.longOrder.size ∧
      entryNet w.count trade opportunity.shortExchange w' = -trade.shortOrder.size ∧
      |trade.longOrder.size - trade.shortOrder.size| ≤ 1/1000 ∧
      (∀ o, trade.longExitOrder = some o → o.size = trade.longOrder.size) ∧
      (∀ o, trade.shortExitOrder = some o → o.size = trade.shortOrder.size) := by
  have hwp : (exchanges env).wp (Tidy env w.count opportunity.symbol)
      (executeAtomicEntryReal opportunity availableCapital positionSize)
      (Ends (fun _ => True) (fun trade w' =>
        entryNet w.count trade opportunity.longExchange w' = trade.longOrder.size ∧
        entryNet w.count trade opportunity.shortExchange w' = -trade.shortOrder.size ∧
        |trade.longOrder.size - trade.shortOrder.size| ≤ 1/1000 ∧
        (∀ o, trade.longExitOrder = some o → o.size = trade.longOrder.size) ∧
        (∀ o, trade.shortExitOrder = some o → o.size = trade.shortOrder.size))) w := by
    refine wp_except_bind.mpr (wp_asking (prepareEntry_asks _ _ _) (fun r w₁ hq₁ => ?_))
    cases r with
    | error e => trivial
    | ok prepared =>
      refine ends_bind (placeEntry_round hq₁.count_eq (hq₁.locks_eq ▸ hfree)) (fun legs w₂ h₂ => ?_)
      refine ends_bind (fillLegs_matched ht hx h₂) (fun legs' w₃ h₃ => ?_)
      refine wp_lift.mpr (wp_mono createTrade_since (fun trade w₄ h₄ => ?_))
      obtain ⟨hlong,hshort,hle,hse,hsince⟩ := h₄
      have hpos := fun s => (entryNet_since h₃ hsince (opportunity.exchange s)).trans
          (h₃.position s)
      rw [← hlong] at hle
      rw [← hshort] at hse
      refine ⟨?_,?_,?_,hle,hse⟩
      · rw [hlong]
        exact (hpos .long).trans (one_mul _)
      · rw [hshort]
        exact (hpos .short).trans (neg_one_mul _)
      · rw [hlong,hshort,abs_le]
        have h₅ : legs'.long.order.size - legs'.short.order.size ≤ 1/1000 := h₃.close .long
        have h₆ : legs'.short.order.size - legs'.long.order.size ≤ 1/1000 := h₃.close .short
        exact ⟨by linarith,h₅⟩
  have hends := ((exchanges env).wp_iff _ _ _ w).mp hwp hrun
  rw [hok] at hends
  exact hends

/-- The long order fills, and the short one only when it is hedged. -/
def longFills : Env := fun t =>
  if t = 11 then { trades := fun i => if i = 0 then 1 else 0 } else calm t

/-- As above, but half of the short order fills just before it is cancelled. -/
def shortHalfFills : Env := fun t =>
  if t = 15 then { trades := fun i => if i = 1 then 1/2 else 0 } else longFills t

/-- A hedge whose short order had not traded is recorded as it is. -/
theorem clean_hedge_recorded :
    let out := (exchanges longFills).run (executeAtomicEntryReal onePercent 1000 101) .empty
    ∃ trade, out.1 = .ok trade ∧ entryNet 0 trade "bybit" out.2 = trade.longOrder.size ∧
      entryNet 0 trade "okx" out.2 = -trade.shortOrder.size ∧
      |trade.longOrder.size - trade.shortOrder.size| ≤ 1/1000 := by
  cases h : ((exchanges longFills).run (executeAtomicEntryReal onePercent 1000 101) .empty).1 with
  | error e =>
    have hok : ((exchanges longFills).run
      (executeAtomicEntryReal onePercent 1000 101) .empty).1.isOk = true := by decide +kernel
    rw [h] at hok
    cases hok
  | ok trade =>
    have hneutral := entry_recorded_neutral longFills (fun t => by
      unfold longFills calm
      split_ifs <;> rfl) onePercent (by decide) 1000 101 .empty (by decide)
        (by decide +kernel) trade h
    exact ⟨trade,h,hneutral.1,hneutral.2.1,hneutral.2.2.1⟩

/-- The half that filled before the cancel is neither counted nor undone: the trade says
one contract short, the exchange one and a half. -/
theorem raced_hedge_unrecorded :
    let out := (exchanges shortHalfFills).run (executeAtomicEntryReal onePercent 1000 101) .empty
    Truthful shortHalfFills ∧
      (out.1.toOption.map fun t => (t.longOrder.size,t.shortOrder.size)) = some (1,1) ∧
      (out.1.toOption.map fun t => (entryNet 0 t "bybit" out.2,entryNet 0 t "okx" out.2)) =
        some (1,-(3/2)) := by
  refine ⟨fun t => ?_,by decide +kernel⟩
  unfold shortHalfFills longFills calm
  split_ifs <;> rfl

end SpreadArb.Proofs.Neutral
