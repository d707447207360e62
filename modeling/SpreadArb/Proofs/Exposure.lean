import SpreadArb.Interact.Join
import SpreadArb.Proofs.Flags
import SpreadArb.Proofs.Polling
import SpreadArb.Proofs.Sections

namespace SpreadArb.Proofs.Exposure
open Interact Machine Sections

section Books

/-- A limit order of the leg on side `s`. -/
def OnLeg (s : OrderSide) (o : BookOrder) : Prop := o.orderType = .limit ∧ o.side = s

instance (s : OrderSide) (o : BookOrder) : Decidable (OnLeg s o) :=
  inferInstanceAs (Decidable (_ ∧ _))

/-- What an order can still trade. -/
def rest (o : BookOrder) : ℚ := if o.live then o.size - o.filled else 0

/-- A sum over the limit orders of a leg that are numbered from `n` on. -/
def legSum {M : Type} [AddCommMonoid M] (n : Nat) (s : OrderSide) (g : BookOrder → M)
    (w : World) : M :=
  ∑ i ∈ Finset.Ico n w.count, if OnLeg s (w.book i) then g (w.book i) else 0

def legFilled (n : Nat) (s : OrderSide) (w : World) : ℚ := legSum n s BookOrder.filled w

/-- What the orders of a leg have filled, and what they can still trade. -/
def exposure (n : Nat) (s : OrderSide) (w : World) : ℚ := legSum n s (fun o => o.filled + rest o) w

def legOrders (n : Nat) (s : OrderSide) (w : World) : Nat := legSum n s (fun _ => 1) w

/-- Between the two states no limit order was placed. -/
structure Mild (w w' : World) : Prop extends Grows w w' where
  added : ∀ i, w.count ≤ i → i < w'.count → (w'.book i).orderType = .market

variable {n : Nat} {s : OrderSide} {w w' : World}

theorem Mild.refl (w : World) : Mild w w := ⟨.refl w,fun _ hl hr => absurd hr (not_lt.mpr hl)⟩

theorem Mild.trans {a b c : World} (h : Mild a b) (k : Mild b c) : Mild a c := by
  refine ⟨h.toGrows.trans k.toGrows,?_⟩
  intro i hl hr
  by_cases hi : i < b.count
  · exact (k.order i hi).orderType.trans (h.added i hl hi)
  · exact k.added i (not_lt.mp hi) hr

theorem mild_of_quiet (h : Quiet w w') : Mild w w' := by
  refine ⟨h.toGrows,?_⟩
  intro i hl hr
  rw [h.count_eq] at hr
  exact absurd hr (not_lt.mpr hl)

theorem onLeg_extends {o o' : BookOrder} (h : Extends o o') : OnLeg s o' ↔ OnLeg s o := by
  rw [OnLeg,OnLeg,h.orderType,h.side]

theorem sum_grows {M : Type} [AddCommMonoid M] (g : BookOrder → M) (h : Grows w w') :
    ∑ i ∈ Finset.Ico n w.count, (if OnLeg s (w'.book i) then g (w'.book i) else 0) =
      ∑ i ∈ Finset.Ico n w.count, if OnLeg s (w.book i) then g (w'.book i) else 0 := by
  apply Finset.sum_congr rfl
  intro i hi
  rw [if_congr (onLeg_extends (h.order i (Finset.mem_Ico.mp hi).2)) rfl rfl]

/-- Only the orders that were there before count. -/
theorem legSum_mild {M : Type} [AddCommMonoid M] (n : Nat) (s : OrderSide) (g : BookOrder → M)
    (h : Mild w w') :
    legSum n s g w' = ∑ i ∈ Finset.Ico n w.count, if OnLeg s (w.book i) then
      g (w'.book i) else 0 := by
  rw [← sum_grows g h.toGrows]
  symm
  apply Finset.sum_subset (Finset.Ico_subset_Ico_right h.count_le)
  intro i hi hnot
  obtain ⟨hl,hr⟩ := Finset.mem_Ico.mp hi
  have hnew : w.count ≤ i := by
    by_contra hlt
    exact hnot (Finset.mem_Ico.mpr ⟨hl,not_le.mp hlt⟩)
  have htype := h.added i hnew hr
  rw [if_neg]
  rintro ⟨hlimit,_⟩
  rw [hlimit] at htype
  cases htype

/-- A new limit order counts on its own leg. -/
theorem legSum_placed {M : Type} [AddCommMonoid M] {env : Env} {o placed : SimulatedOrder}
    (g : BookOrder → M) (hp : Placed env w o placed w') (hn : n ≤ w.count) :
    legSum n s g w' = (∑ i ∈ Finset.Ico n w.count, if OnLeg s (w.book i) then
      g (w'.book i) else 0) +
      if OnLeg s (World.fresh (env w.tick) o) then g (World.fresh (env w.tick) o) else 0 := by
  rw [legSum,hp.count_eq,Finset.sum_Ico_succ_top hn,hp.booked,sum_grows g hp.toGrows]

theorem legOrders_mild (h : Mild w w') (n : Nat) (s : OrderSide) :
    legOrders n s w' = legOrders n s w :=
  legSum_mild n s _ h

/-- Trading moves what is open to what is filled, and a cancel takes it away. -/
theorem filled_add_rest_le {o o' : BookOrder} (h : Extends o o') :
    o'.filled + rest o' ≤ o.filled + rest o := by
  unfold rest
  cases ho : o.live with
  | false =>
    obtain ⟨hdead,hfilled⟩ := h.dead ho
    simp [hdead,hfilled]
  | true =>
    cases ho' : o'.live with
    | false =>
      have hle := o'.filled_le
      rw [h.size] at hle
      simpa using hle
    | true => simp [h.size]

theorem sum_le_exposure (n : Nat) (s : OrderSide) (h : Grows w w') :
    (∑ i ∈ Finset.Ico n w.count, if OnLeg s (w.book i) then
      (w'.book i).filled + rest (w'.book i) else 0) ≤
      exposure n s w := by
  apply Finset.sum_le_sum
  intro i hi
  split
  · exact filled_add_rest_le (h.order i (Finset.mem_Ico.mp hi).2)
  · exact le_rfl

theorem exposure_mild (h : Mild w w') (n : Nat) (s : OrderSide) :
    exposure n s w' ≤ exposure n s w := by
  rw [exposure,legSum_mild n s _ h]
  exact sum_le_exposure n s h.toGrows

/-- Orders that are over are exposed with what they filled. -/
theorem exposure_dead (h : ∀ i, n ≤ i → i < w.count → OnLeg s (w.book i) →
    (w.book i).live = false) : exposure n s w = legFilled n s w := by
  unfold exposure legFilled legSum
  apply Finset.sum_congr rfl
  intro i hi
  obtain ⟨hl,hr⟩ := Finset.mem_Ico.mp hi
  split
  · next hleg => simp [rest,h i hl hr hleg]
  · rfl

end Books

section Requests

/-- The requests that place no limit order. -/
def Limitless : backend.Op → Prop
  | .placeOrder _ => False
  | .placeMarketOrder o => o.orderType = .market
  | _ => True

theorem limitless_of_asking {op : BackendOp} (h : Asking op) : Limitless op := by
  cases op with
  | placeOrder o => cases h
  | placeMarketOrder o => cases h
  | _ => trivial

theorem serve_mild (env : Env) (op : BackendOp) (h : Limitless op) (w : World) :
    Mild w ((exchanges env).serve op w).2 := by
  cases op with
  | placeOrder o => cases h
  | placeMarketOrder o =>
    refine ⟨serve_grows env _ w,?_⟩
    rw [serve_placeMarketOrder]
    unfold World.serveMarket
    intro i hl hr
    split at hr
    · exact absurd hr (not_lt.mpr hl)
    · have hi : i = w.count := by
        change i < w.count+1 at hr
        omega
      rw [hi,add_book,advance_count,if_pos rfl]
      exact (trade_orderType _ _).trans h
  | haltTrading _ => exact ⟨serve_grows env _ w,fun i hl hr => absurd hr (not_lt.mpr hl)⟩
  | dropHedgeLock _ => exact ⟨serve_grows env _ w,fun i hl hr => absurd hr (not_lt.mpr hl)⟩
  | tryAcquireHedgeLock symbol =>
    refine ⟨serve_grows env _ w,?_⟩
    intro i hl hr
    simp only [exchanges] at hr
    split at hr
    all_goals exact absurd hr (not_lt.mpr hl)
  | _ =>
    apply mild_of_quiet
    apply serve_quiet
    trivial

theorem Attempting.limitless {order : SimulatedOrder} (ho : order.orderType = .market)
    {op : BackendOp} (h : Attempting order op) : Limitless op := by
  cases op with
  | placeMarketOrder o =>
    obtain ⟨size,rfl⟩ := h
    exact ho
  | getOrderStatusDetailed | sleep => trivial
  | _ => cases h

theorem Closing.limitless {order : SimulatedOrder} {op : BackendOp} (h : Closing order op) :
    Limitless op := by
  cases op with
  | placeMarketOrder o =>
    obtain ⟨now,size,rfl⟩ := h
    rfl
  | placeOrder => cases h
  | _ => trivial

theorem Balancing.limitless {op : BackendOp} (h : Balancing op) : Limitless op := by
  cases op with
  | placeMarketOrder o => exact h
  | placeOrder => cases h
  | _ => trivial

section Entry

variable {opportunity : ArbitrageOpportunity}

theorem depthGate_limitless (side : OrderSide) (quantity : ℚ) (legs : Legs) :
    Prog.Only Limitless (depthGate opportunity side quantity legs) := by
  refine .exceptBind (.lift ((checkDepthForHedge_asks _ _ _ _).mono (fun _ => limitless_of_asking)))
    (fun r => ?_)
  obtain ⟨result,cache⟩ := r
  cases result with
  | error e => trivial
  | ok depth =>
    dsimp only
    split
    · refine .exceptBind (.lift ((emergency_closing _).mono (fun _ => Closing.limitless)))
        (fun r => ?_)
      cases r with
      | error e => trivial
      | ok u => trivial
    · trivial

theorem marketHedge_limitless {template : SimulatedOrder} (h : template.orderType = .market)
    (side : OrderSide) (quantity : ℚ) (legs : Legs) :
    Prog.Only Limitless (marketHedge template side quantity legs) := by
  refine .exceptBind (.lift
    ((marketAttempts_attempting _ _ _ _ _).mono (fun _ => Attempting.limitless h))) (fun r => ?_)
  cases r with
  | ok placed => trivial
  | error e =>
    refine .exceptBind (.lift ((emergency_closing _).mono (fun _ => Closing.limitless)))
      (fun r => ?_)
    cases r with
    | error e => trivial
    | ok u => trivial

theorem hedgeInLoop_limitless (side : OrderSide) (quantity : ℚ) (legs : Legs) :
    Prog.Only Limitless (hedgeInLoop opportunity side quantity legs) := by
  have hhedge : Prog.Only Limitless (do
      let legs ← depthGate opportunity side quantity legs
      let secs ← nowSecs
      let other := (legs.leg side.opposite).order
      let _ ← Backend.cancelOrder other.exchange other.id
      let legs ← marketHedge (marketTemplate opportunity side.opposite quantity secs) side
          quantity legs
      pure (.next legs) : Entry Flow) := by
    refine .exceptBind (depthGate_limitless _ _ _) (fun legs => ?_)
    refine .exceptBind (.lift ⟨trivial,fun _ => trivial⟩) (fun secs => ?_)
    refine .exceptBind (.lift ⟨trivial,fun _ => trivial⟩) (fun _ => ?_)
    exact .exceptBind (marketHedge_limitless rfl _ _ _) (fun _ => trivial)
  refine .exceptBind (.lift ((checkBothLegsStatus_asks _ _).mono (fun _ => limitless_of_asking)))
    (fun r => ?_)
  cases r with
  | error e => exact hhedge
  | ok status =>
    cases status with
    | bothFilled long short =>
      refine .exceptBind (.lift
        ((balanceLegs_balancing _ _ _ _).mono (fun _ => Balancing.limitless))) (fun legs => ?_)
      exact .exceptBind (.lift ⟨trivial,fun _ => trivial⟩) (fun secs => trivial)
    | _ => exact hhedge

theorem withHedgeLock_limitless (symbol : String) {body : Entry α} (h : Prog.Only Limitless body) :
    Prog.Only Limitless (withHedgeLock symbol body) := by
  refine .bind ⟨trivial,fun _ => trivial⟩ (fun r => ?_)
  cases r with
  | error e => trivial
  | ok u => exact .bind h (fun result => ⟨trivial,fun _ => trivial⟩)

theorem pollLeg_limitless (side : OrderSide) (legs : Legs) :
    Prog.Only Limitless (pollLeg opportunity side legs) := by
  unfold pollLeg
  dsimp only
  split
  · trivial
  · refine .exceptBind (.lift ⟨trivial,fun _ => trivial⟩) (fun r => ?_)
    cases r with
    | error e => trivial
    | ok info =>
      dsimp only
      split
      · refine .exceptBind (.lift ⟨trivial,fun _ => trivial⟩) (fun secs => ?_)
        split
        · trivial
        · exact withHedgeLock_limitless _ (hedgeInLoop_limitless _ _ _)
      split
      · trivial
      split
      · trivial
      · trivial

theorem checkSpread_limitless (config : RepricingConfig) (legs : Legs) :
    Prog.Only Limitless (checkSpread opportunity config legs) := by
  unfold checkSpread
  dsimp only
  split
  · exact .exceptBind (.lift ⟨trivial,fun _ => ⟨trivial,fun _ => trivial⟩⟩) (fun _ => trivial)
  · trivial

theorem checkReprices_limitless (config : RepricingConfig) (side : OrderSide) (legs : Legs) :
    Prog.Only Limitless (checkReprices config side legs) := by
  unfold checkReprices
  split
  · exact .exceptBind (.lift ⟨trivial,fun _ => ⟨trivial,fun _ => trivial⟩⟩) (fun _ => trivial)
  · trivial

end Entry

end Requests

section Keeping

/-- An open leg is the same as before. -/
def Keeps (legs legs' : Legs) : Prop := ∀ s, (legs'.leg s).filled = false → legs'.leg s = legs.leg s

theorem keeps_both {legs legs' : Legs} (h : ∀ s, (legs'.leg s).filled = true) :
    Keeps legs legs' := by
  intro s hs
  rw [h s] at hs
  cases hs

theorem pollLeg_keeps {opportunity : ArbitrageOpportunity} (side : OrderSide) (legs : Legs) :
    Flags.Gives (fun flow => Keeps legs (Flags.legsOf flow)) (pollLeg opportunity side legs) := by
  have hsame : Keeps legs legs := fun _ _ => rfl
  unfold pollLeg
  dsimp only
  split
  · exact Flags.gives_pure hsame
  · refine .any (fun r => ?_)
    cases r with
    | error e => exact Flags.gives_pure hsame
    | ok info =>
      dsimp only
      split
      · refine .any (fun secs => ?_)
        split
        · apply Flags.gives_pure
          intro s hs
          rw [Flags.legsOf,Flags.leg_set] at hs ⊢
          split at hs
          · cases hs
          · next hne => rw [if_neg hne]
        · refine Flags.withHedgeLock_flags _ ((Flags.hedgeInLoop_flags _ ?_).mono
            (fun flow => keeps_both))
          rw [Flags.leg_set,if_pos rfl]
          rfl
      split
      · exact Flags.gives_pure hsame
      split
      · exact Flags.gives_pure hsame
      · exact Flags.gives_pure hsame

end Keeping

section Chasing

/-- What the orders of a leg have filled leaves room for the `q` contracts of a new one, should it
be accepted. -/
def Room (env : Env) (n : Nat) (q : ℚ) (w : World) : BackendOp → Prop
  | .placeOrder o => (env w.tick).failure = none →
    legFilled n o.side w + World.booked (env w.tick) q ≤ q
  | _ => True

/-- A step does not take a leg over the number of its orders, nor over `q` if there is room. -/
structure Bounds (env : Env) (n : Nat) (q : ℚ) (orders : Nat) (w : World) (op : BackendOp)
    (w' : World) : Prop where
  count : ∀ s, legOrders n s w ≤ orders → legOrders n s w' ≤ orders
  quantity : Room env n q w op → ∀ s, exposure n s w ≤ q → exposure n s w' ≤ q

/-- The open leg on side `s`: its order is the last one placed on the leg, and the others are
over. -/
structure Chased (n : Nat) (q : ℚ) (s : OrderSide) (leg : Leg) (w : World) : Prop where
  side : leg.order.side = s
  limit : leg.order.orderType = .limit
  size : leg.order.size = q
  booked : leg.order.id < w.count
  others : ∀ i, n ≤ i → i < w.count → OnLeg s (w.book i) → i ≠ leg.order.id →
    (w.book i).live = false
  orders : legOrders n s w = leg.repriceCount+1

/-- Both legs while the loop goes on. -/
structure Chasing (n : Nat) (q : ℚ) (legs : Legs) (w : World) : Prop where
  from_le : n ≤ w.count
  chased : ∀ s, (legs.leg s).filled = false → Chased n q s (legs.leg s) w

variable {env : Env} {C : World → BackendOp → Prop} {n orders : Nat} {q : ℚ}
  {s : OrderSide} {leg : Leg}
  {legs legs' : Legs} {w w' : World}

theorem bounds_mild (h : Mild w w') (op : BackendOp) : Bounds env n q orders w op w' where
  count s hs := by
    rw [legOrders_mild h n s]
    exact hs
  quantity _ s hs := (exposure_mild h n s).trans hs

theorem Chased.mild (h : Chased n q s leg w) (hm : Mild w w') : Chased n q s leg w' where
  side := h.side
  limit := h.limit
  size := h.size
  booked := h.booked.trans_le hm.count_le
  orders := (legOrders_mild hm n s).trans h.orders
  others := by
    intro i hl hr hleg hne
    by_cases hi : i < w.count
    · have he := hm.order i hi
      exact (he.dead (h.others i hl hi ((onLeg_extends he).mp hleg) hne)).1
    · have htype := hm.added i (not_lt.mp hi) hr
      rw [hleg.1] at htype
      cases htype

theorem Chasing.mild (h : Chasing n q legs w) (hm : Mild w w') (hk : Keeps legs legs') :
    Chasing n q legs' w' where
  from_le := h.from_le.trans hm.count_le
  chased := by
    intro s hs
    have hsame := hk s hs
    rw [hsame] at hs ⊢
    exact (h.chased s hs).mild hm

/-- A program that places no limit order. -/
theorem wpr_limitless {Q : α → Prop} {p : Prog backend α} (hp : p.Only Limitless) (hq : p.Returns Q)
    (w : World) :
    (exchanges env).wpr (· = ·) C (Bounds env n q orders) p (fun a w' => Q a ∧ Mild w w') w := by
  refine wpr_returns Mild.refl (fun _ _ _ => Mild.trans) ?_ ?_ hp hq w
  · rintro a b rfl
    exact .refl a
  · intro op w hop _
    have hm := serve_mild env op hop w
    exact ⟨bounds_mild hm op,hm⟩

theorem wpr_asking {p : Prog backend α} (hp : p.Only Asking) (w : World) :
    (exchanges env).wpr (· = ·) C (Bounds env n q orders) p (fun _ w' => Mild w w') w :=
  wpr_mono (wpr_limitless (hp.mono (fun _ => limitless_of_asking)) (Prog.returns_true p) w)
    (fun _ _ h => h.2)

/-- A cancel that was accepted leaves the order over. -/
theorem wpr_cancel (exchange : String) (id : OrderId) (w : World) :
    (exchanges env).wpr (· = ·) C (Bounds env n q orders) (Backend.cancelOrder exchange id)
      (fun r w' => Mild w w' ∧ (r = .ok () → (w'.book id).live = false)) w := by
  rintro v rfl hc
  have hm := serve_mild env (.cancelOrder exchange id) trivial w
  refine ⟨bounds_mild hm _,hm,?_⟩
  rw [serve_cancelOrder]
  unfold World.serveCancel
  split
  · intro h
    cases h
  · intro _
    rw [setOrder_book,if_pos rfl]
    exact kill_live _

theorem onLeg_fresh {o : SimulatedOrder} (ho : o.side = s) (ht : o.orderType = .limit) (c : Move)
    (t : OrderSide) : OnLeg t (World.fresh c o) ↔ s = t := by
  change o.orderType = .limit ∧ o.side = t ↔ s = t
  simp [ht,ho]

/-- A new order is exposed with all of its size. -/
theorem fresh_exposed (c : Move) (o : SimulatedOrder) :
    (World.fresh c o).filled + rest (World.fresh c o) = World.booked c o.size := by
  have hnonneg : 0 ≤ World.booked c o.size := (World.fresh c o).filled_le
  unfold rest
  cases hlive : (World.fresh c o).live with
  | true => simp [World.fresh]
  | false =>
    have hzero := ((dead_iff _).mp hlive).resolve_left (by simp [World.fresh])
    simpa [World.fresh] using hzero

/-- A new order for a leg whose other orders are over. -/
theorem bounds_placed {o placed : SimulatedOrder} (hp : Placed env w o placed w') (ho : o.side = s)
    (ht : o.orderType = .limit) (hsize : o.size = q) (hn : n ≤ w.count)
    (hdead : ∀ i, n ≤ i → i < w.count → OnLeg s (w.book i) → (w.book i).live = false)
    (hc : legOrders n s w < orders) : Bounds env n q orders w (.placeOrder o) w' where
  count t hle := by
    have hsum : legOrders n t w' = legOrders n t w + if s = t then 1 else 0 := by
      rw [legOrders,legSum_placed _ hp hn,if_congr (onLeg_fresh ho ht _ t) rfl rfl]
      rfl
    rw [hsum]
    split
    · next heq =>
      rw [← heq]
      exact hc
    · exact hle
  quantity hroom t hle := by
    have hfilled := hroom hp.accepted
    have hold := sum_le_exposure n t hp.toGrows
    have hnew := fresh_exposed (env w.tick) o
    rw [hsize] at hnew
    rw [exposure,legSum_placed _ hp hn,if_congr (onLeg_fresh ho ht _ t) rfl rfl]
    split
    · next heq =>
      rw [ho] at hfilled
      rw [← heq,exposure_dead hdead] at hold
      rw [← heq]
      linarith
    · linarith

theorem wpr_place {o : SimulatedOrder} (ho : o.side = s) (ht : o.orderType = .limit)
    (hsize : o.size = q) (hn : n ≤ w.count)
    (hdead : ∀ i, n ≤ i → i < w.count → OnLeg s (w.book i) → (w.book i).live = false)
    (hc : legOrders n s w < orders) {Q : Except String SimulatedOrder → World → Prop}
    (herr : ∀ e w', Mild w w' → Q (.error e) w')
    (hok : ∀ placed w', Placed env w o placed w' → Q (.ok placed) w') :
    (exchanges env).wpr (· = ·) C (Bounds env n q orders) (Backend.placeOrder o) Q w := by
  rintro v rfl _
  have hserve : (exchanges env).wp (fun _ _ => True) (Backend.placeOrder o)
      (fun r w' => Bounds env n q orders w (.placeOrder o) w' ∧ Q r w') w := by
    apply wp_placeOrder
    · intro e w' hq
      have hm := mild_of_quiet hq
      exact ⟨bounds_mild hm _,herr e w' hm⟩
    · intro _ placed w' hp
      exact ⟨bounds_placed hp ho ht hsize hn hdead hc,hok placed w' hp⟩
  exact hserve trivial

/-- The leg with its new order. -/
theorem chased_placed {o : SimulatedOrder} (hp : Placed env w o leg.order w') (ho : o.side = s)
    (ht : o.orderType = .limit) (hsize : o.size = q) (hn : n ≤ w.count)
    (hdead : ∀ i, n ≤ i → i < w.count → OnLeg s (w.book i) → (w.book i).live = false)
    (hc : legOrders n s w = leg.repriceCount) : Chased n q s leg w' where
  side := hp.side_eq.trans ho
  limit := hp.type_eq.trans ht
  size := hp.size_eq.trans hsize
  booked := by
    rw [hp.id_eq,hp.count_eq]
    exact Nat.lt_succ_self _
  others := by
    intro i hl hr hleg hne
    rw [hp.id_eq] at hne
    rw [hp.count_eq] at hr
    have hi : i < w.count := by omega
    have he := hp.order i hi
    exact (he.dead (hdead i hl hi ((onLeg_extends he).mp hleg))).1
  orders := by
    rw [legOrders,legSum_placed _ hp hn,if_pos ((onLeg_fresh ho ht _ s).mpr rfl)]
    exact congrArg (· + 1) hc

/-- A new order on one leg leaves the other one as it is. -/
theorem chased_other {o placed : SimulatedOrder} {t : OrderSide} (h : Chased n q t leg w)
    (hp : Placed env w o placed w') (ho : o.side = s) (ht : o.orderType = .limit) (hn : n ≤ w.count)
    (hne : s ≠ t) : Chased n q t leg w' where
  side := h.side
  limit := h.limit
  size := h.size
  booked := h.booked.trans_le hp.count_le
  others := by
    intro i hl hr hleg hi
    rw [hp.count_eq] at hr
    by_cases hold : i < w.count
    · have he := hp.order i hold
      exact (he.dead (h.others i hl hold ((onLeg_extends he).mp hleg) hi)).1
    · have hnew : i = w.count := by omega
      rw [hnew,hp.booked] at hleg
      exact absurd ((onLeg_fresh ho ht _ t).mp hleg) hne
  orders := by
    rw [legOrders,legSum_placed _ hp hn,if_neg (fun hleg => hne ((onLeg_fresh ho ht _ t).mp hleg)),
      add_zero]
    exact h.orders

variable {config : RepricingConfig}

theorem wpr_now (w : World) :
    (exchanges env).wpr (· = ·) C (Bounds env n q orders) Backend.now (fun _ w' => Mild w w') w :=
  wpr_asking (p := Backend.now) ⟨trivial,fun _ => trivial⟩ w

/-- A reprice: the order of the leg is cancelled before another one is placed. -/
theorem wpr_repriceOrder (price : ℚ) (hleg : Chased n q s leg w) (hn : n ≤ w.count)
    (hc : leg.repriceCount+1 < orders) :
    (exchanges env).wpr (· = ·) C (Bounds env n q orders) (repriceOrder leg.order price leg.metrics)
      (Ends (fun w' => Mild w w') (fun new w' => n ≤ w'.count ∧
        Chased n q s (repriced leg new.1 new.2) w' ∧ ∀ t other, s ≠ t → Chased n q t other w →
        Chased n q t other w')) w := by
  unfold repriceOrder
  refine wpr_bind.mpr (wpr_mono (wpr_now w) (fun start w₁ hm₁ => ?_))
  refine wpr_bind.mpr (wpr_mono (wpr_cancel _ _ w₁) (fun r w₂ hr => ?_))
  obtain ⟨hm₂,hdead⟩ := hr
  have hm : Mild w w₂ := hm₁.trans hm₂
  cases r with
  | error e => exact hm
  | ok u =>
    refine wpr_bind.mpr (wpr_mono (wpr_now w₂) (fun created w₃ hm₃ => ?_))
    have h₃ : Chased n q s leg w₃ := hleg.mild (hm.trans hm₃)
    have hn₃ : n ≤ w₃.count := hn.trans (hm.trans hm₃).count_le
    have hover : ∀ i, n ≤ i → i < w₃.count → OnLeg s (w₃.book i) → (w₃.book i).live = false := by
      intro i hl hr hi
      by_cases hid : i = leg.order.id
      · have hbooked := (hleg.mild hm).booked
        rw [hid]
        exact ((hm₃.order _ hbooked).dead (hdead rfl)).1
      · exact h₃.others i hl hr hi hid
    have hroom : legOrders n s w₃ < orders := by
      rw [h₃.orders]
      exact hc
    have ho : { leg.order with price, id := 0, createdAt := created / 1000 }.side = s := h₃.side
    have ht : { leg.order with price, id := 0, createdAt := created / 1000 }.orderType = .limit :=
      h₃.limit
    have hsize : { leg.order with price, id := 0, createdAt := created / 1000 }.size = q := h₃.size
    refine wpr_bind.mpr (wpr_place ho ht hsize hn₃ hover hroom (fun e w₄ hm₄ => ?_)
      (fun placed w₄ hp => ?_))
    · exact hm.trans (hm₃.trans hm₄)
    · refine wpr_bind.mpr (wpr_mono (wpr_now w₄) (fun done w₅ hm₅ => ?_))
      refine ⟨hn₃.trans (hp.count_le.trans hm₅.count_le),?_,?_⟩
      · have hnew : ∀ metrics, Chased n q s (repriced leg placed metrics) w₄ :=
          fun _ => chased_placed hp ho ht hsize hn₃ hover h₃.orders
        exact (hnew _).mild hm₅
      · intro t other hne hother
        exact (chased_other (hother.mild (hm.trans hm₃)) hp ho ht hn₃ hne).mild hm₅

theorem wpr_chaseLeg (side : OrderSide) (h : Chasing n q legs w) :
    (exchanges env).wpr (· = ·) C (Bounds env n q (config.maxReprices+1))
      (chaseLeg config side legs)
      (fun legs' w' => Chasing n q legs' w') w := by
  have hkeep : ∀ {w'}, Mild w w' → Chasing n q legs w' := fun hm => h.mild hm (fun _ _ => rfl)
  unfold chaseLeg
  dsimp only
  split
  · next hgo =>
    rw [Bool.and_eq_true] at hgo
    have hopen : (legs.leg side).filled = false := by simpa using hgo.1
    have hcount : (legs.leg side).repriceCount < config.maxReprices := by simpa using hgo.2
    refine wpr_bind.mpr (wpr_mono (wpr_asking (getBestPriceForOrder_asks _) w) (fun r w₁ hm₁ => ?_))
    have h₁ := hkeep hm₁
    cases r with
    | error e => exact h₁
    | ok best =>
      dsimp only
      split
      · refine wpr_bind.mpr (wpr_mono
          (wpr_repriceOrder best (h₁.chased side hopen) h₁.from_le (by omega))
          (fun r w₂ hr => ?_))
        cases r with
        | error e => exact h₁.mild hr (fun _ _ => rfl)
        | ok new =>
          obtain ⟨hn,hnew,hother⟩ := hr
          refine ⟨hn,?_⟩
          intro t ht
          rw [Flags.leg_set] at ht ⊢
          split
          · next heq =>
            rw [heq]
            exact hnew
          · next hne =>
            rw [if_neg hne] at ht
            exact hother t _ (Ne.symm hne) (h₁.chased t ht)
      · exact h₁
  · exact h

end Chasing

section Loop

variable {env : Env} {C : World → BackendOp → Prop} {n orders : Nat} {q : ℚ}
  {legs : Legs} {w : World}
  {opportunity : ArbitrageOpportunity} {config : RepricingConfig}

theorem wpr_pollLeg (side : OrderSide) (h : Chasing n q legs w) :
    (exchanges env).wpr (· = ·) C (Bounds env n q orders) (pollLeg opportunity side legs)
      (Ends (fun _ => True) (fun flow w' => Chasing n q (Flags.legsOf flow) w')) w := by
  refine wpr_mono (wpr_limitless (pollLeg_limitless side legs) (pollLeg_keeps side legs) w)
    (fun r w' hr => ?_)
  cases r with
  | error e => trivial
  | ok flow => exact h.mild hr.2 hr.1

/-- A check that may end the loop. -/
theorem wpr_check {x : Entry Unit} (hx : Prog.Only Limitless x) (h : Chasing n q legs w) :
    (exchanges env).wpr (· = ·) C (Bounds env n q orders)
      (x : Prog backend (Except EntryError Unit))
      (Ends (fun _ => True) (fun _ w' => Chasing n q legs w')) w := by
  refine wpr_mono (wpr_limitless hx (Prog.returns_true _) w) (fun r w' hr => ?_)
  cases r with
  | error e => trivial
  | ok u => exact h.mild hr.2 (fun _ _ => rfl)

theorem wpr_pollShort (h : Chasing n q legs w) :
    (exchanges env).wpr (· = ·) C (Bounds env n q (config.maxReprices+1))
      (pollShort opportunity config legs)
      (Ends (fun _ => True) (fun flow w' => Chasing n q (Flags.legsOf flow) w')) w := by
  refine wpr_ends_bind (wpr_pollLeg .short h) (fun flow w₁ h₁ => ?_)
  cases flow with
  | again l => exact h₁
  | stop l => exact h₁
  | next l =>
    refine wpr_ends_lift (wpr_mono (wpr_chaseLeg .short h₁) (fun legs₂ w₂ h₂ => ?_))
    refine wpr_ends_bind (wpr_check (checkSpread_limitless _ _) h₂) (fun _ w₃ h₃ => ?_)
    refine wpr_ends_bind (wpr_check (checkReprices_limitless _ _ _) h₃) (fun _ w₄ h₄ => ?_)
    refine wpr_ends_bind (wpr_check (checkReprices_limitless _ _ _) h₄) (fun _ w₅ h₅ => ?_)
    split
    · exact h₅
    · exact h₅

theorem wpr_pollOnce (h : Chasing n q legs w) :
    (exchanges env).wpr (· = ·) C (Bounds env n q (config.maxReprices+1))
      (pollOnce opportunity config legs)
      (Ends (fun _ => True) (fun flow w' => Chasing n q (Flags.legsOf flow) w')) w := by
  have hsleep : (Backend.sleep config.repriceIntervalMs).Only Asking := ⟨trivial,fun _ => trivial⟩
  refine wpr_ends_lift (wpr_mono (wpr_asking hsleep w) (fun _ w₁ hm₁ => ?_))
  refine wpr_ends_bind (wpr_pollLeg .long (h.mild hm₁ (fun _ _ => rfl))) (fun flow w₂ h₂ => ?_)
  cases flow with
  | again l => exact h₂
  | stop l => exact h₂
  | next l =>
    exact wpr_ends_lift (wpr_mono (wpr_chaseLeg .long h₂) (fun _ _ h₃ => wpr_pollShort h₃))

/-- The loop, by induction on the turns that are left. -/
theorem wpr_pollLoop (start turns : Nat) (h : Chasing n q legs w) :
    (exchanges env).wpr (· = ·) C (Bounds env n q (config.maxReprices+1))
      (pollLoop opportunity config start turns legs)
        (Ends (fun _ => True) (fun legs' w' => Chasing n q legs' w')) w := by
  induction turns generalizing legs w with
  | zero => exact h
  | succ turns ih =>
    refine wpr_ends_lift (wpr_mono (wpr_now w) (fun instant w₁ hm₁ => ?_))
    have h₁ : Chasing n q legs w₁ := h.mild hm₁ (fun _ _ => rfl)
    split
    · refine wpr_ends_bind (wpr_pollOnce h₁) (fun flow w₂ h₂ => ?_)
      cases flow with
      | next l => exact ih h₂
      | again l => exact ih h₂
      | stop l => exact h₂
    · exact h₁

end Loop

section Entering

variable {env : Env} {C : World → BackendOp → Prop} {n orders : Nat} {q : ℚ} {w w' : World}
  {opportunity : ArbitrageOpportunity} {s : OrderSide}

/-- No order of the leg was placed yet. -/
def Untouched (n : Nat) (s : OrderSide) (w : World) : Prop :=
  ∀ i, n ≤ i → i < w.count → ¬OnLeg s (w.book i)

theorem Untouched.none (h : Untouched n s w) : legOrders n s w = 0 := by
  unfold legOrders legSum
  apply Finset.sum_eq_zero
  intro i hi
  obtain ⟨hl,hr⟩ := Finset.mem_Ico.mp hi
  rw [if_neg (h i hl hr)]

theorem Untouched.mild (h : Untouched n s w) (hm : Mild w w') : Untouched n s w' := by
  intro i hl hr hleg
  by_cases hi : i < w.count
  · exact h i hl hi ((onLeg_extends (hm.order i hi)).mp hleg)
  · have htype := hm.added i (not_lt.mp hi) hr
    rw [hleg.1] at htype
    cases htype

theorem Untouched.other {o placed : SimulatedOrder} {t : OrderSide} (h : Untouched n t w)
    (hp : Placed env w o placed w') (ho : o.side = s) (ht : o.orderType = .limit)
    (hne : s ≠ t) : Untouched n t w' := by
  intro i hl hr hleg
  rw [hp.count_eq] at hr
  by_cases hi : i < w.count
  · exact h i hl hi ((onLeg_extends (hp.order i hi)).mp hleg)
  · have hnew : i = w.count := by omega
    rw [hnew,hp.booked] at hleg
    exact hne ((onLeg_fresh ho ht _ t).mp hleg)

/-- An entry order, and what is asked of the leg when it was accepted. -/
theorem wpr_first {secs : Nat} (h : Untouched n s w) (hn : n ≤ w.count) (ho : 0 < orders)
    {Q : Except String SimulatedOrder → World → Prop} (herr : ∀ e w', Mild w w' → Q (.error e) w')
    (hok : ∀ placed w', Placed env w (limitTemplate opportunity s q secs) placed w' →
      Chased n q s (.new placed) w' → Q (.ok placed) w') :
    (exchanges env).wpr (· = ·) C (Bounds env n q orders)
      (Backend.placeOrder (limitTemplate opportunity s q secs)) Q w := by
  have hover : ∀ i, n ≤ i → i < w.count → OnLeg s (w.book i) → (w.book i).live = false :=
    fun i hl hr hleg => absurd hleg (h i hl hr)
  apply wpr_place rfl rfl rfl hn hover (h.none ▸ ho) herr
  intro placed w' hp
  exact hok placed w' hp (chased_placed hp rfl rfl rfl hn hover h.none)

theorem wpr_placeEntry (secs : Nat) (cache : DepthCache) (hn : n = w.count) (ho : 0 < orders) :
    (exchanges env).wpr (· = ·) C (Bounds env n q orders) (placeEntry opportunity q secs cache)
      (Ends (fun _ => True) (fun legs w' => Chasing n q legs w')) w := by
  have hnone : ∀ s, Untouched n s w := fun s i hl hr => absurd hr (by omega)
  refine wpr_ends_lift (wpr_first (hnone .long) hn.le ho (fun e w₁ hm₁ => ?_)
    (fun long w₁ hp₁ hlong => ?_))
  · refine wpr_ends_lift (wpr_first ((hnone .short).mild hm₁) (hn.le.trans hm₁.count_le) ho
      (fun _ _ _ => ?_) (fun _ _ _ _ => ?_))
    · trivial
    · trivial
  · have hshort := (hnone .short).other hp₁ rfl rfl OrderSide.noConfusion
    refine wpr_ends_lift (wpr_first hshort (hn.le.trans hp₁.count_le) ho (fun e w₂ hm₂ => ?_)
      (fun short w₂ hp₂ hshort => ?_))
    · exact wpr_ends_lift (wpr_mono (wpr_cancel _ _ w₂) (fun _ _ _ => trivial))
    · refine ⟨hn.le.trans (hp₁.count_le.trans hp₂.count_le),?_⟩
      intro s _
      cases s with
      | long =>
        exact chased_other hlong hp₂ rfl rfl (hn.le.trans hp₁.count_le) OrderSide.noConfusion
      | short => exact hshort

/-- The entry up to the end of the polling loop: what `executeAtomicEntryReal` does between its
checks and the final check of the legs. -/
def chase (opportunity : ArbitrageOpportunity) (config : RepricingConfig) (quantity : ℚ)
    (secs : Nat) (cache : DepthCache) (turns : Nat) : Entry Legs := do
  let legs ← placeEntry opportunity quantity secs cache
  let start ← Backend.now
  pollLoop opportunity config start turns legs

theorem wpr_chase (opportunity : ArbitrageOpportunity) (config : RepricingConfig) (quantity : ℚ)
    (secs : Nat) (cache : DepthCache) (turns : Nat) (w : World) :
    (exchanges env).wpr (· = ·) C (Bounds env w.count quantity (config.maxReprices+1))
      (chase opportunity config quantity secs cache turns)
      (Ends (fun _ => True) (fun legs w' => Chasing w.count quantity legs w')) w := by
  refine wpr_ends_bind (wpr_placeEntry secs cache rfl (Nat.succ_pos _)) (fun legs w₁ h₁ => ?_)
  refine wpr_ends_lift (wpr_mono (wpr_now w₁) (fun start w₂ hm => ?_))
  exact wpr_pollLoop start turns (h₁.mild hm (fun _ _ => rfl))

/-- In a run whose placements leave room the exposure of no leg goes over the quantity. -/
theorem exposure_bounded {quantity : ℚ} (hq : 0 ≤ quantity) (opportunity : ArbitrageOpportunity)
    (config : RepricingConfig) (secs : Nat) (cache : DepthCache) (turns : Nat) {w v : World}
    (hv : (exchanges env).Visits (Room env w.count quantity)
      (chase opportunity config quantity secs cache turns) w v) (s : OrderSide) :
    exposure w.count s v ≤ quantity := by
  have hw : ∀ s, exposure w.count s w ≤ quantity := by
    intro s
    simpa [exposure,legSum] using hq
  exact visits_of_wpr (I := fun v => ∀ s, exposure w.count s v ≤ quantity)
    (fun _ _ _ hroom hb ha t => hb.quantity hroom t (ha t))
    (wpr_chase opportunity config quantity secs cache turns w) hw hv s

theorem orders_bounded (opportunity : ArbitrageOpportunity) (config : RepricingConfig)
    (quantity : ℚ) (secs : Nat) (cache : DepthCache) (turns : Nat) {w v : World}
    (hv : (exchanges env).Visits (fun _ _ => True)
    (chase opportunity config quantity secs cache turns) w v) (s : OrderSide) :
    legOrders w.count s v ≤ config.maxReprices+1 := by
  have hw : ∀ s, legOrders w.count s w ≤ config.maxReprices+1 := by
    intro s
    simp [legOrders,legSum]
  exact visits_of_wpr (I := fun v => ∀ s, legOrders w.count s v ≤ config.maxReprices+1)
    (fun _ _ _ _ hb ha t => hb.count t (ha t))
    (wpr_chase opportunity config quantity secs cache turns w) hw hv s

end Entering

section Single

variable {env : Env} {w : World} {order : SimulatedOrder}

/-- What an order and the one that may have replaced it have filled and can still trade. -/
def held (order : SimulatedOrder)
    (out : Except String (SimulatedOrder × RepricingMetrics) × World) : ℚ :=
  (out.2.book order.id).filled + rest (out.2.book order.id) +
    match out.1 with
    | .ok new => (out.2.book new.1.id).filled + rest (out.2.book new.1.id)
    | .error _ => 0

theorem filled_add_rest_le_size (o : BookOrder) : o.filled + rest o ≤ o.size := by
  unfold rest
  split
  · simp
  · simpa using o.filled_le

/-- A failed cancel ends the reprice. -/
theorem reprice_refused (newPrice : ℚ) (metrics : RepricingMetrics) {e : String}
    (hf : (env w.tick).failure = some e) :
    (exchanges env).run (repriceOrder order newPrice metrics) w =
      (.error s!"Failed to cancel order: {e}",w.advance env) := by
  simp [repriceOrder,World.serveCancel,hf]

/-- The books after an accepted cancel. -/
def cancelled (env : Env) (w : World) (id : OrderId) : World :=
  (w.advance env).setOrder id ((w.advance env).book id).kill

theorem reprice_unplaced (newPrice : ℚ) (metrics : RepricingMetrics) {e : String}
    (hf : (env w.tick).failure = none) (hp : (env (w.tick+1)).failure = some e) :
    (exchanges env).run (repriceOrder order newPrice metrics) w =
      (.error s!"Failed to place repriced order: {e}",(cancelled env w order.id).advance env) := by
  simp [repriceOrder,World.serveCancel,World.servePlace,hf,hp,cancelled]

/-- An accepted reprice leaves the old order over and a new one for the full size. -/
theorem reprice_placed (order : SimulatedOrder) (newPrice : ℚ) (metrics : RepricingMetrics)
    (hf : (env w.tick).failure = none) (hp : (env (w.tick+1)).failure = none) :
    ∃ o, o.size = order.size ∧
      ((exchanges env).run (repriceOrder order newPrice metrics) w).2 =
        ((cancelled env w order.id).advance env).add (World.fresh (env (w.tick+1)) o) ∧
      ∃ new, ((exchanges env).run (repriceOrder order newPrice metrics) w).1 = .ok new ∧
        new.1.id = w.count := by
  refine ⟨{ order with price := newPrice, id := 0, createdAt := (cancelled env w
    order.id).clock / 1000 },rfl,?_,?_⟩
  · simp [repriceOrder,World.serveCancel,World.servePlace,hf,hp,cancelled]
  · simp [repriceOrder,World.serveCancel,World.servePlace,hf,hp]

/-- A cancelled order trades no more. -/
theorem cancelled_dead (env : Env) (w : World) (id : OrderId) :
    (((cancelled env w id).advance env).book id).live = false ∧
      (((cancelled env w id).advance env).book id).filled = ((w.advance env).book id).filled := by
  have hkilled : (cancelled env w id).book id = ((w.advance env).book id).kill := by
    simp [cancelled]
  have hbook : ((cancelled env w id).advance env).book id = ((w.advance env).book id).kill := by
    rw [advance_book,hkilled,trade_dead (kill_live _)]
  rw [hbook]
  exact ⟨kill_live _,rfl⟩

theorem rest_dead {o : BookOrder} (h : o.live = false) : rest o = 0 := by
  simp [rest,h]

/-- A reprice keeps within the size of the order unless both requests are accepted, and then if what
the order had filled leaves room for the new one. -/
theorem held_le_iff (newPrice : ℚ) (metrics : RepricingMetrics) (hid : order.id < w.count)
    (hsize : (w.book order.id).size ≤ order.size) :
    held order ((exchanges env).run (repriceOrder order newPrice metrics) w) ≤ order.size ↔
      (env w.tick).failure ≠ none ∨ (env (w.tick+1)).failure ≠ none ∨
        ((w.advance env).book order.id).filled + World.booked (env (w.tick+1)) order.size ≤
          order.size := by
  have hbound : ∀ w', Grows w w' → (w'.book order.id).filled + rest (w'.book order.id) ≤
      order.size := by
    intro w' hg
    have hle := filled_add_rest_le_size (w'.book order.id)
    rw [(hg.order _ hid).size] at hle
    exact hle.trans hsize
  have hgrows := run_grows env (repriceOrder order newPrice metrics) w
  cases hf : (env w.tick).failure with
  | some e =>
    rw [reprice_refused newPrice metrics hf] at hgrows ⊢
    have hle := hbound _ hgrows
    simpa [held] using hle
  | none =>
    cases hp : (env (w.tick+1)).failure with
    | some e =>
      rw [reprice_unplaced newPrice metrics hf hp] at hgrows ⊢
      have hle := hbound _ hgrows
      simpa [held] using hle
    | none =>
      obtain ⟨o,ho,hbooks,new,hnew,hnewid⟩ := reprice_placed order newPrice metrics hf hp
      obtain ⟨hdead,hfilled⟩ := cancelled_dead env w order.id
      have hcount : ((cancelled env w order.id).advance env).count = w.count := rfl
      have hexposed := fresh_exposed (env (w.tick+1)) o
      rw [ho] at hexposed
      unfold held
      rw [hnew,hbooks]
      dsimp only
      rw [hnewid,add_book,add_book,hcount,if_neg hid.ne,if_pos rfl,rest_dead hdead,hfilled,
        add_zero,hexposed]
      simp

theorem run_best (env : Env) (o : SimulatedOrder) (w : World) :
    ∃ text, (exchanges env).run (getBestPriceForOrder o) w =
      ((World.answer (env w.tick) (env w.tick).value).mapError text,w.advance env) := by
  unfold getBestPriceForOrder
  split
  · refine ⟨fun e => s!"Failed to get best bid: {e}",?_⟩
    simp
  · refine ⟨fun e => s!"Failed to get best ask: {e}",?_⟩
    simp

/-- A failed cancel in the loop leaves the leg and its metrics as they were, and nothing new in the
books. -/
theorem chaseLeg_refused (config : RepricingConfig) (side : OrderSide) (legs : Legs)
    (hf : (env (w.tick+1)).failure ≠ none) :
    ((exchanges env).run (chaseLeg config side legs) w).1 = legs ∧
      ((exchanges env).run (chaseLeg config side legs) w).2.count = w.count := by
  obtain ⟨e,he⟩ := Option.ne_none_iff_exists'.mp hf
  unfold chaseLeg
  dsimp only
  split
  · obtain ⟨text,hbest⟩ := run_best env (legs.leg side).order w
    rw [run_bind,hbest]
    cases ((World.answer (env w.tick) (env w.tick).value).mapError text) with
    | error e => exact ⟨rfl,rfl⟩
    | ok best =>
      dsimp only
      split
      · rw [run_bind,reprice_refused (w := w.advance env) best _ he]
        exact ⟨rfl,rfl⟩
      · exact ⟨rfl,rfl⟩
  · exact ⟨rfl,rfl⟩

/-- A reprice within the size of its order, a failed cancel, and the entry: the exposure of a leg in
the runs whose placements leave room for what the leg has filled, and the number of its orders in
all runs. -/
theorem repricing_exposure (env : Env) :
    (∀ order newPrice metrics w, order.id < w.count → (w.book order.id).size ≤ order.size →
      (held order ((exchanges env).run (repriceOrder order newPrice metrics) w) ≤ order.size ↔
        (env w.tick).failure ≠ none ∨ (env (w.tick+1)).failure ≠ none ∨
          ((w.advance env).book order.id).filled + World.booked (env (w.tick+1)) order.size ≤
            order.size)) ∧
    (∀ order newPrice metrics w e, (env w.tick).failure = some e →
      (exchanges env).run (repriceOrder order newPrice metrics) w =
        (.error s!"Failed to cancel order: {e}",w.advance env)) ∧
    (∀ config side legs w, (env (w.tick+1)).failure ≠ none →
      ((exchanges env).run (chaseLeg config side legs) w).1 = legs ∧
        ((exchanges env).run (chaseLeg config side legs) w).2.count = w.count) ∧
    (∀ opportunity config quantity secs cache turns w v, 0 ≤ quantity →
      (exchanges env).Visits (Room env w.count quantity)
        (chase opportunity config quantity secs cache turns) w v →
      ∀ s, exposure w.count s v ≤ quantity) ∧
    (∀ opportunity config quantity secs cache turns w v,
      (exchanges env).Visits (fun _ _ => True)
        (chase opportunity config quantity secs cache turns) w v →
      ∀ s, legOrders w.count s v ≤ config.maxReprices+1) := by
  refine ⟨?_,?_,?_,?_,?_⟩
  · intro order newPrice metrics w hid hsize
    exact held_le_iff newPrice metrics hid hsize
  · intro order newPrice metrics w e hf
    exact reprice_refused newPrice metrics hf
  · intro config side legs w hf
    exact chaseLeg_refused config side legs hf
  · intro opportunity config quantity secs cache turns w v hq hv s
    exact exposure_bounded hq opportunity config secs cache turns hv s
  · intro opportunity config quantity secs cache turns w v hv s
    exact orders_bounded opportunity config quantity secs cache turns hv s

/-- An order for ten contracts and the books that hold it. -/
def ten : SimulatedOrder where
  id := 0
  exchange := "bybit"
  symbol := "BTCUSDT"
  side := .long
  orderType := .limit
  price := 100
  size := 10
  queuePosition := none
  createdAt := 0
  filledAt := none
  fillPrice := none
  status := .pending

def holdsTen : World := World.empty.add (World.fresh {} ten)

theorem holdsTen_size : (holdsTen.book ten.id).size = ten.size := by
  simp [holdsTen,ten,World.empty,World.fresh,World.booked]

/-- Nothing was filled: the new order takes the place of the old one. -/
theorem untouched_reprice_exposure :
    held ten ((exchanges fun _ => {}).run (repriceOrder ten 101 (.new 100)) holdsTen) ≤
      ten.size := by
  have hroom : ((holdsTen.advance fun _ => {}).book ten.id).filled + World.booked {} ten.size ≤
      ten.size := by
    simp [holdsTen,ten,World.empty,World.fresh,World.booked,BookOrder.trade,BookOrder.live]
  exact ((repricing_exposure fun _ => {}).1 ten 101 (.new 100) holdsTen (by decide)
    holdsTen_size.le).mpr
    (.inr (.inr hroom))

/-- Four of the ten contracts are filled before the cancel is served, and the new order is for ten
again. -/
theorem partly_filled_reprice_exceeds :
    ¬∀ env order newPrice metrics w, order.id < w.count → (w.book order.id).size ≤ order.size →
      held order ((exchanges env).run (repriceOrder order newPrice metrics) w) ≤ order.size := by
  intro h
  have hheld := h (fun tick => if tick = 0 then { trades := fun _ => 4 } else {}) ten 101
      (.new 100) holdsTen
    (by decide) holdsTen_size.le
  rw [held_le_iff _ _ (by decide) holdsTen_size.le] at hheld
  norm_num [holdsTen,ten,World.fresh,World.booked,World.empty,BookOrder.trade,
    BookOrder.live] at hheld

end Single

end SpreadArb.Proofs.Exposure
