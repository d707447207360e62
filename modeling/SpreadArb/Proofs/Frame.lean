import SpreadArb.Entry
import SpreadArb.Proofs.Book

namespace SpreadArb.Proofs
open Interact

/-- Between the two states no order was placed, no hedge lock changed hands and
trading was not halted. -/
structure Quiet (w w' : World) : Prop extends Grows w w' where
  count_eq : w'.count = w.count
  locks_eq : w'.locks = w.locks
  halted_eq : w'.halted = w.halted

theorem Quiet.refl (w : World) : Quiet w w := ⟨.refl w,rfl,rfl,rfl⟩

theorem Quiet.trans {a b c : World} (h : Quiet a b) (k : Quiet b c) : Quiet a c :=
  ⟨h.toGrows.trans k.toGrows,k.count_eq.trans h.count_eq,k.locks_eq.trans h.locks_eq,
    k.halted_eq.trans h.halted_eq⟩

/-- The requests that leave the books' numbering and the process flags alone. -/
def Harmless : backend.Op → Prop
  | .placeOrder _ | .placeMarketOrder _ | .haltTrading _ => False
  | .tryAcquireHedgeLock _ | .dropHedgeLock _ => False
  | _ => True

theorem serve_quiet (env : Env) (op : BackendOp) (h : Harmless op) (w : World) :
    Quiet w ((exchanges env).serve op w).2 := by
  refine ⟨serve_grows env op w,?_,?_,?_⟩
  all_goals
    cases op with
    | cancelOrder ex id =>
      rw [serve_cancelOrder]
      unfold World.serveCancel
      split <;> rfl
    | getOrderStatusDetailed ex id sym =>
      rw [serve_getOrderStatusDetailed]
      unfold World.serveStatus
      split <;> rfl
    | placeOrder _ => cases h
    | placeMarketOrder _ => cases h
    | haltTrading _ => cases h
    | tryAcquireHedgeLock _ => cases h
    | dropHedgeLock _ => cases h
    | _ => rfl

/-- A program of harmless requests leaves the state quiet. -/
theorem wp_quiet {env : Env} {C : World → BackendOp → Prop} {p : Prog backend α}
    (hp : p.Only Harmless) (w : World) :
    (exchanges env).wp C p (fun _ w' => Quiet w w') w :=
  Machine.wp_only Quiet.refl (fun _ _ _ => Quiet.trans) (fun op w h _ =>
    serve_quiet env op h w) hp w

theorem wp_harmless {env : Env} {C : World → BackendOp → Prop} {p : Prog backend α}
    {Q : α → World → Prop} {w : World} (hp : p.Only Harmless)
    (h : ∀ a w', Quiet w w' → Q a w') : (exchanges env).wp C p Q w :=
  Machine.wp_mono (wp_quiet hp w) h

/-- The harmless requests that write nothing on the console either. -/
def Asking : backend.Op → Prop
  | .alert _ => False
  | op => Harmless op

theorem Asking.harmless {op : BackendOp} (h : Asking op) : Harmless op := by
  cases op with
  | alert a => cases h
  | _ => exact h

theorem wp_asking {env : Env} {C : World → BackendOp → Prop} {p : Prog backend α}
    {Q : α → World → Prop} {w : World} (hp : p.Only Asking)
    (h : ∀ a w', Quiet w w' → Q a w') : (exchanges env).wp C p Q w :=
  wp_harmless (hp.mono (fun _ => Asking.harmless)) h

/-- Whatever a program does, the books only grow. -/
theorem wp_grows {env : Env} {C : World → BackendOp → Prop} {p : Prog backend α}
    {Q : α → World → Prop} {w : World} (h : ∀ a w', Grows w w' → Q a w') :
    (exchanges env).wp C p Q w :=
  Machine.wp_mono (Machine.wp_only Grows.refl (fun _ _ _ => Grows.trans)
    (fun op w _ _ => serve_grows env op w) (Machine.only_true p) w) h

/-- Status queries fail or tell the truth. -/
def Truthful (env : Env) : Prop := ∀ t, (env t).report = none

/-- A status query, with what it leaves of the books at the moment it is served. -/
theorem wp_status_at {env : Env} (ht : Truthful env) {C : World → BackendOp → Prop}
    {exchange symbol : String} {id : OrderId} {Q : Except String OrderStatusInfo → World → Prop}
    {w : World}
    (herr : C w (.getOrderStatusDetailed exchange id symbol) → (env w.tick).failure ≠ none →
      ∀ e w', Quiet w w' → (∀ i, w'.book i = (w.advance env).book i) → Q (.error e) w')
    (hok : C w (.getOrderStatusDetailed exchange id symbol) →
      ∀ w', Quiet w w' → (w'.book id).live = ((w.advance env).book id).live →
        Q (.ok (w'.book id).info) w') :
    (exchanges env).wp C (Backend.getOrderStatusDetailed exchange id symbol) Q w := by
  intro hc
  have hq := serve_quiet env (.getOrderStatusDetailed exchange id symbol) trivial w
  rw [serve_getOrderStatusDetailed] at hq ⊢
  unfold World.serveStatus at hq ⊢
  cases hf : (env w.tick).failure with
  | some e =>
    rw [hf] at hq
    exact herr hc (by rw [hf]; simp) e _ hq (fun _ => rfl)
  | none =>
    rw [hf] at hq
    have h := hok hc _ hq (by rw [setOrder_book,if_pos rfl]; rfl)
    simp only [ht w.tick,Option.getD_none,setOrder_book,if_true] at h ⊢
    exact h

theorem wp_status {env : Env} (ht : Truthful env) {C : World → BackendOp → Prop}
    {exchange symbol : String} {id : OrderId} {Q : Except String OrderStatusInfo → World → Prop}
    {w : World} (herr : ∀ e w', Quiet w w' → Q (.error e) w')
    (hok : ∀ w', Quiet w w' → Q (.ok (w'.book id).info) w') :
    (exchanges env).wp C (Backend.getOrderStatusDetailed exchange id symbol) Q w :=
  wp_status_at ht (fun _ _ e w' hq _ => herr e w' hq) (fun _ w' hq _ => hok w' hq)

/-- What an accepted limit order does to the books. -/
structure Placed (env : Env) (w : World) (o placed : SimulatedOrder) (w' : World) : Prop
    extends Grows w w' where
  accepted : (env w.tick).failure = none
  id_eq : placed.id = w.count
  exchange_eq : placed.exchange = o.exchange
  side_eq : placed.side = o.side
  type_eq : placed.orderType = o.orderType
  size_eq : placed.size = o.size
  count_eq : w'.count = w.count+1
  booked : w'.book w.count = World.fresh (env w.tick) o
  locks_eq : w'.locks = w.locks

theorem wp_placeOrder {env : Env} {C : World → BackendOp → Prop} {o : SimulatedOrder}
    {Q : Except String SimulatedOrder → World → Prop} {w : World}
    (herr : ∀ e w', Quiet w w' → Q (.error e) w')
    (hok : C w (.placeOrder o) → ∀ placed w', Placed env w o placed w' → Q (.ok placed) w') :
    (exchanges env).wp C (Backend.placeOrder o) Q w := by
  intro hc
  have hg := serve_grows env (.placeOrder o) w
  rw [serve_placeOrder] at hg ⊢
  unfold World.servePlace at hg ⊢
  cases hf : (env w.tick).failure with
  | some e =>
    rw [hf] at hg
    exact herr e _ ⟨hg,rfl,rfl,rfl⟩
  | none =>
    rw [hf] at hg
    refine hok hc _ _ ⟨hg,hf,rfl,rfl,rfl,rfl,rfl,rfl,?_,rfl⟩
    rw [add_book,advance_count,if_pos rfl]

/-- What an accepted market order does to the books. -/
structure Sold (env : Env) (w : World) (o placed : SimulatedOrder) (w' : World) : Prop
    extends Grows w w' where
  accepted : (env w.tick).failure = none
  id_eq : placed.id = w.count
  count_eq : w'.count = w.count+1
  booked : w'.book w.count = World.freshMarket (env w.tick) o
  locks_eq : w'.locks = w.locks

theorem wp_placeMarketOrder {env : Env} {C : World → BackendOp → Prop} {o : SimulatedOrder}
    {Q : Except String SimulatedOrder → World → Prop} {w : World}
    (herr : ∀ e w', Quiet w w' → Q (.error e) w')
    (hok : C w (.placeMarketOrder o) → ∀ placed w', Sold env w o placed w' → Q (.ok placed) w') :
    (exchanges env).wp C (Backend.placeMarketOrder o) Q w := by
  intro hc
  have hg := serve_grows env (.placeMarketOrder o) w
  rw [serve_placeMarketOrder] at hg ⊢
  unfold World.serveMarket at hg ⊢
  cases hf : (env w.tick).failure with
  | some e =>
    rw [hf] at hg
    exact herr e _ ⟨hg,rfl,rfl,rfl⟩
  | none =>
    rw [hf] at hg
    refine hok hc _ _ ⟨hg,hf,rfl,rfl,?_,rfl⟩
    rw [add_book,advance_count,if_pos rfl]

/-- A hedge section gives its lock back on every way out. What holds after it must
not depend on the locks. -/
theorem wp_withHedgeLock {env : Env} {C : World → BackendOp → Prop} {symbol : String}
    {body : Entry α} {E : World → Prop} {Q : α → World → Prop} {w : World}
    (hE : ∀ w locks, E w → E { w with locks }) (hQ : ∀ a w locks, Q a w → Q a { w with locks })
    (hheld : C w (.tryAcquireHedgeLock symbol) →
    (symbol ∈ w.locks ∨ symbol ∈ (env w.tick).foreign) → E w)
    (h : (exchanges env).wp C body (Machine.Ends E Q) { w with locks := symbol :: w.locks }) :
    (exchanges env).wp C (withHedgeLock symbol body)
      (Machine.Ends E (fun a w' => symbol ∉ w'.locks ∧ Q a w')) w := by
  refine Machine.wp_bind.mpr (fun hc => ?_)
  by_cases hl : symbol ∈ w.locks ∨ symbol ∈ (env w.tick).foreign
  · have hs : (exchanges env).serve (.tryAcquireHedgeLock symbol) w =
        (.error s!"Hedge lock already held for {symbol}",w) := by
      simp only [exchanges]
      rw [if_pos hl]
    rw [hs]
    exact hheld hc hl
  · have hs : (exchanges env).serve (.tryAcquireHedgeLock symbol) w =
        (.ok (),{ w with locks := symbol :: w.locks }) := by
      simp only [exchanges]
      rw [if_neg hl]
    rw [hs]
    refine Machine.wp_bind.mpr (Machine.wp_mono h (fun r w' hr => ?_))
    intro _
    cases r with
    | error e => exact hE _ _ hr
    | ok a => exact ⟨by simp,hQ _ _ _ hr⟩

section Orders

/-- An order that is over and never traded. -/
def Idle (o : BookOrder) : Prop := o.live = false ∧ o.filled = 0

theorem Idle.extends {o o' : BookOrder} (h : Idle o) (he : Extends o o') : Idle o' :=
  ⟨(he.dead h.1).1,(he.dead h.1).2.trans h.2⟩

instance (o : BookOrder) : Decidable (Idle o) := inferInstanceAs (Decidable (_ ∧ _))

/-- The order the code knows as `o` is in the books since the call began. -/
structure Booked (n : Nat) (o : SimulatedOrder) (w : World) : Prop where
  from_le : n ≤ o.id
  lt_count : o.id < w.count
  exchange : (w.book o.id).exchange = o.exchange
  side : (w.book o.id).side = o.side

/-- The order the code knows as `o` has filled all that `o` says, and is over. -/
structure Done (n : Nat) (o : SimulatedOrder) (w : World) : Prop extends Booked n o w where
  dead : (w.book o.id).live = false
  filled : (w.book o.id).filled = o.size

theorem Booked.grows {n : Nat} {o : SimulatedOrder} {w w' : World} (h : Booked n o w)
    (hg : Grows w w') : Booked n o w' where
  from_le := h.from_le
  lt_count := h.lt_count.trans_le hg.count_le
  exchange := (hg.order _ h.lt_count).exchange.trans h.exchange
  side := (hg.order _ h.lt_count).side.trans h.side

theorem Done.grows {n : Nat} {o : SimulatedOrder} {w w' : World} (h : Done n o w)
    (hg : Grows w w') : Done n o w' where
  toBooked := h.toBooked.grows hg
  dead := ((hg.order _ h.lt_count).dead h.dead).1
  filled := ((hg.order _ h.lt_count).dead h.dead).2.trans h.filled

theorem Done.locks {n : Nat} {o : SimulatedOrder} {w : World} (h : Done n o w)
    (locks : List String) : Done n o { w with locks } :=
  ⟨⟨h.from_le,h.lt_count,h.exchange,h.side⟩,h.dead,h.filled⟩

theorem placed_booked {env : Env} {n : Nat} {o placed : SimulatedOrder} {w w' : World}
    (hp : Placed env w o placed w') (hn : n ≤ w.count) : Booked n placed w' where
  from_le := hp.id_eq ▸ hn
  lt_count := by
    rw [hp.id_eq,hp.count_eq]
    exact Nat.lt_succ_self _
  exchange := by
    rw [hp.id_eq,hp.booked,hp.exchange_eq]
    rfl
  side := by
    rw [hp.id_eq,hp.booked,hp.side_eq]
    rfl

/-- A truthful answer that an order is fully filled. -/
theorem done_of_info {n : Nat} {o : SimulatedOrder} {w : World} (hb : Booked n o w)
    (hi : (w.book o.id).info.isFullyFilled = true) {p : SimulatedOrder} (hid : p.id = o.id)
    (hx : p.exchange = o.exchange) (hs : p.side = o.side)
    (hz : p.size = (w.book o.id).info.filledQuantity) : Done n p w := by
  have hf := (info_fully _).mp hi
  refine ⟨⟨hid ▸ hb.from_le,hid ▸ hb.lt_count,?_,?_⟩,?_,?_⟩
  · rw [hid,hx,hb.exchange]
  · rw [hid,hs,hb.side]
  · rw [hid]
    exact (dead_iff _).mpr (.inr hf)
  · rw [hid,hz]
    rfl

theorem freshMarket_exchange (c : Move) (o : SimulatedOrder) :
    (World.freshMarket c o).exchange = o.exchange := trade_exchange _ _

theorem freshMarket_side (c : Move) (o : SimulatedOrder) :
    (World.freshMarket c o).side = o.side := trade_side _ _

/-- An order that is over, on the given exchange and side. -/
def Spot (exchange : String) (side : OrderSide) (o : BookOrder) : Prop :=
  o.live = false ∧ o.exchange = exchange ∧ o.side = side

theorem Spot.extends {exchange : String} {side : OrderSide} {o o' : BookOrder}
    (h : Spot exchange side o) (he : Extends o o') : Spot exchange side o' :=
  ⟨(he.dead h.1).1,he.exchange.trans h.2.1,he.side.trans h.2.2⟩

/-- All orders between the two states are market orders of this exchange and side,
and they are over. -/
structure Adds (exchange : String) (side : OrderSide) (w w' : World) : Prop extends Grows w w' where
  added : ∀ i, w.count ≤ i → i < w'.count → Spot exchange side (w'.book i)
  locks_eq : w'.locks = w.locks

theorem Adds.refl {exchange : String} {side : OrderSide} (w : World) : Adds exchange side w w :=
  ⟨.refl w,fun _ hl hr => absurd hr (not_lt.mpr hl),rfl⟩

theorem Adds.trans {exchange : String} {side : OrderSide} {a b c : World}
    (h : Adds exchange side a b) (k : Adds exchange side b c) : Adds exchange side a c := by
  refine ⟨h.toGrows.trans k.toGrows,fun i hl hr => ?_,k.locks_eq.trans h.locks_eq⟩
  by_cases hi : i < b.count
  · exact (h.added i hl hi).extends (k.order i hi)
  · exact k.added i (not_lt.mp hi) hr

end Orders

section Legs

@[simp] theorem leg_set (l : Legs) (s : OrderSide) (x : Leg) : (l.set s x).leg s = x := by
  cases s <;> rfl

@[simp] theorem leg_set_opposite (l : Legs) (s : OrderSide) (x : Leg) :
    (l.set s x).leg s.opposite = l.leg s.opposite := by
  cases s <;> rfl

@[simp] theorem leg_opposite_set (l : Legs) (s : OrderSide) (x : Leg) :
    (l.set s.opposite x).leg s = l.leg s := by
  cases s <;> rfl

/-- What holds of the new leg and of the old other one holds of both. -/
theorem forall_leg_set {P : OrderSide → Leg → Prop} {l : Legs} {s : OrderSide} {x : Leg}
    (hs : P s x) (ho : P s.opposite (l.leg s.opposite)) (t : OrderSide) :
    P t ((l.set s x).leg t) := by
  cases s <;> cases t
  · exact hs
  · exact ho
  · exact ho
  · exact hs

@[simp] theorem leg_cache (l : Legs) (s : OrderSide) (c : DepthCache) :
    Legs.leg { l with cache := c } s = l.leg s := by
  cases s <;> rfl

theorem bothFilled_iff (l : Legs) (s : OrderSide) :
    l.bothFilled = true ↔ (l.leg s).filled = true ∧ (l.leg s.opposite).filled = true := by
  cases s <;> simp [Legs.bothFilled,Legs.leg,OrderSide.opposite,and_comm]

theorem neitherFilled_iff (l : Legs) (s : OrderSide) :
    l.neitherFilled = true ↔ (l.leg s).filled = false ∧ (l.leg s.opposite).filled = false := by
  cases s <;> simp [Legs.neitherFilled,Legs.leg,OrderSide.opposite,and_comm]

/-- The legs a turn leaves, whichever way it goes on. -/
def flowLegs : Flow → Legs
  | .next l | .again l | .stop l => l

end Legs

section Asking

theorem nowSecs_asks : Prog.Only Asking nowSecs :=
  ⟨trivial,fun _ => trivial⟩

theorem failWhen_asks (condition : Bool) (e : EntryError) :
    Prog.Only Asking (failWhen condition e : Prog backend (Except EntryError Unit)) := by
  cases condition <;> trivial

/-- A check of the entry passes or fails, and does nothing else. -/
theorem wp_failWhen {W : Type} {m : Machine backend W} {C : W → BackendOp → Prop} {condition : Bool}
    {e : EntryError} {E : W → Prop} {Q : Unit → W → Prop} {w : W} (he : condition = true → E w)
    (hq : condition = false → Q () w) : m.wp C (failWhen condition e) (Machine.Ends E Q) w := by
  cases condition with
  | true => exact he rfl
  | false => exact hq rfl

theorem queryDepth_asks (cache : DepthCache) (exchange symbol : String) (quantity : ℚ)
    (start : Nat) : (queryDepth cache exchange symbol quantity start).Only Asking := by
  refine ⟨trivial,fun r => ?_⟩
  cases r with
  | error e => trivial
  | ok depth => exact ⟨trivial,fun _ => trivial⟩

theorem checkDepthForHedge_asks (cache : DepthCache) (exchange symbol : String) (quantity : ℚ) :
    (checkDepthForHedge cache exchange symbol quantity).Only Asking := by
  refine .bind ⟨trivial,fun _ => trivial⟩ (fun start => ?_)
  split
  · trivial
  · exact queryDepth_asks _ _ _ _ _

theorem getBestPriceForOrder_asks (order : SimulatedOrder) :
    (getBestPriceForOrder order).Only Asking := by
  unfold getBestPriceForOrder
  split <;> exact ⟨trivial,fun _ => trivial⟩

theorem getBestHedgePrice_asks (side : OrderSide) (exchange symbol : String) :
    (getBestHedgePrice side exchange symbol).Only Asking := by
  unfold getBestHedgePrice
  split <;> exact ⟨trivial,fun _ => trivial⟩

theorem contractQuantity_asks (opportunity : ArbitrageOpportunity) (positionSize : ℚ) :
    (contractQuantity opportunity positionSize).Only Asking :=
  ⟨trivial,fun _ => ⟨trivial,fun _ => trivial⟩⟩

theorem availableBalance_asks (exchange : String) :
    Prog.Only Asking (availableBalance exchange : Prog backend (Except EntryError ℚ)) := by
  refine .exceptBind (.lift ⟨trivial,fun _ => trivial⟩) (fun r => ?_)
  cases r <;> trivial

theorem checkBalances_asks (opportunity : ArbitrageOpportunity) (positionSize : ℚ) :
    Prog.Only Asking (checkBalances opportunity positionSize : Prog backend
      (Except EntryError Unit)) := by
  refine .exceptBind (availableBalance_asks _) (fun long => ?_)
  refine .exceptBind (availableBalance_asks _) (fun short => ?_)
  exact .exceptBind (failWhen_asks _ _) (fun _ => failWhen_asks _ _)

theorem depthVerdict_asks (long short : Except String DepthCheckResult) :
    Prog.Only Asking (depthVerdict long short : Prog backend (Except EntryError Unit)) := by
  unfold depthVerdict
  split
  · trivial
  · trivial
  · exact failWhen_asks _ _

theorem preflight_asks (opportunity : ArbitrageOpportunity) (mode : ExecutionMode) (quantity : ℚ) :
    Prog.Only Asking (preflight opportunity mode quantity :
      Prog backend (Except EntryError DepthCache)) := by
  unfold preflight
  cases mode with
  | ultraFast => trivial
  | balanced =>
    refine .exceptBind (.lift ⟨trivial,fun _ => trivial⟩) (fun start => ?_)
    refine .exceptBind (.lift (queryDepth_asks _ _ _ _ _)) (fun long => ?_)
    refine .exceptBind (.lift (queryDepth_asks _ _ _ _ _)) (fun short => ?_)
    exact .exceptBind (depthVerdict_asks _ _) (fun _ => trivial)
  | safe =>
    refine .exceptBind (.lift (checkDepthForHedge_asks _ _ _ _)) (fun long => ?_)
    obtain ⟨result,cache⟩ := long
    cases result with
    | error e => trivial
    | ok depth =>
      refine .exceptBind (.lift (checkDepthForHedge_asks _ _ _ _)) (fun short => ?_)
      exact .exceptBind (depthVerdict_asks _ _) (fun _ => trivial)

/-- Everything before the entry orders only asks. -/
theorem prepareEntry_asks (opportunity : ArbitrageOpportunity) (capital size : ℚ) :
    Prog.Only Asking (prepareEntry opportunity capital size :
      Prog backend (Except EntryError (ℚ × Nat × DepthCache))) := by
  unfold prepareEntry
  refine .exceptBind (.lift ⟨trivial,fun _ => trivial⟩) (fun halted => ?_)
  refine .exceptBind (failWhen_asks _ _) (fun _ => ?_)
  refine .exceptBind (failWhen_asks _ _) (fun _ => ?_)
  refine .exceptBind (failWhen_asks _ _) (fun _ => ?_)
  refine .exceptBind (.lift nowSecs_asks) (fun secs => ?_)
  refine .exceptBind (.lift (contractQuantity_asks _ _)) (fun quantity => ?_)
  refine .exceptBind (failWhen_asks _ _) (fun _ => ?_)
  refine .exceptBind (checkBalances_asks _ _) (fun _ => ?_)
  refine .exceptBind (.lift ⟨trivial,fun _ => trivial⟩) (fun _ => ?_)
  refine .exceptBind (.lift ⟨trivial,fun _ => trivial⟩) (fun _ => ?_)
  refine .exceptBind (.lift ⟨trivial,fun _ => trivial⟩) (fun _ => ?_)
  refine .exceptBind (.lift ⟨trivial,fun _ => trivial⟩) (fun _ => ?_)
  exact .exceptBind (preflight_asks _ _ _) (fun _ => trivial)

end Asking

/-! A scene for concrete runs. -/

/-- Buy at 100 on one exchange, sell at 101 on the other, with full confidence. -/
def onePercent : ArbitrageOpportunity := ⟨"BTCUSDT","bybit","okx",100,101,0,95,0,15000,15000⟩

/-- Answers to the queries of an entry: steps of one contract, enough balance, and a
deep book whose best prices are those of the opportunity. -/
def calm : Env := fun t =>
  if t < 2 then { value := 1 }
  else if t < 4 then { value := 1000 }
  else { value := 100, depth := ⟨[⟨100,10⟩],[],0⟩ }

end SpreadArb.Proofs
