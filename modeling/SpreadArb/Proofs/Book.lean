import SpreadArb.Backend

namespace SpreadArb.Proofs
open Interact

section Order

@[simp] theorem trade_exchange (x : ℚ) (o : BookOrder) : (o.trade x).exchange = o.exchange := by
  unfold BookOrder.trade
  split <;> rfl

@[simp] theorem trade_side (x : ℚ) (o : BookOrder) : (o.trade x).side = o.side := by
  unfold BookOrder.trade
  split <;> rfl

@[simp] theorem trade_orderType (x : ℚ) (o : BookOrder) : (o.trade x).orderType = o.orderType := by
  unfold BookOrder.trade
  split <;> rfl

@[simp] theorem trade_size (x : ℚ) (o : BookOrder) : (o.trade x).size = o.size := by
  unfold BookOrder.trade
  split <;> rfl

@[simp] theorem trade_reported (x : ℚ) (o : BookOrder) : (o.trade x).reported = o.reported := by
  unfold BookOrder.trade
  split <;> rfl

/-- Only a live order trades. -/
theorem trade_dead {o : BookOrder} (h : o.live = false) (x : ℚ) : o.trade x = o := by
  simp [BookOrder.trade,h]

theorem le_trade (x : ℚ) (o : BookOrder) : o.filled ≤ (o.trade x).filled := by
  unfold BookOrder.trade
  split
  · exact le_min o.filled_le (le_add_of_nonneg_right (le_max_left 0 x))
  · exact le_rfl

/-- Trading never brings an order back. -/
theorem dead_trade {o : BookOrder} (h : o.live = false) (x : ℚ) : (o.trade x).live = false := by
  rw [trade_dead h,h]

@[simp] theorem kill_live (o : BookOrder) : o.kill.live = false := by
  simp [BookOrder.kill,BookOrder.live]

theorem dead_iff (o : BookOrder) : o.live = false ↔ o.killed = true ∨ o.filled = o.size := by
  have h := o.filled_le
  by_cases hk : o.killed <;> simp [BookOrder.live,hk]
  exact ⟨fun hs => le_antisymm h hs,fun he => he.ge⟩

/-- A fully filled answer is the truth about an order that filled its size. -/
theorem info_fully (o : BookOrder) : o.info.isFullyFilled = true ↔ o.filled = o.size := by
  have h := o.filled_le
  simp only [OrderStatusInfo.isFullyFilled,BookOrder.info,BookOrder.status,ge_iff_le,
    Bool.and_eq_true,decide_eq_true_eq]
  constructor
  · exact fun hs => le_antisymm h hs.2
  · intro he
    simp [he]

end Order

section Serving

variable (env : Env) (w : World)

@[simp] theorem advance_count : (w.advance env).count = w.count := rfl
@[simp] theorem advance_halted : (w.advance env).halted = w.halted := rfl
@[simp] theorem advance_tick : (w.advance env).tick = w.tick+1 := rfl
@[simp] theorem advance_locks : (w.advance env).locks = w.locks := rfl
@[simp] theorem advance_book (i : OrderId) :
    (w.advance env).book i = (w.book i).trade ((env w.tick).trades i) := rfl

@[simp] theorem setOrder_count (i : OrderId) (o : BookOrder) :
    (w.setOrder i o).count = w.count := rfl
@[simp] theorem setOrder_book (i j : OrderId) (o : BookOrder) :
    (w.setOrder i o).book j = if j = i then o else w.book j := rfl
@[simp] theorem setOrder_halted (i : OrderId) (o : BookOrder) :
    (w.setOrder i o).halted = w.halted := rfl
@[simp] theorem setOrder_tick (i : OrderId) (o : BookOrder) :
    (w.setOrder i o).tick = w.tick := rfl
@[simp] theorem add_count (o : BookOrder) : (w.add o).count = w.count+1 := rfl
@[simp] theorem add_book (j : OrderId) (o : BookOrder) :
    (w.add o).book j = if j = w.count then o else w.book j := rfl
@[simp] theorem add_halted (o : BookOrder) : (w.add o).halted = w.halted := rfl
@[simp] theorem add_tick (o : BookOrder) : (w.add o).tick = w.tick := rfl

@[simp] theorem serve_setLeverage (ex sym : String) (n : Nat) :
    (exchanges env).serve (.setLeverage ex sym n) w =
      (World.answer (env w.tick) (),w.advance env) := rfl
@[simp] theorem serve_setMarginTypeIsolated (ex sym : String) :
    (exchanges env).serve (.setMarginTypeIsolated ex sym) w =
      (World.answer (env w.tick) (),w.advance env) := rfl
@[simp] theorem serve_placeOrder (o : SimulatedOrder) :
    (exchanges env).serve (.placeOrder o) w = World.servePlace (env w.tick) (w.advance env) o := rfl
@[simp] theorem serve_placeMarketOrder (o : SimulatedOrder) :
    (exchanges env).serve (.placeMarketOrder o) w =
      World.serveMarket (env w.tick) (w.advance env) o := rfl
@[simp] theorem serve_cancelOrder (ex : String) (id : OrderId) :
    (exchanges env).serve (.cancelOrder ex id) w =
      World.serveCancel (env w.tick) (w.advance env) id := rfl
@[simp] theorem serve_getOrderStatusDetailed (ex sym : String) (id : OrderId) :
    (exchanges env).serve (.getOrderStatusDetailed ex id sym) w =
      World.serveStatus (env w.tick) (w.advance env) id := rfl
@[simp] theorem serve_getAvailableBalance (ex : String) :
    (exchanges env).serve (.getAvailableBalance ex) w =
      (World.answer (env w.tick) (env w.tick).value,w.advance env) := rfl
@[simp] theorem serve_getBestBid (ex sym : String) :
    (exchanges env).serve (.getBestBid ex sym) w =
      (World.answer (env w.tick) (env w.tick).value,w.advance env) := rfl
@[simp] theorem serve_getBestAsk (ex sym : String) :
    (exchanges env).serve (.getBestAsk ex sym) w =
      (World.answer (env w.tick) (env w.tick).value,w.advance env) := rfl
@[simp] theorem serve_getQuantityStep (ex sym : String) :
    (exchanges env).serve (.getQuantityStep ex sym) w =
      (World.answer (env w.tick) (env w.tick).value,w.advance env) := rfl
@[simp] theorem serve_getOrderBookDepth (ex sym : String) (n : Nat) :
    (exchanges env).serve (.getOrderBookDepth ex sym n) w =
      (World.answer (env w.tick) (env w.tick).depth,w.advance env) := rfl
@[simp] theorem serve_sleep (ms : Nat) :
    (exchanges env).serve (.sleep ms) w =
      ((),{ w.advance env with clock := (w.advance env).clock+ms }) := rfl
@[simp] theorem serve_now :
    (exchanges env).serve .now w = (w.clock,w) := rfl
@[simp] theorem serve_isTradingHalted :
    (exchanges env).serve .isTradingHalted w = (w.halted,w) := rfl
@[simp] theorem serve_haltTrading (reason : String) :
    (exchanges env).serve (.haltTrading reason) w = ((),{ w with halted := true }) := rfl
@[simp] theorem serve_dropHedgeLock (sym : String) :
    (exchanges env).serve (.dropHedgeLock sym) w =
      ((),{ w with locks := w.locks.filter (· ≠ sym) }) := rfl
@[simp] theorem serve_alert (a : Alert) :
    (exchanges env).serve (.alert a) w = ((),w) := rfl
@[simp] theorem serve_newUuid :
    (exchanges env).serve .newUuid w = (w.uuids,{ w with uuids := w.uuids+1 }) := rfl

end Serving

/-- What all orders numbered from `n` on have filled. -/
def filledSince (n : Nat) (w : World) : ℚ := ∑ i ∈ Finset.Ico n w.count, (w.book i).filled

/-- The position on `exchange` created by the orders numbered from `n` on. -/
def net (n : Nat) (exchange : String) (w : World) : ℚ :=
  ∑ i ∈ Finset.Ico n w.count, (w.book i).signed exchange

/-- The sign of a position of this side. -/
def sign : OrderSide → ℚ
  | .long => 1
  | .short => -1

@[simp] theorem sign_opposite (s : OrderSide) : sign s.opposite = -sign s := by
  cases s <;> simp [sign,OrderSide.opposite]

theorem signed_eq (exchange : String) (o : BookOrder) :
    o.signed exchange = if o.exchange = exchange then sign o.side * o.filled else 0 := by
  unfold BookOrder.signed
  cases o.side <;> simp [sign]

/-- An order keeps what it is, fills more or stays as it is, and once it is over
it stays over. -/
structure Extends (o o' : BookOrder) : Prop where
  exchange : o'.exchange = o.exchange
  side : o'.side = o.side
  orderType : o'.orderType = o.orderType
  size : o'.size = o.size
  filled_le : o.filled ≤ o'.filled
  dead : o.live = false → o'.live = false ∧ o'.filled = o.filled

theorem Extends.refl (o : BookOrder) : Extends o o :=
  ⟨rfl,rfl,rfl,rfl,le_rfl,fun h => ⟨h,rfl⟩⟩

theorem Extends.trans {a b c : BookOrder} (h : Extends a b) (k : Extends b c) : Extends a c where
  exchange := k.exchange.trans h.exchange
  side := k.side.trans h.side
  orderType := k.orderType.trans h.orderType
  size := k.size.trans h.size
  filled_le := h.filled_le.trans k.filled_le
  dead hl := ⟨(k.dead (h.dead hl).1).1,(k.dead (h.dead hl).1).2.trans (h.dead hl).2⟩

theorem extends_trade (x : ℚ) (o : BookOrder) : Extends o (o.trade x) where
  exchange := trade_exchange x o
  side := trade_side x o
  orderType := trade_orderType x o
  size := trade_size x o
  filled_le := le_trade x o
  dead h := ⟨dead_trade h x,by rw [trade_dead h]⟩

theorem extends_kill (o : BookOrder) : Extends o o.kill :=
  ⟨rfl,rfl,rfl,rfl,le_rfl,fun _ => ⟨kill_live o,rfl⟩⟩

/-- Nothing an exchange has done is undone: orders keep their numbers. -/
structure Grows (w w' : World) : Prop where
  count_le : w.count ≤ w'.count
  order : ∀ i < w.count, Extends (w.book i) (w'.book i)

theorem Grows.refl (w : World) : Grows w w := ⟨le_rfl,fun _ _ => .refl _⟩

theorem Grows.trans {a b c : World} (h : Grows a b) (k : Grows b c) : Grows a c :=
  ⟨h.count_le.trans k.count_le,fun i hi =>
    (h.order i hi).trans (k.order i (hi.trans_le h.count_le))⟩

theorem grows_advance (env : Env) (w : World) : Grows w (w.advance env) :=
  ⟨le_rfl,fun _ _ => extends_trade _ _⟩

theorem grows_add (w : World) (o : BookOrder) : Grows w (w.add o) := by
  refine ⟨Nat.le_succ _,fun i hi => ?_⟩
  rw [add_book,if_neg hi.ne]
  exact .refl _

theorem grows_set {w : World} {id : OrderId} {o : BookOrder} (h : Extends (w.book id) o) :
    Grows w (w.setOrder id o) := by
  refine ⟨le_rfl,fun i _ => ?_⟩
  by_cases hi : i = id
  · subst hi
    rw [setOrder_book,if_pos rfl]
    exact h
  · rw [setOrder_book,if_neg hi]
    exact .refl _

/-- No request makes an exchange forget. -/
theorem serve_grows (env : Env) (op : BackendOp) (w : World) :
    Grows w ((exchanges env).serve op w).2 := by
  have ha := grows_advance env w
  cases op with
  | placeOrder o =>
    rw [serve_placeOrder]
    unfold World.servePlace
    split
    · exact ha
    · exact ha.trans (grows_add _ _)
  | placeMarketOrder o =>
    rw [serve_placeMarketOrder]
    unfold World.serveMarket
    split
    · exact ha
    · exact ha.trans (grows_add _ _)
  | cancelOrder ex id =>
    rw [serve_cancelOrder]
    unfold World.serveCancel
    split
    · exact ha
    · exact ha.trans (grows_set (extends_kill _))
  | getOrderStatusDetailed ex id sym =>
    rw [serve_getOrderStatusDetailed]
    unfold World.serveStatus
    split
    · exact ha
    · exact ha.trans (grows_set ⟨rfl,rfl,rfl,rfl,le_rfl,fun h => ⟨h,rfl⟩⟩)
  | now => exact .refl w
  | isTradingHalted => exact .refl w
  | haltTrading _ => exact ⟨le_rfl,(Grows.refl w).order⟩
  | dropHedgeLock _ => exact ⟨le_rfl,(Grows.refl w).order⟩
  | alert _ => exact .refl w
  | newUuid => exact ⟨le_rfl,(Grows.refl w).order⟩
  | tryAcquireHedgeLock s =>
    simp only [exchanges]
    split <;> exact ⟨le_rfl,(Grows.refl w).order⟩
  | sleep _ => exact ⟨le_rfl,ha.order⟩
  | _ => exact ha

/-- A whole run only adds to the books. -/
theorem run_grows (env : Env) (p : Prog backend α) (w : World) :
    Grows w ((exchanges env).run p w).2 :=
  Machine.run_frame Grows.refl (fun _ _ _ => Grows.trans) (fun op w => serve_grows env op w) p w

theorem filledSince_mono {n : Nat} {w w' : World} (h : Grows w w') :
    filledSince n w ≤ filledSince n w' := by
  calc filledSince n w ≤ ∑ i ∈ Finset.Ico n w.count, (w'.book i).filled :=
        Finset.sum_le_sum (fun i hi => (h.order i (Finset.mem_Ico.mp hi).2).filled_le)
    _ ≤ filledSince n w' :=
        Finset.sum_le_sum_of_subset_of_nonneg (Finset.Ico_subset_Ico_right h.count_le)
          (fun i _ _ => (w'.book i).filled_nonneg)

end SpreadArb.Proofs
