import SpreadArb.Interact.Trace
import SpreadArb.OrderBackends
import SpreadArb.Proofs.Requests

namespace SpreadArb.Proofs.Timeout
open Interact Machine

section Stamps

/-- `TestnetBackend` placed the exit order at this local time, when Bybit's clock was ahead by
`offset` milliseconds. -/
def Stamped (backend : TestnetBackend) (reply : VenueReply) (order : KeyedOrder) (localMs : Nat)
    (offset : ℤ) (exit : SimulatedOrder) : Prop :=
  ∃ placed, (backend.placeOrder reply (backend.placementMs order localMs offset) order).1 =
    .ok placed ∧
    exit.createdAt = placed.createdAt

/-- The stamp of such an order: whole seconds if it is simulated, milliseconds of Bybit's clock if
it is not. -/
def stamp (simulated : Bool) (localMs : Nat) (offset : ℤ) : Nat :=
  if simulated then localMs / 1000 else (localMs + offset).toNat

theorem withClient_ok {s : TestnetBackend} {exchange : String} {call : Except StatusError α} {a : α}
    (h : s.withClient exchange call = .ok a) : call = .ok a := by
  unfold TestnetBackend.withClient at h
  split at h
  · split at h
    · exact h
    · cases h
  · cases h

theorem Stamped.createdAt {backend : TestnetBackend} {reply : VenueReply} {order : KeyedOrder}
    {localMs : Nat} {offset : ℤ} {exit : SimulatedOrder}
    (h : Stamped backend reply order localMs offset exit) :
    exit.createdAt = stamp (backend.simulates order) localMs offset := by
  obtain ⟨placed,hplaced,hexit⟩ := h
  rw [hexit]
  unfold TestnetBackend.placeOrder TestnetBackend.placementMs at hplaced
  unfold stamp
  split at hplaced
  · next hsim =>
    simp only [TestnetBackend.placeSimulated,Except.ok.injEq] at hplaced
    rw [if_pos hsim,← hplaced]
  · next hsim =>
    rw [if_neg hsim]
    unfold TestnetBackend.placeReal at hplaced
    split at hplaced
    · cases hplaced
    · next o ho =>
      obtain rfl : o = placed := Except.ok.inj hplaced
      have hclient := withClient_ok ho
      unfold BybitDemoClient.placeOrder BybitDemoClient.place at hclient
      split at hclient
      · cases hclient
      · rw [← Except.ok.inj hclient]
        rfl

end Stamps

section Pass

/-- The cancel of an exit order in the timeout branch. -/
def cancels (order : OrderId) : RunnerOp → Bool
  | .backend (.monitor _ .timeout) (.cancelOrder _ id) => id = order
  | _ => false

/-- What a request of the timeout branch does for closing the leg: it is told that an order has
filled so much of it, or asks a market order to close so much. -/
def credit (env : Surroundings) (leg : OrderSide) (s : Runner) : RunnerOp → ℚ
  | .backend (.monitor _ .timeout) (.getOrderStatusDetailed exchange order symbol) =>
    if (s.world.book order).side = leg.opposite then
      reportedFill ((exchanges env.exchanges).serve
        (.getOrderStatusDetailed exchange order symbol) s.world).1
    else 0
  | .backend (.monitor _ .timeout) (.placeMarketOrder o) =>
    if o.side = leg.opposite then o.size else 0
  | _ => 0

/-- The pass over the trade cancels both exit orders in the timeout branch. Of either leg it sees
filled, or asks a market order to close, all but dust, and it leaves the trade exiting for the
timeout. -/
def ForceCloses (env : Surroundings) (id : TradeId) (t : PaperTrade) (long short : OrderId)
    (s : Runner) : Prop :=
  ¬ (runner env).Along (fun _ op => cancels long op = false) (monitorTrade true id) s ∧
  ¬ (runner env).Along (fun _ op => cancels short op = false) (monitorTrade true id) s ∧
  t.longOrder.size - dust ≤ (runner env).total (credit env .long) (monitorTrade true id) s ∧
  t.shortOrder.size - dust ≤ (runner env).total (credit env .short) (monitorTrade true id) s ∧
  (((runner env).run (monitorTrade true id) s).2.lookup id).map (fun t => (t.status,t.exitReason)) =
    some (.exiting,some (.exitTimeout exitTimeoutSeconds))

/-- The order is on the exchange's books, and it closes the leg. -/
structure Placed (leg : OrderSide) (order : OrderId) (s : Runner) : Prop where
  lt_count : order < s.world.count
  side : (s.world.book order).side = leg.opposite

/-- The state after the status query for an exit order. -/
def asked (env : Surroundings) (id : TradeId) (exchange : String) (order : OrderId)
    (s : Runner) : Runner :=
  ((runner env).serve (.backend (.monitor id .checks) (.getOrderStatus exchange order)) s).2

/-- The answer to it. -/
def answered (env : Surroundings) (id : TradeId) (exchange : String) (order : OrderId)
    (s : Runner) : Except String OrderStatus :=
  ((runner env).serve (.backend (.monitor id .checks) (.getOrderStatus exchange order)) s).1

/-- The state in which a pass over the trade looks at the clock. -/
def atClock (env : Surroundings) (id : TradeId) (t : PaperTrade) (long short : SimulatedOrder)
    (s : Runner) : Runner :=
  asked env id t.shortExchange short.id (asked env id t.longExchange long.id s)

/-- A pass over the trade finds it with both exit orders placed, prices, and neither exit order
filled. -/
structure Waiting (env : Surroundings) (id : TradeId) (t : PaperTrade) (long short : SimulatedOrder)
    (longPrice shortPrice : ℚ) (s : Runner) : Prop where
  lookup : s.lookup id = some t
  long_exit : t.longExitOrder = some long
  short_exit : t.shortExitOrder = some short
  long_placed : Placed .long long.id s
  short_placed : Placed .short short.id s
  prices : ((runner env).run (getCurrentPrices t.symbol) s).1 = .ok (longPrice,shortPrice)
  long_open : answered env id t.longExchange long.id s ≠ .ok .filled
  short_open : answered env id t.shortExchange short.id
    (asked env id t.longExchange long.id s) ≠ .ok .filled

variable {env : Surroundings} {id : TradeId} {t : PaperTrade} {long short : SimulatedOrder}
  {longPrice shortPrice : ℚ} {s : Runner}

theorem getCurrentPrices_state (pair : String) (s : Runner) :
    ((runner env).run (getCurrentPrices pair) s).2 = s := by
  unfold getCurrentPrices getPricesFromStore
  rw [run_bind,run_call]
  dsimp only [run_ret]
  split
  · rfl
  · rw [run_bind,run_call]
    dsimp only [run_ret]
    split
    · rfl
    · rfl
    · split <;> rfl

/-- The requests that do not belong to the timeout branch. -/
def Untimed : RunnerOp → Prop
  | .backend (.monitor _ .timeout) _ => False
  | _ => True

theorem Untimed.cancels {op : RunnerOp} (h : Untimed op) (order : OrderId) :
    cancels order op = false := by
  unfold Timeout.cancels
  split
  · cases h
  · rfl

theorem Untimed.credit {op : RunnerOp} (h : Untimed op) (leg : OrderSide) (s : Runner) :
    credit env leg s op = 0 := by
  unfold Timeout.credit
  split
  · cases h
  · cases h
  · rfl

section Untimed

variable {branch : Branch} {p : Pass}

theorem untimed_backend (hb : branch ≠ .timeout) (trade : TradeId) (op : BackendOp) :
    Untimed (.backend (.monitor trade branch) op) := by
  cases branch <;> trivial

theorem passCall_untimed (hb : branch ≠ .timeout) (op : BackendOp) :
    (passCall branch p op).Only Untimed :=
  ⟨untimed_backend hb p.trade op,fun _ => trivial⟩

theorem passSecs_untimed (hb : branch ≠ .timeout) : (passSecs branch p).Only Untimed :=
  ⟨untimed_backend hb p.trade _,fun _ => trivial⟩

theorem exitFilled_untimed (hb : branch ≠ .timeout) (leg : OrderSide) :
    (exitFilled branch p leg).Only Untimed := by
  unfold exitFilled
  split
  · trivial
  · refine .bind (passCall_untimed hb _) (fun r => ?_)
    split <;> trivial

theorem cancelAndRead_untimed (hb : branch ≠ .timeout) (leg : OrderSide) :
    (cancelAndRead branch p leg).Only Untimed := by
  unfold cancelAndRead
  split
  · trivial
  · exact .bind (passCall_untimed hb _) (fun _ => .bind (passCall_untimed hb _) (fun _ => trivial))

theorem tryLimit_untimed (hb : branch ≠ .timeout) (leg : OrderSide) (remaining filled : ℚ) :
    (tryLimit branch p leg remaining filled).Only Untimed := by
  have hbest : (bestClosePrice branch p leg).Only Untimed :=
    Prog.Only.embed (fun op _ => untimed_backend hb p.trade op) (getBestHedgePrice_asks _ _ _)
  refine .bind hbest (fun r => ?_)
  cases r with
  | error e => trivial
  | ok best =>
    refine .bind (passSecs_untimed hb) (fun secs => .bind (passCall_untimed hb _) (fun r => ?_))
    cases r with
    | error e => trivial
    | ok placed =>
      refine .bind (passCall_untimed hb _) (fun _ =>
        .bind (passCall_untimed hb _) (fun status => ?_))
      exact .bind (passCall_untimed hb _) (fun _ => trivial)

theorem closeRest_untimed (hb : branch ≠ .timeout) (leg : OrderSide) (remaining : ℚ) :
    (closeRest branch p leg remaining).Only Untimed := by
  unfold closeRest
  split
  · refine .bind (.bind (passSecs_untimed hb) (fun secs => ?_)) (fun _ => trivial)
    exact passCall_untimed hb _
  · trivial

theorem getMut_untimed (trade : TradeId) (f : PaperTrade → PaperTrade) :
    (getMutTrade trade f).Only Untimed :=
  ⟨trivial,fun _ => trivial⟩

theorem getTrade_untimed (trade : TradeId) : (getTrade trade).Only Untimed :=
  ⟨trivial,fun _ => trivial⟩

theorem stopLossLimit_untimed (leg : OrderSide) (quantity filled : ℚ) :
    (stopLossLimit p leg quantity filled).Only Untimed := by
  unfold stopLossLimit
  split
  · exact tryLimit_untimed Branch.noConfusion _ _ _
  · trivial

theorem stopLossExit_untimed : (stopLossExit p).Only Untimed := by
  have hclose : ∀ longQuantity shortQuantity longFilled shortFilled,
      (stopLossClose p longQuantity shortQuantity longFilled shortFilled).Only Untimed := by
    intro longQuantity shortQuantity longFilled shortFilled
    unfold stopLossClose
    split
    · trivial
    · refine .bind (stopLossLimit_untimed _ _ _) (fun long =>
        .bind (stopLossLimit_untimed _ _ _) (fun short => ?_))
      split
      · trivial
      · exact .bind (closeRest_untimed Branch.noConfusion _ _)
          (fun _ => closeRest_untimed Branch.noConfusion _ _)
  refine .bind (getTrade_untimed _) (fun r => ?_)
  cases r with
  | none => trivial
  | some trade =>
    refine .bind (cancelAndRead_untimed Branch.noConfusion _) (fun long => ?_)
    refine .bind (cancelAndRead_untimed Branch.noConfusion _) (fun short => ?_)
    exact .bind (getMut_untimed _ _) (fun _ => hclose _ _ _ _)

theorem getCurrentPrices_untimed (pair : String) : (getCurrentPrices pair).Only Untimed := by
  refine .bind ⟨trivial,fun _ => trivial⟩ (fun r => ?_)
  cases r with
  | none => trivial
  | some trade =>
    refine .bind ⟨trivial,fun _ => trivial⟩ (fun r => ?_)
    split
    · trivial
    · trivial
    · split <;> trivial

theorem checkTimeout_untimed : (checkTimeout p).Only Untimed := by
  refine .bind (passSecs_untimed Branch.noConfusion) (fun now =>
    .bind (getTrade_untimed _) (fun r => ?_))
  cases r with
  | none => trivial
  | some trade =>
    dsimp only
    split
    · refine .bind (getTrade_untimed _) (fun r => ?_)
      cases r <;> trivial
    · trivial

end Untimed

theorem exitFilled_run (p : Pass) (leg : OrderSide) {order : OrderId}
    (hexit : p.exit leg = some order)
    (hopen : answered env p.trade (p.exchange leg) order s ≠ .ok .filled) :
    (runner env).run (exitFilled .checks p leg) s =
      (false,asked env p.trade (p.exchange leg) order s) := by
  unfold exitFilled
  rw [hexit]
  have hcall : (runner env).run (passCall .checks p (.getOrderStatus (p.exchange leg) order)) s =
      (answered env p.trade (p.exchange leg) order s,asked env p.trade (p.exchange leg) order s) :=
        rfl
  dsimp only
  rw [run_bind,hcall]
  dsimp only
  split
  · next h => exact absurd h hopen
  · rfl

/-- The state after the look at the clock. -/
def clocked (env : Surroundings) (id : TradeId) (s : Runner) : Runner :=
  ((runner env).serve (.backend (.monitor id .checks) .now) s).2

theorem checkTimeout_run (env : Surroundings) (p : Pass) (h : s.lookup p.trade = some t) :
    (runner env).run (checkTimeout p) s =
      (if pastTimeout (s.world.clock / 1000) t then .timedOut t else .young,
        clocked env p.trade s) := by
  have hsecs : (runner env).run (passSecs .checks p) s =
      (s.world.clock / 1000,clocked env p.trade s) := rfl
  have hget : (runner env).run (getTrade p.trade) (clocked env p.trade s) =
      (some t,clocked env p.trade s) := Prod.ext h rfl
  unfold checkTimeout
  rw [run_bind,hsecs]
  dsimp only
  rw [run_bind,hget]
  dsimp only
  split
  · rw [run_bind,hget]
    rfl
  · rfl

/-- What a pass does after the timeout check. -/
def afterClock (t : PaperTrade) (p : Pass) : ExitClock → Run Unit
  | .gone => pure ()
  | .timedOut u => forceClose p u.longOrder.size u.shortOrder.size
  | .young => if !t.stopLossTriggered && stopLossHit p t then stopLossExit p else pure ()

/-- A pass over a trade that waits for its exit orders runs up to the timeout check. -/
theorem pass_comes (hw : Waiting env id t long short longPrice shortPrice s) :
    Comes (runner env) Untimed (monitorTrade true id) s
      (afterClock t (passOver id t t longPrice shortPrice)
        (if pastTimeout ((atClock env id t long short s).world.clock / 1000) t then .timedOut t
          else .young) >>=
        fun _ => pure (.ok ()))
      (clocked env id (atClock env id t long short s)) := by
  have hget : (runner env).run (getTrade id) s = (some t,s) := Prod.ext hw.lookup rfl
  have hprices : (runner env).run (getCurrentPrices t.symbol) s = (.ok (longPrice,shortPrice),s) :=
    Prod.ext hw.prices (getCurrentPrices_state _ _)
  refine .seq (getTrade_untimed _) hget (.seq (getCurrentPrices_untimed _) hprices ?_)
  have hboth : (true && (t.longExitOrder.isSome && t.shortExitOrder.isSome)) = true := by
    rw [hw.long_exit,hw.short_exit]
    rfl
  dsimp only
  rw [if_pos hboth]
  refine .seq (getTrade_untimed _) hget (.bind ?_)
  have hlong := exitFilled_run (passOver id t t longPrice shortPrice) .long
    (by simp [passOver,Pass.exit,hw.long_exit]) hw.long_open
  have hshort := exitFilled_run (passOver id t t longPrice shortPrice) .short
    (by simp [passOver,Pass.exit,hw.short_exit]) hw.short_open
  have hclock := checkTimeout_run (s := atClock env id t long short s) env
    (passOver id t t longPrice shortPrice) hw.lookup
  refine .seq (exitFilled_untimed Branch.noConfusion _) hlong ?_
  refine .seq (exitFilled_untimed Branch.noConfusion _) hshort ?_
  refine .seq checkTimeout_untimed hclock ?_
  exact .here _ _

theorem passing_stays {op : RunnerOp} (hk : Passing id op) (h : (s.lookup id).isSome = true) :
    (((runner env).serve op s).2.lookup id).isSome = true := by
  cases op with
  | backend caller op => exact h
  | getMut i f =>
    obtain ⟨rfl,hf⟩ := hk
    change ((s.update i f).lookup i).isSome = true
    rw [lookup_update (fun t => (hf t).id_eq),Option.isSome_map]
    exact h
  | find q => exact h
  | get i => exact h
  | quotes a b c => exact h
  | _ => cases hk

/-- A pass does not take the trade out of the map. -/
theorem run_passing {p : Run α} (hp : p.Only (Passing id)) (h : (s.lookup id).isSome = true) :
    (((runner env).run p s).2.lookup id).isSome = true := by
  induction p generalizing s with
  | ret a => exact h
  | call op next ih => exact ih _ (hp.2 _) (passing_stays hp.1 h)

theorem getMut_lookup {i : TradeId} {f : PaperTrade → PaperTrade} (h : s.lookup i = some t)
    (hf : ∀ t, (f t).id = t.id) :
    ((runner env).run (getMutTrade i f) s).2.lookup i = some (f t) := by
  change (s.update i f).lookup i = some (f t)
  rw [lookup_update hf,h,Option.map_some,if_pos (lookup_id h)]

theorem markExiting_lookup {p : Pass} {reason : ExitReason} (h : (s.lookup p.trade).isSome = true) :
    (((runner env).run (markExiting p reason) s).2.lookup p.trade).map (fun t =>
      (t.status,t.exitReason)) =
      some (.exiting,some reason) := by
  obtain ⟨u,hu⟩ := Option.isSome_iff_exists.mp h
  unfold markExiting
  rw [getMut_lookup hu]
  · rfl
  · exact fun _ => rfl

/-- The timeout branch marks the trade. -/
theorem forceClose_marks {p : Pass} (longQuantity shortQuantity : ℚ)
    (h : (s.lookup p.trade).isSome = true) :
    (((runner env).run (forceClose p longQuantity shortQuantity) s).2.lookup p.trade).map
      (fun t => (t.status,t.exitReason)) =
        some (.exiting,some (.exitTimeout exitTimeoutSeconds)) := by
  unfold forceClose
  simp only [run_bind]
  apply markExiting_lookup
  apply run_passing ((closeRest_marking _ _ _ _).mono (fun _ h => h.acting.passing))
  apply run_passing ((closeRest_marking _ _ _ _).mono (fun _ h => h.acting.passing))
  apply run_passing ((timeoutLimit_marking _ _ _ _).mono (fun _ h => h.acting.passing))
  apply run_passing ((timeoutLimit_marking _ _ _ _).mono (fun _ h => h.acting.passing))
  apply run_passing ((cancelAndRead_marking _ _ _).mono (fun _ h => h.acting.passing))
  apply run_passing ((cancelAndRead_marking _ _ _).mono (fun _ h => h.acting.passing))
  exact h

section Closing

variable {p : Pass} {leg side : OrderSide}

theorem serve_grows_world (env : Surroundings) (op : RunnerOp) (s : Runner) :
    Grows s.world ((runner env).serve op s).2.world := by
  cases op with
  | backend caller op => exact serve_grows _ op s.world
  | getFundingRates | getAvailableCapital | getStartingCapital => exact grows_advance _ _
  | openTrade t =>
    simp only [runner]
    split <;> exact grows_advance _ _
  | closeTrade id profit reason =>
    simp only [runner]
    split <;> exact grows_advance _ _
  | resumeTrading => exact ⟨le_rfl,(Grows.refl _).order⟩
  | insert trade =>
    simp only [runner,Runner.put]
    split <;> exact .refl _
  | hold id =>
    simp only [runner]
    split <;> exact .refl _
  | _ => exact .refl _

theorem run_grows_world (q : Run α) (s : Runner) : Grows s.world ((runner env).run q s).2.world :=
  run_frame (R := fun a b => Grows a.world b.world) (fun _ => .refl _) (fun _ _ _ => Grows.trans)
    (fun op s => serve_grows_world env op s) q s

theorem Placed.grows {order : OrderId} {s' : Runner} (h : Placed leg order s)
    (hg : Grows s.world s'.world) : Placed leg order s' :=
  ⟨h.lt_count.trans_le hg.count_le,(hg.order order h.lt_count).side.trans h.side⟩

theorem opposite_iff : leg.opposite = side.opposite ↔ leg = side := by
  cases leg <;> cases side <;> simp [OrderSide.opposite]

/-- What the query for an order of a leg does for a leg. -/
theorem credit_status {order : OrderId} (h : Placed leg order s) (trade : TradeId)
    (exchange symbol : String) :
    credit env side s (.backend (.monitor trade .timeout)
      (.getOrderStatusDetailed exchange order symbol)) =
      if leg = side then reportedFill ((exchanges env.exchanges).serve
        (.getOrderStatusDetailed exchange order symbol) s.world).1 else 0 := by
  simp only [credit,h.side,opposite_iff]

theorem credit_market (leg side : OrderSide) (p : Pass) (trade : TradeId) (price size : ℚ)
    (secs : Nat) :
    credit env side s (.backend (.monitor trade .timeout)
      (.placeMarketOrder (p.closeOrder leg .market price size secs))) =
      if leg = side then size else 0 := by
  simp only [credit,Pass.closeOrder,opposite_iff]

theorem cancelAndRead_total {order : OrderId} (hexit : p.exit leg = some order)
    (h : Placed leg order s) :
    (runner env).total (credit env side) (cancelAndRead .timeout p leg) s =
      if leg = side then ((runner env).run (cancelAndRead .timeout p leg) s).1 else 0 := by
  unfold cancelAndRead
  rw [hexit]
  have hcancelled := h.grows (serve_grows_world env (.backend (.monitor p.trade .timeout)
    (.cancelOrder (p.exchange leg) order)) s)
  simp only [passCall,backendCall,total_bind,total_call,total_ret,run_bind,run_call,run_ret,
    credit_status hcancelled,total_pure,run_pure,add_zero]
  exact zero_add _

theorem place_placed {trade : TradeId} {price size : ℚ} {secs : Nat} {placed : SimulatedOrder}
    (h : ((runner env).serve (.backend (.monitor trade .timeout)
      (.placeOrder (p.closeOrder leg .limit price size secs))) s).1 = .ok placed) :
    Placed leg placed.id ((runner env).serve (.backend (.monitor trade .timeout)
      (.placeOrder (p.closeOrder leg .limit price size secs))) s).2 := by
  change (World.servePlace (env.exchanges s.world.tick) (s.world.advance env.exchanges) _).1 =
    .ok placed at h
  have hworld : ((runner env).serve (.backend (.monitor trade .timeout)
      (.placeOrder (p.closeOrder leg .limit price size secs))) s).2.world =
      (World.servePlace (env.exchanges s.world.tick) (s.world.advance env.exchanges)
        (p.closeOrder leg .limit price size secs)).2 := rfl
  unfold World.servePlace at h hworld
  cases hf : (env.exchanges s.world.tick).failure with
  | some e =>
    rw [hf] at h
    cases h
  | none =>
    rw [hf] at h hworld
    obtain rfl := Except.ok.inj h
    refine ⟨?_,?_⟩
    · rw [hworld]
      exact Nat.lt_succ_self _
    · rw [hworld]
      exact congrArg BookOrder.side (if_pos rfl)

/-- What a limit order of the timeout branch is seen to have filled. -/
theorem tryLimit_total (remaining filled : ℚ) :
    (runner env).total (credit env side) (tryLimit .timeout p leg remaining filled) s =
      if leg = side then ((runner env).run (tryLimit .timeout p leg remaining filled) s).1 - filled
        else 0 := by
  have hbest : (runner env).total (credit env side) (bestClosePrice .timeout p leg) s = 0 := by
    cases leg <;> exact zero_add _
  unfold tryLimit
  rw [total_bind,run_bind,hbest,zero_add]
  generalize (runner env).run (bestClosePrice .timeout p leg) s = best
  obtain ⟨r,s₁⟩ := best
  cases r with
  | error e => simp
  | ok price =>
    dsimp only
    have hsecs : ∀ s, (runner env).total (credit env side) (passSecs .timeout p) s = 0 :=
      fun _ => zero_add _
    rw [total_bind,run_bind,hsecs,zero_add]
    generalize (runner env).run (passSecs .timeout p) s₁ = secs
    obtain ⟨secs,s₂⟩ := secs
    have hplaced : ∀ placed, ((runner env).serve (.backend (.monitor p.trade .timeout)
        (.placeOrder (p.closeOrder leg .limit price remaining secs))) s₂).1 = .ok placed → _ :=
      fun placed h => place_placed h
    simp only [passCall,backendCall,total_bind,total_call,total_ret,run_bind,run_call,run_ret]
    have hzero : credit env side s₂ (.backend (.monitor p.trade .timeout)
        (.placeOrder (p.closeOrder leg .limit price remaining secs))) = 0 := rfl
    rw [hzero,zero_add,zero_add]
    generalize (runner env).serve (.backend (.monitor p.trade .timeout)
      (.placeOrder (p.closeOrder leg .limit price remaining secs))) s₂ = out at hplaced
    obtain ⟨answer,s₃⟩ := out
    cases answer with
    | error e => simp
    | ok placed =>
      have hasked := (hplaced placed rfl).grows
        (serve_grows_world env (.backend (.monitor p.trade .timeout) (.sleep 2000)) s₃)
      simp only [total_bind,total_call,total_ret,run_bind,run_call,run_ret,credit_status hasked,
        total_pure,run_pure]
      have hrest : ∀ (s : Runner) (id : OrderId),
          credit env side s (.backend (.monitor p.trade .timeout)
          (.cancelOrder (p.exchange leg) id)) = 0 := fun _ _ => rfl
      have hslept : credit env side s₃ (.backend (.monitor p.trade .timeout) (.sleep 2000)) = 0 :=
        rfl
      rw [hslept,hrest]
      split
      · simp only [zero_add,add_zero,add_sub_cancel_left]
        rfl
      · simp

theorem timeoutLimit_total (quantity filled : ℚ) :
    (runner env).total (credit env side) (timeoutLimit p leg quantity filled) s =
      if leg = side then ((runner env).run (timeoutLimit p leg quantity filled) s).1 - filled
        else 0 := by
  unfold timeoutLimit
  split
  · exact tryLimit_total _ _
  · simp

theorem closeRest_total (remaining : ℚ) :
    (runner env).total (credit env side) (closeRest .timeout p leg remaining) s =
      if leg = side ∧ remaining > dust then remaining else 0 := by
  unfold closeRest
  by_cases hr : remaining > dust
  · rw [if_pos hr]
    simp only [marketClose,passCall,backendCall,total_bind,total_call,total_ret,
      credit_market,total_pure]
    have hsecs : ∀ s, (runner env).total (credit env side) (passSecs .timeout p) s = 0 :=
      fun _ => zero_add _
    rw [hsecs,zero_add,add_zero,add_zero]
    simp [hr]
  · rw [if_neg hr]
    simp [hr]

/-- What the timeout branch does for a leg comes up to its size, but for dust. -/
theorem forceClose_total (env : Surroundings) {long short : OrderId}
    (hlong : p.exit .long = some long) (hshort : p.exit .short = some short)
    (hl : Placed .long long s) (hs : Placed .short short s)
    (longQuantity shortQuantity : ℚ) :
    longQuantity - dust ≤ (runner env).total (credit env .long)
      (forceClose p longQuantity shortQuantity) s ∧
    shortQuantity - dust ≤ (runner env).total (credit env .short)
      (forceClose p longQuantity shortQuantity) s := by
  have hmark : ∀ side s, (runner env).total (credit env side)
      (markExiting p (.exitTimeout exitTimeoutSeconds)) s =
      0 := fun _ _ => zero_add _
  have hgrows : Grows s.world ((runner env).run (cancelAndRead .timeout p .long) s).2.world :=
    run_grows_world _ s
  have hs' := hs.grows hgrows
  constructor
  all_goals
    unfold forceClose
    simp only [total_bind,cancelAndRead_total hlong hl,cancelAndRead_total hshort hs',
      timeoutLimit_total,closeRest_total,hmark,reduceCtorEq,if_true,if_false,true_and,false_and,
      zero_add,add_zero]
    have hdust : 0 < dust := by norm_num [dust]
    split
    · linarith
    · linarith

end Closing


theorem cancelAndRead_cancels {p : Pass} {leg : OrderSide} {order : OrderId}
    (hexit : p.exit leg = some order) :
    ¬ (runner env).Along (fun _ op => cancels order op = false)
      (cancelAndRead .timeout p leg) s := by
  unfold cancelAndRead
  rw [hexit]
  intro h
  have hno : cancels order
      (.backend (.monitor p.trade .timeout) (.cancelOrder (p.exchange leg) order)) = false :=
    h.1
  simp [cancels] at hno

/-- The pass force-closes a waiting trade exactly when both of its exit orders are past the
timeout in the eyes of the monitor. -/
theorem forceCloses_iff (hw : Waiting env id t long short longPrice shortPrice s) :
    ForceCloses env id t long.id short.id s ↔
      pastTimeout ((atClock env id t long short s).world.clock / 1000) t = true := by
  have hcomes := pass_comes hw
  constructor
  · intro hforce
    by_contra hyoung
    rw [if_neg hyoung] at hcomes
    refine hforce.1 (hcomes.along_of (fun _ op hk => hk.cancels long.id) ?_)
    have honly : (afterClock t (passOver id t t longPrice shortPrice) .young >>= fun _ =>
        (pure (.ok ()) : Run (Except PriceError Unit))).Only Untimed := by
      refine .bind ?_ (fun _ => trivial)
      change (if _ then stopLossExit _ else pure ()).Only Untimed
      split
      · exact stopLossExit_untimed
      · trivial
    exact along_only (honly.mono (fun op hk => hk.cancels long.id)) _
  · intro hpast
    rw [if_pos hpast] at hcomes
    have hlong : (passOver id t t longPrice shortPrice).exit .long = some long.id := by
      simp [passOver,Pass.exit,hw.long_exit]
    have hshort : (passOver id t t longPrice shortPrice).exit .short = some short.id := by
      simp [passOver,Pass.exit,hw.short_exit]
    have hpass : ∀ {C : Runner → RunnerOp → Prop}, (runner env).Along C (monitorTrade true id) s →
        (runner env).Along C (forceClose (passOver id t t longPrice shortPrice) t.longOrder.size
          t.shortOrder.size) (clocked env id (atClock env id t long short s)) :=
      fun h => ((along_bind _ _ _).mp (hcomes.along h)).1
    have htotal : ∀ leg, (runner env).total (credit env leg) (monitorTrade true id) s =
        (runner env).total (credit env leg)
          (forceClose (passOver id t t longPrice shortPrice) t.longOrder.size t.shortOrder.size)
          (clocked env id (atClock env id t long short s)) := by
      intro leg
      rw [hcomes.total (fun w op hk => hk.credit leg w),total_bind,total_pure,add_zero]
      rfl
    have hgrows : Grows s.world (clocked env id (atClock env id t long short s)).world :=
      ((serve_grows_world env _ _).trans (serve_grows_world env _ _)).trans
        (serve_grows_world env _ _)
    have hclosed := forceClose_total env hlong hshort (hw.long_placed.grows hgrows)
      (hw.short_placed.grows hgrows) t.longOrder.size t.shortOrder.size
    refine ⟨fun h => ?_,fun h => ?_,?_,?_,?_⟩
    · have hforce := hpass h
      unfold forceClose at hforce
      rw [along_bind] at hforce
      exact cancelAndRead_cancels hlong hforce.1
    · have hforce := hpass h
      unfold forceClose at hforce
      rw [along_bind,along_bind] at hforce
      exact cancelAndRead_cancels hshort hforce.2.1
    · rw [htotal]
      exact hclosed.1
    · rw [htotal]
      exact hclosed.2
    · rw [hcomes.run_eq,run_bind]
      refine forceClose_marks (p := passOver id t t longPrice shortPrice) _ _ ?_
      exact Option.isSome_iff_exists.mpr ⟨t,hw.lookup⟩

end Pass

/-- More than the timeout has passed since the order was placed. -/
def Overdue (localMs now : Nat) : Prop := localMs + exitTimeoutSeconds * 1000 < now

instance (localMs now : Nat) : Decidable (Overdue localMs now) :=
  inferInstanceAs (Decidable (_ < _))

/-- An order as it is asked for. -/
def asking (side : OrderSide) (price : ℚ) : KeyedOrder :=
  ⟨.caller "","bybit","BTCUSDT",side,.limit,price,1,none,0,none,none,.pending⟩

/-- A placed order with this number and stamp. -/
def order (id : OrderId) (side : OrderSide) (price : ℚ) (createdAt : Nat) : SimulatedOrder :=
  ⟨id,"bybit","BTCUSDT",side,.limit,price,1,none,createdAt,none,none,.pending⟩

def longExit (createdAt : Nat) : SimulatedOrder := order 2 .short (1009/10) createdAt
def shortExit (createdAt : Nat) : SimulatedOrder := order 3 .long (1001/10) createdAt

/-- A trade of one contract, entered at 100 and 101, with two exit orders of this stamp. -/
def waitingTrade (createdAt : Nat) : PaperTrade :=
  { placeholderTrade 0 ⟨"BTCUSDT","bybit","bybit",100,101,0,95,0,15000,15000⟩ with
    entryLongPrice := 100
    entryShortPrice := 101
    entrySpreadBps := 100
    positionSizeUsd := 101
    exitReason := none
    longOrder := order 0 .long 100 createdAt
    shortOrder := order 1 .short 101 createdAt
    longExitOrder := some (longExit createdAt)
    shortExitOrder := some (shortExit createdAt)
    stopLossLongPrice := 997/10
    stopLossShortPrice := 1013/10 }

/-- The books: both entry orders are filled, and both exit orders wait. -/
def waitingBook : OrderId → BookOrder
  | 0 => (World.fresh {} (order 0 .long 100 0)).trade 1
  | 1 => (World.fresh {} (order 1 .short 101 0)).trade 1
  | 2 => World.fresh {} (longExit 0)
  | _ => World.fresh {} (shortExit 0)

/-- The trade in the map at this time. -/
def waitingAt (clock createdAt : Nat) : Runner :=
  { Runner.new { World.empty with clock, count := 4, book := waitingBook } 1010 with
    trades := [waitingTrade createdAt] }

/-- Nothing trades, and both quotes are in the store. -/
def still : Surroundings where
  exchanges _ := {}
  quotes _ _ _ _ := (some 100,some 101)

theorem waitingAt_waits (clock createdAt : Nat) :
    Waiting still 0 (waitingTrade createdAt) (longExit createdAt) (shortExit createdAt) 100 101
      (waitingAt clock createdAt) where
  lookup := rfl
  long_exit := rfl
  short_exit := rfl
  long_placed := ⟨(by decide : 2 < 4),rfl⟩
  short_placed := ⟨(by decide : 3 < 4),rfl⟩
  prices := rfl
  long_open h := by
    have hpending : ((World.fresh {} (longExit 0)).trade 0).status = .pending := by decide +kernel
    exact OrderStatus.noConfusion (hpending.symm.trans (Except.ok.inj h))
  short_open h := by
    have hpending : (((World.fresh {} (shortExit 0)).trade 0).trade 0).status = .pending := by
      decide +kernel
    exact OrderStatus.noConfusion (hpending.symm.trans (Except.ok.inj h))

/-- Simulated exit orders have their stamp in seconds. -/
theorem simulated_stamped (localMs : Nat) (side : OrderSide) (price : ℚ) (id : OrderId) :
    Stamped (.new true true "okx") {} (asking side price) localMs 0
      (order id side price (localMs / 1000)) :=
  ⟨_,rfl,rfl⟩

theorem bybit_stamped (localMs : Nat) (side : OrderSide) (price : ℚ) (id : OrderId) :
    Stamped (.new true false "bybit") {} (asking side price) localMs 0
      (order id side price localMs) :=
  ⟨_,rfl,rfl⟩

end SpreadArb.Proofs.Timeout
