import SpreadArb.Interact.Join
import SpreadArb.ConfigStorage
import SpreadArb.Proofs.Frame

namespace SpreadArb.Proofs.Chase
open Interact Machine

section Orders

/-- The orders of a chase: the one it began with, and those placed since there were `n`. -/
def Own (first n : OrderId) (v : World) (i : OrderId) : Prop := i = first ∨ n ≤ i ∧ i < v.count

/-- The orders of a chase other than the current one are over, and none is larger than `q`. -/
structure Single (first n : OrderId) (q : ℚ) (current : OrderId) (v : World) : Prop where
  own : Own first n v current
  others : ∀ i, Own first n v i → i ≠ current → (v.book i).live = false
  size : ∀ i, Own first n v i → (v.book i).size ≤ q

/-- At most one order of the chase is alive, and no more than `reprices` were placed. -/
structure Safe (first n reprices : Nat) (q : ℚ) (v : World) : Prop where
  from_le : n ≤ v.count
  single : ∃ current, Single first n q current v
  count : v.count ≤ n + reprices

variable {first n reprices : Nat} {q : ℚ} {current : OrderId} {v v' : World}

theorem own_quiet (h : Quiet v v') (i : OrderId) : Own first n v' i ↔ Own first n v i := by
  simp [Own,h.count_eq]

theorem Own.lt {i : OrderId} (h : Own first n v i) (hfirst : first < n)
    (hn : n ≤ v.count) : i < v.count := by
  obtain rfl | ⟨_,hlt⟩ := h
  · exact hfirst.trans_le hn
  · exact hlt

theorem Single.quiet (hs : Single first n q current v) (hfirst : first < n) (hn : n ≤ v.count)
    (h : Quiet v v') : Single first n q current v' where
  own := (own_quiet h current).mpr hs.own
  others i hi hne := by
    have hown := (own_quiet h i).mp hi
    exact ((h.order i (hown.lt hfirst hn)).dead (hs.others i hown hne)).1
  size i hi := by
    have hown := (own_quiet h i).mp hi
    rw [(h.order i (hown.lt hfirst hn)).size]
    exact hs.size i hown

theorem Safe.quiet (hs : Safe first n reprices q v) (hfirst : first < n) (h : Quiet v v') :
    Safe first n reprices q v' where
  from_le := by
    rw [h.count_eq]
    exact hs.from_le
  single := by
    obtain ⟨current,hsingle⟩ := hs.single
    exact ⟨current,hsingle.quiet hfirst hs.from_le h⟩
  count := by
    rw [h.count_eq]
    exact hs.count

/-- A new order when all of the chase are over. -/
theorem single_placed {env : Env} {o placed : SimulatedOrder} (hp : Placed env v o placed v')
    (hfirst : first < n) (hn : n ≤ v.count) (hdead : ∀ i, Own first n v i → (v.book i).live = false)
    (hsize : ∀ i, Own first n v i → (v.book i).size ≤ q) (hq : 0 ≤ q) (ho : o.size ≤ q) :
    Single first n q placed.id v' := by
  have hold : ∀ i, Own first n v' i → i ≠ placed.id → Own first n v i := by
    intro i hi hne
    rw [hp.id_eq] at hne
    obtain rfl | ⟨hl,hr⟩ := hi
    · exact .inl rfl
    · rw [hp.count_eq] at hr
      exact .inr ⟨hl,lt_of_le_of_ne (Nat.lt_succ_iff.mp hr) hne⟩
  refine ⟨?_,?_,?_⟩
  · rw [hp.id_eq]
    exact .inr ⟨hn,by rw [hp.count_eq]; exact Nat.lt_succ_self _⟩
  · intro i hi hne
    have hown := hold i hi hne
    exact ((hp.order i (hown.lt hfirst hn)).dead (hdead i hown)).1
  · intro i hi
    by_cases hne : i = placed.id
    · rw [hne,hp.id_eq,hp.booked]
      exact (min_le_left _ _).trans (max_le hq ho)
    · have hown := hold i hi hne
      rw [(hp.order i (hown.lt hfirst hn)).size]
      exact hsize i hown

end Orders

section Safety

variable {env : Env} {first n : OrderId} {q : ℚ} {config : RepricingConfig} {order : SimulatedOrder}
  {metrics : RepricingMetrics} {w : World}

/-- No step of the chase leaves a safe state for another one. -/
def Guards (first n reprices : Nat) (q : ℚ) (v : World) (_ : BackendOp) (v' : World) : Prop :=
  Safe first n reprices q v → Safe first n reprices q v'

/-- Where the chase stands at the head of its loop. -/
structure Chasing (first n : Nat) (q : ℚ) (order : SimulatedOrder) (metrics : RepricingMetrics)
    (v : World) : Prop where
  single : Single first n q order.id v
  from_le : n ≤ v.count
  count : v.count ≤ n + metrics.repriceCount
  size : order.size ≤ q

theorem Chasing.quiet {v v' : World} (h : Chasing first n q order metrics v) (hfirst : first < n)
    (hq : Quiet v v') : Chasing first n q order metrics v' where
  single := h.single.quiet hfirst h.from_le hq
  from_le := by
    rw [hq.count_eq]
    exact h.from_le
  count := by
    rw [hq.count_eq]
    exact h.count
  size := h.size

variable {reprices : Nat}

theorem wpr_quiet (hfirst : first < n) {p : Prog backend α} (hp : p.Only Harmless) (w : World) :
    (exchanges env).wpr (· = ·) (fun _ _ => True) (Guards first n reprices q) p (fun _ w' =>
      Quiet w w') w := by
  refine wpr_mono (wpr_returns Quiet.refl (fun _ _ _ => Quiet.trans) ?_ ?_ hp
    (Prog.returns_true p) w) (fun _ _ h => h.2)
  · rintro a b rfl
    exact .refl a
  · intro op w hop _
    have hq := serve_quiet env op hop w
    exact ⟨fun hs => hs.quiet hfirst hq,hq⟩

/-- An accepted cancel leaves the order over. -/
theorem wpr_cancel (hfirst : first < n) (exchange : String) (id : OrderId) (w : World) :
    (exchanges env).wpr (· = ·) (fun _ _ => True) (Guards first n reprices q)
      (Backend.cancelOrder exchange id)
      (fun r w' => Quiet w w' ∧ (r = .ok () → (w'.book id).live = false)) w := by
  rintro v rfl _
  have hq := serve_quiet env (.cancelOrder exchange id) trivial w
  refine ⟨fun hs => hs.quiet hfirst hq,hq,?_⟩
  rw [serve_cancelOrder]
  unfold World.serveCancel
  split
  · intro h
    cases h
  · intro _
    rw [setOrder_book,if_pos rfl]
    exact kill_live _

theorem wpr_now (hfirst : first < n) (w : World) :
    (exchanges env).wpr (· = ·) (fun _ _ => True) (Guards first n reprices q) Backend.now
      (fun _ w' => Quiet w w') w :=
  wpr_quiet hfirst (p := Backend.now) ⟨trivial,fun _ => trivial⟩ w

/-- The current order is over too, so that another one may be placed. -/
theorem Chasing.over (h : Chasing first n q order metrics w)
    (hdead : (w.book order.id).live = false) (i : OrderId) (hi : Own first n w i) :
    (w.book i).live = false := by
  by_cases hid : i = order.id
  · rw [hid]
    exact hdead
  · exact h.single.others i hi hid

theorem wpr_place {o : SimulatedOrder} (hfirst : first < n) (hq : 0 ≤ q) (ho : o.size ≤ q)
    (hn : n ≤ w.count) (hdead : ∀ i, Own first n w i → (w.book i).live = false)
    (hsize : ∀ i, Own first n w i → (w.book i).size ≤ q) (hcount : w.count < n + reprices) :
    (exchanges env).wpr (· = ·) (fun _ _ => True) (Guards first n reprices q) (Backend.placeOrder o)
      (fun r w' => ∀ placed, r = .ok placed → Placed env w o placed w' ∧
        Single first n q placed.id w') w := by
  rintro v rfl _
  have hserve : (exchanges env).wp (fun _ _ => True) (Backend.placeOrder o)
      (fun r w' => Guards first n reprices q w (.placeOrder o) w' ∧
        ∀ placed, r = .ok placed → Placed env w o placed w' ∧ Single first n q placed.id w') w := by
    apply wp_placeOrder
    · intro e w' hquiet
      refine ⟨fun hs => hs.quiet hfirst hquiet,?_⟩
      intro placed h
      cases h
    · intro _ placed w' hp
      have hsingle := single_placed hp hfirst hn hdead hsize hq ho
      refine ⟨fun hs => ⟨?_,⟨placed.id,hsingle⟩,?_⟩,?_⟩
      · exact hs.from_le.trans hp.count_le
      · rw [hp.count_eq]
        exact hcount
      · intro placed' h
        cases h
        exact ⟨hp,hsingle⟩
  exact hserve trivial

/-- The order is cancelled before another one of the same size is placed. -/
theorem wpr_repriceOrder (hfirst : first < n) (hq : 0 ≤ q) (price : ℚ)
    (h : Chasing first n q order metrics w) (hcount : metrics.repriceCount < reprices) :
    (exchanges env).wpr (· = ·) (fun _ _ => True) (Guards first n reprices q)
      (repriceOrder order price metrics)
      (fun r w' => ∀ placed metrics', r = .ok (placed,metrics') → metrics'.repriceCount ≤ reprices ∧
        Chasing first n q placed metrics' w') w := by
  have hend : ∀ (e : String) (v : World) placed metrics',
      (.error e : Except String (SimulatedOrder × RepricingMetrics)) =
      .ok (placed,metrics') → metrics'.repriceCount ≤ reprices ∧
        Chasing first n q placed metrics' v := by
    intro e v placed metrics' h
    cases h
  unfold repriceOrder
  refine wpr_bind.mpr (wpr_mono (wpr_now hfirst w) (fun start w₁ hq₁ => ?_))
  refine wpr_bind.mpr (wpr_mono (wpr_cancel hfirst _ _ w₁) (fun r w₂ hr => ?_))
  obtain ⟨hq₂,hdead⟩ := hr
  cases r with
  | error e => exact hend _ w₂
  | ok u =>
    refine wpr_bind.mpr (wpr_mono (wpr_now hfirst w₂) (fun created w₃ hq₃ => ?_))
    have h₂ := h.quiet hfirst (hq₁.trans hq₂)
    have h₃ := h₂.quiet hfirst hq₃
    have hdead₃ := ((hq₃.order _ (h₂.single.own.lt hfirst h₂.from_le)).dead (hdead rfl)).1
    have hroom : w₃.count < n + reprices := by
      have := h₃.count
      omega
    refine wpr_bind.mpr (wpr_mono
      (wpr_place hfirst hq h₃.size h₃.from_le (h₃.over hdead₃) h₃.single.size hroom)
      (fun r w₄ hr => ?_))
    cases r with
    | error e => exact hend _ w₄
    | ok placed =>
      obtain ⟨hp,hsingle⟩ := hr placed rfl
      have h₄ : Chasing first n q placed
          { metrics with repriceCount := metrics.repriceCount+1 } w₄ := by
        refine ⟨hsingle,h₃.from_le.trans hp.count_le,?_,?_⟩
        · have hbefore := h₃.count
          rw [hp.count_eq]
          dsimp only
          omega
        · rw [hp.size_eq]
          exact h₃.size
      refine wpr_bind.mpr (wpr_mono (wpr_now hfirst w₄) (fun done w₅ hq₅ => ?_))
      intro placed' metrics' h
      cases h
      obtain ⟨hsingle₅,hfrom₅,hcount₅,hsize₅⟩ := h₄.quiet hfirst hq₅
      exact ⟨hcount,hsingle₅,hfrom₅,hcount₅,hsize₅⟩

/-- The order has traded its whole size, and no order of the chase can trade any more. -/
structure Settled (first n : OrderId) (placed : SimulatedOrder) (v : World) : Prop where
  filled : (v.book placed.id).filled = (v.book placed.id).size
  dead : ∀ i, Own first n v i → (v.book i).live = false

theorem status_filled {o : BookOrder} (h : o.status = .filled) : o.filled = o.size := by
  unfold BookOrder.status at h
  split at h
  · next hge => exact le_antisymm o.filled_le hge
  · split at h
    all_goals cases h

/-- A truthful answer that the order is filled. -/
theorem wpr_getOrderStatus (hfirst : first < n) (exchange : String) (id : OrderId) (w : World) :
    (exchanges env).wpr (· = ·) (fun _ _ => True) (Guards first n reprices q)
      (Backend.getOrderStatus exchange id)
      (fun r w' => Quiet w w' ∧
        (Truthful env → r = .ok .filled → (w'.book id).filled = (w'.book id).size)) w := by
  rintro v rfl _
  have hq := serve_quiet env (.getOrderStatus exchange id) trivial w
  refine ⟨fun hs => hs.quiet hfirst hq,hq,?_⟩
  intro ht h
  change World.answer _ (((env w.tick).report.map OrderStatusInfo.status).getD _) = _ at h
  unfold World.answer at h
  split at h
  · cases h
  · simp only [ht w.tick,Option.map_none,Option.getD_none,Except.ok.injEq] at h
    exact status_filled h

/-- The loop, by induction on the turns that are left. -/
theorem wpr_chaseWhile (hfirst : first < n) (hq : 0 ≤ q) (start timeout : Nat) {turns : Nat}
    (h : Chasing first n q order metrics w) (hle : metrics.repriceCount ≤ config.maxReprices) :
    (exchanges env).wpr (· = ·) (fun _ _ => True) (Guards first n config.maxReprices q)
      (chaseWhile config start timeout turns order metrics)
      (fun r w' => Truthful env → ∀ placed, r = some (.ok placed) →
        Settled first n placed w') w := by
  have hend : ∀ (r : Option (Except String SimulatedOrder)) (v : World),
      (∀ placed, r ≠ some (.ok placed)) →
      Truthful env → ∀ placed, r = some (.ok placed) → Settled first n placed v :=
    fun r v hr _ placed h => absurd h (hr placed)
  induction turns generalizing order metrics w with
  | zero => exact hend _ _ (by simp)
  | succ turns ih =>
    have hsleep : ∀ {order metrics v}, Chasing first n q order metrics v →
        metrics.repriceCount ≤ config.maxReprices →
        (exchanges env).wpr (· = ·) (fun _ _ => True) (Guards first n config.maxReprices q)
          (do
            let _ ← Backend.sleep config.repriceIntervalMs
            chaseWhile config start timeout turns order metrics)
          (fun r w' => Truthful env → ∀ placed, r = some (.ok placed) →
            Settled first n placed w') v := by
      intro order metrics v hv hcount
      refine wpr_bind.mpr (wpr_mono
        (wpr_quiet hfirst (p := Backend.sleep _) ⟨trivial,fun _ => trivial⟩ v)
        (fun _ v' hquiet => ?_))
      exact ih (hv.quiet hfirst hquiet) hcount
    unfold chaseWhile
    refine wpr_bind.mpr (wpr_mono (wpr_now hfirst w) (fun instant w₁ hq₁ => ?_))
    split
    · refine wpr_bind.mpr (wpr_mono (wpr_getOrderStatus hfirst _ _ w₁) (fun r w₂ hr => ?_))
      obtain ⟨hq₂,hfilled⟩ := hr
      have h₂ := h.quiet hfirst (hq₁.trans hq₂)
      cases r with
      | error e => exact hend _ _ (by simp)
      | ok status =>
        dsimp only
        split
        · next hstatus =>
          intro ht placed hplaced
          cases hplaced
          have hfill := hfilled ht (congrArg _ hstatus)
          exact ⟨hfill,h₂.over ((dead_iff _).mpr (.inr hfill))⟩
        split
        · exact hend _ _ (by simp)
        · next hless =>
          refine wpr_bind.mpr (wpr_mono
            (wpr_quiet hfirst ((getBestPriceForOrder_asks order).mono (fun _ => Asking.harmless))
            w₂) (fun r w₃ hq₃ => ?_))
          have h₃ := h₂.quiet hfirst hq₃
          cases r with
          | error e => exact hend _ _ (by simp)
          | ok bestPrice =>
            dsimp only
            split
            · refine wpr_bind.mpr (wpr_mono
                (wpr_repriceOrder hfirst hq bestPrice h₃ (not_le.mp hless)) (fun r w₄ hr => ?_))
              cases r with
              | error e => exact hend _ _ (by simp)
              | ok result =>
                obtain ⟨placed,metrics'⟩ := result
                obtain ⟨hcount,h₄⟩ := hr placed metrics' rfl
                exact hsleep h₄ hcount
            · exact hsleep h₃ hle
    · exact hend _ _ (by simp)

/-- What the orders of the chase have traded. -/
def traded (first n : OrderId) (v : World) : ℚ := (v.book first).filled + filledSince n v

theorem traded_le {reprices : Nat} {v : World} (hq : 0 ≤ q) (h : Safe first n reprices q v) :
    traded first n v ≤ (reprices+1)*q := by
  obtain ⟨current,hsingle⟩ := h.single
  have hfilled : ∀ i, Own first n v i → (v.book i).filled ≤ q :=
    fun i hi => (v.book i).filled_le.trans (hsingle.size i hi)
  have hplaced : filledSince n v ≤ (v.count - n : Nat)*q := by
    calc filledSince n v ≤ (Finset.Ico n v.count).card • q := by
          apply Finset.sum_le_card_nsmul
          intro i hi
          exact hfilled i (.inr (Finset.mem_Ico.mp hi))
      _ = (v.count - n : Nat)*q := by rw [Nat.card_Ico,nsmul_eq_mul]
  have hcount : ((v.count - n : Nat) : ℚ) ≤ reprices := by
    have := h.count
    exact_mod_cast (by omega : v.count - n ≤ reprices)
  calc traded first n v ≤ q + (v.count - n : Nat)*q := add_le_add (hfilled first (.inl rfl)) hplaced
    _ ≤ q + reprices*q := by gcongr
    _ = (reprices+1)*q := by ring

/-- Where a chase begins: with an order that the books know. -/
theorem chasing_start (hsize : (w.book order.id).size ≤ order.size) :
    Chasing order.id w.count order.size order (.new order.price) w where
  single := by
    refine ⟨.inl rfl,?_,?_⟩
    · intro i hi hne
      obtain rfl | ⟨hl,hr⟩ := hi
      · exact absurd rfl hne
      · exact absurd hr (not_lt.mpr hl)
    · intro i hi
      obtain rfl | ⟨hl,hr⟩ := hi
      · exact hsize
      · exact absurd hr (not_lt.mpr hl)
  from_le := le_rfl
  count := le_rfl
  size := le_rfl

theorem wpr_chaseUntilFilled (config : RepricingConfig) (timeout turns : Nat)
    (hbook : order.id < w.count) (hsize : (w.book order.id).size ≤ order.size) :
    (exchanges env).wpr (· = ·) (fun _ _ => True)
      (Guards order.id w.count config.maxReprices order.size)
      (chaseUntilFilled config order timeout turns)
      (fun r w' => Truthful env → ∀ placed, r = some (.ok placed) →
        Settled order.id w.count placed w') w := by
  have hq : 0 ≤ order.size :=
    (w.book order.id).filled_nonneg.trans ((w.book order.id).filled_le.trans hsize)
  refine wpr_bind.mpr (wpr_mono (wpr_now hbook w) (fun start w₁ hq₁ => ?_))
  exact wpr_chaseWhile hbook hq start timeout ((chasing_start hsize).quiet hbook hq₁)
    (Nat.zero_le _)

theorem safe_visited (config : RepricingConfig) (timeout turns : Nat) (hbook : order.id < w.count)
    (hsize : (w.book order.id).size ≤ order.size) {v : World}
    (hv : (exchanges env).Visits (fun _ _ => True)
    (chaseUntilFilled config order timeout turns) w v) :
    Safe order.id w.count config.maxReprices order.size v := by
  have hstart : Safe order.id w.count config.maxReprices order.size w := by
    refine ⟨le_rfl,⟨order.id,(chasing_start hsize).single⟩,?_⟩
    exact Nat.le_add_right _ _
  exact visits_of_wpr (fun _ _ _ _ hg => hg) (wpr_chaseUntilFilled config timeout turns hbook hsize)
    hstart hv

/-- At any time of a chase at most one of its orders is alive, there were at most `maxReprices` new
ones, and all together trade no more than as many times the size. If the exchange answers
truthfully, the order that a chase returns has traded its size, and all the others are over. -/
theorem chase_keeps_one_order (env : Env) (config : RepricingConfig) (order : SimulatedOrder)
    (timeout turns : Nat) (w : World) (hbook : order.id < w.count)
    (hsize : (w.book order.id).size ≤ order.size) :
    (∀ v, (exchanges env).Visits (fun _ _ => True) (chaseUntilFilled config order timeout turns) w
      v → Safe order.id w.count config.maxReprices order.size v ∧
      traded order.id w.count v ≤ (config.maxReprices+1)*order.size) ∧
    (Truthful env → ∀ placed,
      ((exchanges env).run (chaseUntilFilled config order timeout turns) w).1 = some (.ok placed) →
      Settled order.id w.count placed
        ((exchanges env).run (chaseUntilFilled config order timeout turns) w).2) := by
  have hq : 0 ≤ order.size :=
    (w.book order.id).filled_nonneg.trans ((w.book order.id).filled_le.trans hsize)
  refine ⟨?_,run_of_wpr (wpr_chaseUntilFilled config timeout turns hbook hsize)⟩
  intro v hv
  have hsafe := safe_visited config timeout turns hbook hsize hv
  exact ⟨hsafe,traded_le hq hsafe⟩

/-- An order for ten contracts. -/
def tenAt (price : ℚ) (id : OrderId) (status : OrderStatus) : SimulatedOrder where
  id := id
  exchange := "bybit"
  symbol := "BTCUSDT"
  side := .long
  orderType := .limit
  price := price
  size := 10
  queuePosition := none
  createdAt := 0
  filledAt := none
  fillPrice := none
  status := status

/-- The best bid is 101, and the second order is filled while the chase sleeps. -/
def risen : Env := fun _ => { value := 101, trades := fun i => if i = 1 then 10 else 0 }

def tenBooked : World := World.empty.add (World.fresh {} (tenAt 100 0 .pending))

theorem repriced_once_and_filled :
    Settled 0 1 (tenAt 101 1 .pending)
      ((exchanges risen).run (chaseUntilFilled .balanced (tenAt 100 0 .pending) 3000 2)
        tenBooked).2 := by
  have hsize : (tenBooked.book 0).size ≤ 10 := by decide +kernel
  have hfilled : ((exchanges risen).run (chaseUntilFilled .balanced (tenAt 100 0 .pending) 3000 2)
      tenBooked).1 =
      some (.ok (tenAt 101 1 .pending)) := by decide +kernel
  exact (chase_keeps_one_order risen .balanced (tenAt 100 0 .pending) 3000 2 tenBooked
    (by decide) hsize).2
    (fun _ => rfl) _ hfilled

end Safety

section Ending

variable {env : Env} {config : RepricingConfig} {order : SimulatedOrder}
  {metrics : RepricingMetrics}
  {C : World → BackendOp → Prop} {w : World}

/-- The clock never goes back. -/
theorem serve_clock (env : Env) (op : BackendOp) (w : World) :
    w.clock ≤ ((exchanges env).serve op w).2.clock := by
  have hadvance : w.clock ≤ (w.advance env).clock := Nat.le_add_right _ _
  cases op with
  | placeOrder o =>
    rw [serve_placeOrder]
    unfold World.servePlace
    split
    all_goals exact hadvance
  | placeMarketOrder o =>
    rw [serve_placeMarketOrder]
    unfold World.serveMarket
    split
    all_goals exact hadvance
  | cancelOrder exchange id =>
    rw [serve_cancelOrder]
    unfold World.serveCancel
    split
    all_goals exact hadvance
  | getOrderStatusDetailed exchange id symbol =>
    rw [serve_getOrderStatusDetailed]
    unfold World.serveStatus
    split
    all_goals exact hadvance
  | tryAcquireHedgeLock symbol =>
    simp only [exchanges]
    split
    all_goals exact le_rfl
  | sleep ms => exact hadvance.trans (Nat.le_add_right _ _)
  | now => exact le_rfl
  | isTradingHalted => exact le_rfl
  | haltTrading reason => exact le_rfl
  | dropHedgeLock symbol => exact le_rfl
  | alert a => exact le_rfl
  | newUuid => exact le_rfl
  | _ => exact hadvance

theorem wp_clock (p : Prog backend α) (w : World) :
    (exchanges env).wp C p (fun _ w' => w.clock ≤ w'.clock) w :=
  Machine.wp_only (R := fun a b => a.clock ≤ b.clock) (fun _ => le_rfl) (fun _ _ _ => le_trans)
    (fun op w _ _ => serve_clock env op w) (Machine.only_true p) w

theorem wp_sleep (ms : Nat) (w : World) :
    (exchanges env).wp C (Backend.sleep ms) (fun _ w' => w.clock+ms ≤ w'.clock) w :=
  fun _ => Nat.add_le_add_right (Nat.le_add_right _ _) ms

/-- The loop uses up its turns only if each of them began in time. Every turn but the last
sleeps. -/
theorem wp_chaseWhile_none (start timeout turns : Nat) :
    (exchanges env).wp C (chaseWhile config start timeout turns order metrics)
      (fun r _ => r = none → ∀ k < turns,
        w.clock + k*config.repriceIntervalMs < start + timeout) w := by
  induction turns generalizing order metrics w with
  | zero => exact fun _ k hk => absurd hk (Nat.not_lt_zero k)
  | succ turns ih =>
    have hsleep : ∀ {order metrics v}, w.clock < start + timeout → w.clock ≤ v.clock →
        (exchanges env).wp C (do
            let _ ← Backend.sleep config.repriceIntervalMs
            chaseWhile config start timeout turns order metrics)
          (fun r _ => r = none → ∀ k < turns+1,
            w.clock + k*config.repriceIntervalMs < start + timeout) v := by
      intro order metrics v hin hle
      refine wp_bind.mpr (wp_mono (wp_sleep _ v) (fun _ v' hslept => ?_))
      refine wp_mono ih (fun r _ hr hnone k hk => ?_)
      cases k with
      | zero => simpa using hin
      | succ k =>
        have hnext := hr hnone k (Nat.lt_of_succ_lt_succ hk)
        rw [Nat.succ_mul]
        omega
    unfold chaseWhile
    intro _
    change (exchanges env).wp C (if w.clock - start < timeout then _ else _) _ w
    split
    · next htime =>
      have hin : w.clock < start + timeout := by omega
      refine wp_bind.mpr (wp_mono (wp_clock _ w) (fun r w₁ h₁ => ?_))
      cases r with
      | error e => simp
      | ok status =>
        dsimp only
        split
        · simp
        split
        · simp
        refine wp_bind.mpr (wp_mono (wp_clock _ w₁) (fun r w₂ h₂ => ?_))
        cases r with
        | error e => simp
        | ok bestPrice =>
          dsimp only
          split
          · refine wp_bind.mpr (wp_mono (wp_clock _ w₂) (fun r w₃ h₃ => ?_))
            cases r with
            | error e => simp
            | ok result => exact hsleep hin (h₁.trans (h₂.trans h₃))
          · exact hsleep hin (h₁.trans h₂)
    · simp

/-- Enough turns for the timeout, if the chase sleeps between them. -/
theorem chaseUntilFilled_ends (env : Env) (order : SimulatedOrder) (w : World) {timeout turns : Nat}
    (h : timeout ≤ turns*config.repriceIntervalMs) :
    ((exchanges env).run (chaseUntilFilled config order timeout (turns+1)) w).1 ≠ none := by
  have hrun : (exchanges env).wp (fun _ _ => True) (chaseUntilFilled config order timeout (turns+1))
      (fun r _ => r = none → ∀ k < turns+1,
        w.clock + k*config.repriceIntervalMs < w.clock + timeout) w :=
    fun _ => wp_chaseWhile_none w.clock timeout (turns+1)
  intro hnone
  have hlast := ((exchanges env).wp_iff _ _ _ w).mp hrun (along_true _ w) hnone turns
      (Nat.lt_succ_self turns)
  omega

end Ending

section Settings

open ConfigStorage ConfigValidator

/-- What is saved. -/
inductive Save where
  | repricing (config : RepricingConfig)
  | thresholds (ultraFast balanced : ℚ)

def Save.apply (codec : ConfigCodec) (s : ConfigStorage) : Save → ConfigStorage
  | .repricing config => saveRepricingConfig codec s config
  | .thresholds ultraFast balanced => saveConfidenceThresholds codec s ultraFast balanced

def saveAll (codec : ConfigCodec) (saves : List Save) : ConfigStorage :=
  saves.foldl (Save.apply codec) .new

/-- The configuration saved last. -/
def lastConfig (saves : List Save) : RepricingConfig :=
  saves.foldl (fun config save =>
    match save with
    | .repricing new => new
    | .thresholds _ _ => config) .balanced

def lastThresholds (saves : List Save) : ℚ × ℚ :=
  saves.foldl (fun kept save =>
    match save with
    | .repricing _ => kept
    | .thresholds u b => (u,b)) (90,75)

/-- The text is read as it was written. -/
def Save.ReadBack (codec : ConfigCodec) : Save → Prop
  | .repricing config => codec.readConfig (codec.configText config) = .ok config
  | .thresholds ultraFast balanced =>
    codec.readThresholds (codec.thresholdsText (ultraFast,balanced)) = .ok (ultraFast,balanced)

variable {codec : ConfigCodec}

theorem repricingKey_ne : repricingKey ≠ thresholdsKey := by decide

/-- What was saved last is loaded; the two kinds of settings do not touch each other. -/
theorem load_saveAll {saves : List Save} (h : ∀ save ∈ saves, save.ReadBack codec) :
    loadRepricingConfig codec (saveAll codec saves) = .ok (lastConfig saves) ∧
      loadConfidenceThresholds codec (saveAll codec saves) = .ok (lastThresholds saves) := by
  induction saves using List.reverseRecOn with
  | nil => exact ⟨rfl,rfl⟩
  | append_singleton saves save ih =>
    obtain ⟨hconfig,hthresholds⟩ := ih (fun old hin => h old (List.mem_append_left _ hin))
    have hread := h save (by simp)
    unfold saveAll lastConfig lastThresholds at *
    rw [List.foldl_concat,List.foldl_concat,List.foldl_concat]
    cases save with
    | repricing config =>
      constructor
      · simp [loadRepricingConfig,Save.apply,saveRepricingConfig,
          show codec.readConfig _ = _ from hread,Except.mapError]
      · simpa [loadConfidenceThresholds,Save.apply,saveRepricingConfig,
          repricingKey_ne.symm] using hthresholds
    | thresholds ultraFast balanced =>
      constructor
      · simpa [loadRepricingConfig,Save.apply,saveConfidenceThresholds,
          repricingKey_ne] using hconfig
      · simp [loadConfidenceThresholds,Save.apply,saveConfidenceThresholds,
          show codec.readThresholds _ = _ from hread,Except.mapError]

/-- The ranges of the parameters. -/
structure InRange (config : RepricingConfig) : Prop where
  threshold : 1 ≤ config.repriceThresholdBps ∧ config.repriceThresholdBps ≤ 20
  reprices : 1 ≤ config.maxReprices ∧ config.maxReprices ≤ 10
  interval : 50 ≤ config.repriceIntervalMs ∧ config.repriceIntervalMs ≤ 500
  timeout : 1 ≤ config.totalTimeoutSeconds ∧ config.totalTimeoutSeconds ≤ 10
  collapse : 20 ≤ config.spreadCollapseThresholdBps ∧ config.spreadCollapseThresholdBps ≤ 100

theorem validate_ok_iff (config : RepricingConfig) :
    validateRepricingConfig config = .ok () ↔ InRange config := by
  unfold validateRepricingConfig
  constructor
  · intro h
    split at h
    · cases h
    split at h
    · cases h
    split at h
    · cases h
    split at h
    · cases h
    split at h
    · cases h
    simp only [Bool.or_eq_true,decide_eq_true_eq,not_or,not_lt] at *
    constructor
    all_goals assumption
  · rintro ⟨threshold,reprices,interval,timeout,collapse⟩
    simp only [← not_lt] at *
    simp [*]

theorem presets_in_range (mode : ExecutionMode) : InRange (.preset mode) := by
  constructor
  all_goals norm_num [RepricingConfig.preset]

theorem lastConfig_inRange {saves : List Save}
    (h : ∀ config, .repricing config ∈ saves → validateRepricingConfig config = .ok ()) :
    InRange (lastConfig saves) := by
  induction saves using List.reverseRecOn with
  | nil => exact presets_in_range .balanced
  | append_singleton saves save ih =>
    unfold lastConfig at *
    rw [List.foldl_concat]
    cases save with
    | repricing config => exact (validate_ok_iff config).mp (h config (by simp))
    | thresholds ultraFast balanced =>
      apply ih
      intro config hin
      exact h config (List.mem_append_left _ hin)

/-- If only configurations that pass the validation were saved, whatever else was saved between, the
one that is loaded bounds every chase: it ends within 201 turns and never has placed more than ten
orders. -/
theorem stored_config_bounds_chase (codec : ConfigCodec) (saves : List Save)
    (hread : ∀ save ∈ saves, save.ReadBack codec)
    (hvalid : ∀ config, .repricing config ∈ saves → validateRepricingConfig config = .ok ()) :
    ∃ config, loadRepricingConfig codec (saveAll codec saves) = .ok config ∧
      ∀ env order w, order.id < w.count →
      (w.book order.id).size ≤ order.size →
      ((exchanges env).run (chaseUntilFilled config order (config.totalTimeoutSeconds*1000) 201)
        w).1 ≠ none ∧
      ∀ v, (exchanges env).Visits (fun _ _ => True)
        (chaseUntilFilled config order (config.totalTimeoutSeconds*1000) 201) w v →
          v.count ≤ w.count + 10 := by
  have hrange := lastConfig_inRange hvalid
  refine ⟨lastConfig saves,(load_saveAll hread).1,?_⟩
  intro env order w hbook hsize
  constructor
  · apply chaseUntilFilled_ends
    have htimeout := hrange.timeout.2
    have hinterval := hrange.interval.1
    omega
  · intro v hv
    have hcount := (safe_visited _ _ _ hbook hsize hv).count
    have hreprices := hrange.reprices.2
    omega

/-- The texts of one configuration and of one pair of thresholds, in braces. -/
def safeOnly : ConfigCodec where
  configText _ := ("".push '{' ++
    "\"reprice_threshold_bps\":5.0,\"max_reprices\":5,\"reprice_interval_ms\":100," ++
    "\"total_timeout_seconds\":3,\"spread_collapse_threshold_bps\":50.0," ++
    "\"execution_mode\":\"Safe\"").push '}'
  readConfig _ := .ok .safe
  thresholdsText _ :=
    ("".push '{' ++ "\"ultra_fast_threshold\":95.0,\"balanced_threshold\":80.0").push '}'
  readThresholds _ := .ok (95,80)

/-- Thresholds saved later do not touch the configuration. -/
theorem safe_config_bounds_chase :
    ∃ config, loadRepricingConfig safeOnly (saveAll safeOnly [.repricing .safe,.thresholds 95 80]) =
      .ok config ∧
      ((exchanges risen).run (chaseUntilFilled config (tenAt 100 0 .pending)
        (config.totalTimeoutSeconds*1000) 201) tenBooked).1 ≠ none := by
  have hread : ∀ save ∈ [Save.repricing .safe,.thresholds 95 80], save.ReadBack safeOnly := by
    intro save hin
    simp only [List.mem_cons,List.not_mem_nil,or_false] at hin
    obtain rfl | rfl := hin
    · exact rfl
    · exact rfl
  have hvalid : ∀ config, Save.repricing config ∈ [Save.repricing .safe,.thresholds 95 80] →
      validateRepricingConfig config = .ok () := by
    simp [validate_ok_iff,RepricingConfig.safe,presets_in_range]
  obtain ⟨config,hload,hends⟩ := stored_config_bounds_chase safeOnly _ hread hvalid
  have hsize : (tenBooked.book 0).size ≤ 10 := by decide +kernel
  obtain ⟨hend,_⟩ := hends risen (tenAt 100 0 .pending) tenBooked Nat.one_pos hsize
  exact ⟨config,hload,hend⟩

end Settings

end SpreadArb.Proofs.Chase
