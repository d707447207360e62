import SpreadArb.Interact.Trace
import SpreadArb.Proofs.Exposure
import SpreadArb.Proofs.Requests

namespace SpreadArb.Proofs.Sold
open Interact Exposure

def entryOf (t : PaperTrade) : OrderSide → SimulatedOrder
  | .long => t.longOrder
  | .short => t.shortOrder

def exitOf (t : PaperTrade) : OrderSide → Option SimulatedOrder
  | .long => t.longExitOrder
  | .short => t.shortExitOrder

section Books

/-- The order closes the leg of the trade: it is the exit order of the leg, or a pass over the trade
placed it on the closing side. -/
def OfLeg (s : Runner) (t : PaperTrade) (leg : OrderSide) (i : OrderId) : Prop :=
  (exitOf t leg).map SimulatedOrder.id = some i ∨ s.owner i = some t.id ∧
    (s.world.book i).side = leg.opposite

instance (s : Runner) (t : PaperTrade) (leg : OrderSide) (i : OrderId) :
    Decidable (OfLeg s t leg i) :=
  inferInstanceAs (Decidable (_ ∨ _))

/-- A sum over the orders that close a leg. -/
def total (f : OrderId → ℚ) (s : Runner) (t : PaperTrade) (leg : OrderSide) : ℚ :=
  ∑ i ∈ Finset.range s.world.count, if OfLeg s t leg i then f i else 0

/-- What of a leg is closed: sold of the long one, bought back of the short one. -/
def closed (s : Runner) (t : PaperTrade) (leg : OrderSide) : ℚ :=
  total (fun i => (s.world.book i).filled) s t leg

/-- What of a leg is closed, and what its orders can still close. -/
def committed (s : Runner) (t : PaperTrade) (leg : OrderSide) : ℚ :=
  total (fun i => (s.world.book i).filled + rest (s.world.book i)) s t leg

variable {f g : OrderId → ℚ} {s s' : Runner} {t : PaperTrade} {leg : OrderSide}

theorem total_mono (h : ∀ i < s.world.count, OfLeg s t leg i → f i ≤ g i) :
    total f s t leg ≤ total g s t leg := by
  apply Finset.sum_le_sum
  intro i hi
  split
  · next hof => exact h i (Finset.mem_range.mp hi) hof
  · exact le_rfl

theorem total_congr (h : ∀ i < s.world.count, OfLeg s t leg i → f i = g i) :
    total f s t leg = total g s t leg :=
  le_antisymm (total_mono (fun i hi hof => (h i hi hof).le))
    (total_mono (fun i hi hof => (h i hi hof).ge))

theorem total_zero (h : ∀ i < s.world.count, OfLeg s t leg i → f i = 0) : total f s t leg = 0 := by
  rw [total_congr h]
  simp [total]

theorem rest_nonneg (o : BookOrder) : 0 ≤ rest o := by
  unfold rest
  split
  · exact sub_nonneg.mpr o.filled_le
  · exact le_rfl

theorem closed_le_committed (s : Runner) (t : PaperTrade) (leg : OrderSide) :
    closed s t leg ≤ committed s t leg :=
  total_mono (fun i _ _ => le_add_of_nonneg_right (rest_nonneg (s.world.book i)))

end Books

section Steps

/-- Between the two states no order was placed, and no record came or was altered. -/
structure Calm (s s' : Runner) : Prop extends Grows s.world s'.world where
  uuids_le : s.world.uuids ≤ s'.world.uuids
  count_eq : s'.world.count = s.world.count
  owner_eq : ∀ i < s.world.count, s'.owner i = s.owner i
  record : ∀ id t', s'.lookup id = some t' → ∃ t, s.lookup id = some t ∧ SameOrders t t'

variable {s s' : Runner} {t : PaperTrade} {leg : OrderSide}

theorem Calm.refl (s : Runner) : Calm s s :=
  ⟨.refl _,le_rfl,rfl,fun _ _ => rfl,fun _ t ht => ⟨t,ht,.refl t⟩⟩

theorem Calm.trans {a b c : Runner} (h : Calm a b) (k : Calm b c) : Calm a c where
  toGrows := h.toGrows.trans k.toGrows
  uuids_le := h.uuids_le.trans k.uuids_le
  count_eq := k.count_eq.trans h.count_eq
  owner_eq i hi := (k.owner_eq i (hi.trans_le h.count_le)).trans (h.owner_eq i hi)
  record id t'' ht'' := by
    obtain ⟨t',ht',ho'⟩ := k.record id t'' ht''
    obtain ⟨t,ht,ho⟩ := h.record id t' ht'
    exact ⟨t,ht,ho.trans ho'⟩

/-- The requests that place no order and bring no record. -/
def Still : RunnerOp → Prop
  | .backend _ op => ¬Places op
  | .getMut _ f => Tame f
  | .insert _ => False
  | _ => True

theorem calm_of_foreign (h : ∀ id, Foreign id s s') (hc : s'.world.count = s.world.count) :
    Calm s s' where
  toGrows := (h 0).toGrows
  uuids_le := (h 0).uuids_le
  count_eq := hc
  owner_eq := (h 0).owner_old
  record id t' ht' := by
    obtain ⟨t,ht,ho,-⟩ := (h id).record t' ht'
    exact ⟨t,ht,ho⟩

theorem calm_serve (env : Surroundings) {op : RunnerOp} (h : Still op) (s : Runner) :
    Calm s ((runner env).serve op s).2 := by
  cases op with
  | backend caller op =>
    refine ⟨serve_grows _ op s.world,serve_uuids _ s.world op,serve_count _ s.world h,?_,
      fun _ t ht => ⟨t,ht,.refl t⟩⟩
    exact fun i hi => if_neg (fun hn => absurd hi (not_lt.mpr hn.1))
  | insert trade => cases h
  | getMut id f =>
    exact calm_of_foreign (fun i =>
      serve_foreign env (show Proofs.Mild i (.getMut id f) from h) s) rfl
  | hold id =>
    refine calm_of_foreign (fun i =>
      serve_foreign env (show Proofs.Mild i (.hold id) from trivial) s) ?_
    simp only [runner]
    split <;> rfl
  | openTrade trade =>
    refine calm_of_foreign (fun i =>
      serve_foreign env (show Proofs.Mild i (.openTrade trade) from trivial) s) ?_
    simp only [runner]
    split <;> rfl
  | closeTrade id profit reason =>
    refine calm_of_foreign (fun i =>
      serve_foreign env (show Proofs.Mild i (.closeTrade id profit reason) from trivial) s) ?_
    simp only [runner]
    split <;> rfl
  | _ => exact calm_of_foreign (fun i => serve_foreign env (by trivial) s) rfl

theorem ofLeg_calm (h : Calm s s') {i : OrderId} (hi : i < s.world.count) :
    OfLeg s' t leg i ↔ OfLeg s t leg i := by
  unfold OfLeg
  rw [h.owner_eq i hi,(h.order i hi).side]

theorem total_calm (h : Calm s s') (f : OrderId → ℚ) : total f s' t leg = total f s t leg := by
  unfold total
  rw [h.count_eq]
  apply Finset.sum_congr rfl
  intro i hi
  rw [if_congr (ofLeg_calm h (Finset.mem_range.mp hi)) rfl rfl]

theorem committed_calm (h : Calm s s') : committed s' t leg ≤ committed s t leg := by
  unfold committed
  rw [total_calm h]
  exact total_mono (fun i hi _ => filled_add_rest_le (h.order i hi))

/-- An order was accepted, and is booked under the next number. -/
structure Accepts (env : Surroundings) (caller : Caller) (o : SimulatedOrder) (s s' : Runner) : Prop
    extends Grows s.world s'.world where
  uuids_eq : s'.world.uuids = s.world.uuids
  count_eq : s'.world.count = s.world.count+1
  owner_old : ∀ i < s.world.count, s'.owner i = s.owner i
  owner_new : s'.owner s.world.count = caller.trade
  old : ∀ i < s.world.count, s'.world.book i = (s.world.advance env.exchanges).book i
  side : (s'.world.book s.world.count).side = o.side
  size_le : (s'.world.book s.world.count).size ≤ max 0 o.size
  trades : s'.trades = s.trades

variable {env : Surroundings} {caller : Caller} {o : SimulatedOrder}

/-- A request that leaves the books with one order more. -/
theorem accepts_backend {op : BackendOp} {b : BookOrder}
    (h : ((exchanges env.exchanges).serve op s.world).2 = (s.world.advance env.exchanges).add b)
    (hside : b.side = o.side) (hsize : b.size ≤ max 0 o.size) :
    Accepts env caller o s ((runner env).serve (.backend caller op) s).2 := by
  have hworld : ((runner env).serve (.backend caller op) s).2.world =
      (s.world.advance env.exchanges).add b := h
  have hcount : ((exchanges env.exchanges).serve op s.world).2.count = s.world.count+1 := by
    rw [h]
    rfl
  have hnew : ((s.world.advance env.exchanges).add b).book s.world.count = b := if_pos rfl
  refine ⟨serve_grows _ op s.world,?_,hcount,?_,?_,?_,?_,?_,rfl⟩
  · rw [hworld]
    rfl
  · exact fun i hi => if_neg (fun hn => absurd hi (not_lt.mpr hn.1))
  · apply if_pos
    rw [hcount]
    exact ⟨le_rfl,Nat.lt_succ_self _⟩
  · intro i hi
    rw [hworld]
    exact if_neg hi.ne
  · rw [hworld,hnew]
    exact hside
  · rw [hworld,hnew]
    exact hsize

/-- A request that leaves the books as time has left them. -/
theorem calm_backend {op : BackendOp}
    (h : ((exchanges env.exchanges).serve op s.world).2 = s.world.advance env.exchanges) :
    Calm s ((runner env).serve (.backend caller op) s).2 := by
  have hcount : ((exchanges env.exchanges).serve op s.world).2.count = s.world.count := by
    rw [h]
    rfl
  refine ⟨serve_grows _ op s.world,serve_uuids _ s.world op,hcount,?_,fun _ t ht => ⟨t,ht,.refl t⟩⟩
  exact fun i hi => if_neg (fun hn => absurd hi (not_lt.mpr hn.1))

/-- A limit order is refused or accepted. -/
theorem placeOrder_cases (env : Surroundings) (caller : Caller) (o : SimulatedOrder) (s : Runner) :
    (∃ e, ((runner env).serve (.backend caller (.placeOrder o)) s).1 = .error e ∧
      Calm s ((runner env).serve (.backend caller (.placeOrder o)) s).2) ∨
    (∃ placed, ((runner env).serve (.backend caller (.placeOrder o)) s).1 = .ok placed ∧
      placed.id = s.world.count ∧
      Accepts env caller o s ((runner env).serve (.backend caller (.placeOrder o)) s).2) := by
  cases hf : (env.exchanges s.world.tick).failure with
  | some e =>
    have hserve : (exchanges env.exchanges).serve (.placeOrder o) s.world =
        (.error e,s.world.advance env.exchanges) := by simp [World.servePlace,hf]
    exact .inl ⟨e,congrArg Prod.fst hserve,calm_backend (congrArg Prod.snd hserve)⟩
  | none =>
    have hserve : ∃ placed : SimulatedOrder, placed.id = s.world.count ∧
        (exchanges env.exchanges).serve (.placeOrder o) s.world =
          (.ok placed,(s.world.advance env.exchanges).add
            (World.fresh (env.exchanges s.world.tick) o)) := by
      simp [World.servePlace,hf]
    obtain ⟨placed,hid,hserve⟩ := hserve
    exact .inr ⟨placed,congrArg Prod.fst hserve,hid,
      accepts_backend (congrArg Prod.snd hserve) rfl (min_le_left _ _)⟩

theorem freshMarket_size (c : Move) (o : SimulatedOrder) :
    (World.freshMarket c o).size = World.booked c o.size :=
  trade_size _ _

/-- A market order that is not refused. -/
theorem placeMarketOrder_accepts (env : Surroundings) (caller : Caller) (o : SimulatedOrder)
    (s : Runner) (hf : (env.exchanges s.world.tick).failure = none) :
    (∃ placed, ((runner env).serve (.backend caller (.placeMarketOrder o)) s).1 = .ok placed) ∧
      Accepts env caller o s ((runner env).serve (.backend caller (.placeMarketOrder o)) s).2 ∧
      ((runner env).serve (.backend caller (.placeMarketOrder o)) s).2.world.book s.world.count =
        World.freshMarket (env.exchanges s.world.tick) o := by
  have hserve : ∃ placed, (exchanges env.exchanges).serve (.placeMarketOrder o) s.world =
      (.ok placed,(s.world.advance env.exchanges).add
        (World.freshMarket (env.exchanges s.world.tick) o)) := by
    simp [World.serveMarket,hf]
  obtain ⟨placed,hserve⟩ := hserve
  refine ⟨⟨placed,congrArg Prod.fst hserve⟩,
    accepts_backend (congrArg Prod.snd hserve) (freshMarket_side _ _) ?_,?_⟩
  · rw [freshMarket_size]
    exact min_le_left _ _
  · change ((exchanges env.exchanges).serve (.placeMarketOrder o) s.world).2.book s.world.count = _
    rw [hserve]
    exact if_pos rfl

/-- A market order is refused or accepted. -/
theorem placeMarketOrder_cases (env : Surroundings) (caller : Caller) (o : SimulatedOrder)
    (s : Runner) :
    Calm s ((runner env).serve (.backend caller (.placeMarketOrder o)) s).2 ∨
      Accepts env caller o s ((runner env).serve (.backend caller (.placeMarketOrder o)) s).2 := by
  cases hf : (env.exchanges s.world.tick).failure with
  | some e =>
    apply Or.inl
    apply calm_backend
    simp [World.serveMarket,hf]
  | none => exact .inr (placeMarketOrder_accepts env caller o s hf).2.1

theorem ofLeg_accepts (h : Accepts env caller o s s') {i : OrderId} (hi : i < s.world.count) :
    OfLeg s' t leg i ↔ OfLeg s t leg i := by
  unfold OfLeg
  rw [h.owner_old i hi,(h.order i hi).side]

/-- The new order closes the leg if it is the trade's own and on that side. -/
theorem total_accepts (h : Accepts env caller o s s')
    (hexit : ∀ e, exitOf t leg = some e → e.id < s.world.count) (f : OrderId → ℚ) :
    total f s' t leg =
      total f s t leg + if caller.trade = some t.id ∧
        o.side = leg.opposite then f s.world.count else 0 := by
  have hold : ∀ i ∈ Finset.range s.world.count,
      (if OfLeg s' t leg i then f i else 0) = if OfLeg s t leg i then f i else 0 := by
    intro i hi
    rw [if_congr (ofLeg_accepts h (Finset.mem_range.mp hi)) rfl rfl]
  have hnew : OfLeg s' t leg s.world.count ↔ caller.trade = some t.id ∧ o.side = leg.opposite := by
    unfold OfLeg
    rw [h.owner_new,h.side]
    apply or_iff_right
    intro he
    obtain ⟨e,hexit',hid⟩ := Option.map_eq_some_iff.mp he
    exact absurd hid (hexit e hexit').ne
  unfold total
  rw [h.count_eq,Finset.sum_range_succ,Finset.sum_congr rfl hold,if_congr hnew rfl rfl]

end Steps

section Notes

/-- What an observer notes of a run: the trades that were put into the map, and what the monitor was
told since it turned to a trade that orders have filled. -/
structure Notes where
  entered : List PaperTrade
  told : OrderId → ℚ

namespace Notes

def start : Notes := ⟨[],fun _ => 0⟩

def hear (g : Notes) : Option (OrderId × ℚ) → Notes
  | some (i,x) => { g with told := fun j => if j = i then x else g.told j }
  | none => g

end Notes

def takeNotes (env : Surroundings) (g : Notes) (s : Runner) : RunnerOp → Notes
  | .insert t => { g with entered := t :: g.entered }
  | .monitoring (some _) => { g with told := fun _ => 0 }
  | .backend (.monitor ..) op => g.hear (sees op ((exchanges env.exchanges).serve op s.world).1)
  | _ => g

/-- The runner and its observer. -/
abbrev noted (env : Surroundings) : Machine runnerSig (Runner × Notes) :=
  (runner env).watch (takeNotes env)

/-- No leg of a trade was closed for more than its size. -/
def NeverOver (a : Runner × Notes) : Prop :=
  ∀ t ∈ a.2.entered, ∀ leg, closed a.1 t leg ≤ max 0 (entryOf t leg).size

/-- The orders that close this leg of the trade are over, and the pass knows all that they have
filled. -/
def Known (env : Surroundings) (a : Runner × Notes) (id : TradeId) (leg : OrderSide) : Prop :=
  ∀ t ∈ a.2.entered, t.id = id → ∀ i < a.1.world.count, OfLeg a.1 t leg i →
    ((a.1.world.advance env.exchanges).book i).live = false ∧
      ((a.1.world.advance env.exchanges).book i).filled ≤ a.2.told i

instance (env : Surroundings) (a : Runner × Notes) (id : TradeId) (leg : OrderSide) :
    Decidable (Known env a id leg) :=
  inferInstanceAs (Decidable (∀ t ∈ a.2.entered, t.id = id → ∀ i < a.1.world.count,
    OfLeg a.1 t leg i → _ ∧ _))

/-- The order that a pass places with this request. -/
def placing : RunnerOp → Option (TradeId × SimulatedOrder)
  | .backend (.monitor id _) (.placeOrder o) | .backend (.monitor id _) (.placeMarketOrder o) =>
    some (id,o)
  | _ => none

/-- When a pass places an order, it knows the leg that the order closes. -/
def Careful (env : Surroundings) (a : Runner × Notes) (op : RunnerOp) : Prop :=
  ∀ id o, placing op = some (id,o) → Known env a id o.side.opposite

instance (env : Surroundings) (a : Runner × Notes) (op : RunnerOp) : Decidable (Careful env a op) :=
  match h : placing op with
  | none => .isTrue (fun id o ho => by simp [h] at ho)
  | some (id,o) => decidable_of_iff (Known env a id o.side.opposite) (by simp [Careful,h])

/-- The orders of the trades that were put into the map. -/
structure Covered (a : Runner × Notes) : Prop where
  ids_lt : ∀ t ∈ a.2.entered, t.id < a.1.world.uuids
  distinct : ∀ t ∈ a.2.entered, ∀ u ∈ a.2.entered, t.id = u.id → t = u
  owners : ∀ i < a.1.world.count, ∀ id, a.1.owner i = some id → id < a.1.world.uuids
  exit_lt : ∀ t ∈ a.2.entered, ∀ leg e, exitOf t leg = some e → e.id < a.1.world.count
  exit_owner : ∀ t ∈ a.2.entered, ∀ leg e, exitOf t leg = some e → a.1.owner e.id = none
  exit_side : ∀ t ∈ a.2.entered, ∀ leg e, exitOf t leg = some e →
    (a.1.world.book e.id).side = leg.opposite
  unread : ∀ i, a.1.world.count ≤ i → a.2.told i = 0
  records : ∀ id u, a.1.lookup id = some u → ∃ t ∈ a.2.entered, t.id = id ∧ SameOrders t u
  within : ∀ t ∈ a.2.entered, ∀ leg, committed a.1 t leg ≤ max 0 (entryOf t leg).size

theorem Covered.neverOver {a : Runner × Notes} (h : Covered a) : NeverOver a :=
  fun t ht leg => (closed_le_committed a.1 t leg).trans (h.within t ht leg)

theorem covered_new (world : World) (startingCapital : ℚ) :
    Covered (.new world startingCapital,.start) where
  ids_lt _ ht := by cases ht
  distinct _ ht := by cases ht
  owners _ _ _ h := by cases h
  exit_lt _ ht := by cases ht
  exit_owner _ ht := by cases ht
  exit_side _ ht := by cases ht
  unread _ _ := rfl
  records _ _ h := by cases h
  within _ ht := by cases ht

variable {env : Surroundings} {a b : Runner × Notes}

theorem Covered.calm (h : Covered a) (k : Calm a.1 b.1) (he : b.2.entered = a.2.entered)
    (ht : ∀ i, a.1.world.count ≤ i → b.2.told i = 0) : Covered b where
  ids_lt t hm := (h.ids_lt t (he ▸ hm)).trans_le k.uuids_le
  distinct t hm u hu := h.distinct t (he ▸ hm) u (he ▸ hu)
  owners i hi id ho := by
    rw [k.count_eq] at hi
    rw [k.owner_eq i hi] at ho
    exact (h.owners i hi id ho).trans_le k.uuids_le
  exit_lt t hm leg e hx := (h.exit_lt t (he ▸ hm) leg e hx).trans_le k.count_le
  exit_owner t hm leg e hx := by
    rw [k.owner_eq _ (h.exit_lt t (he ▸ hm) leg e hx)]
    exact h.exit_owner t (he ▸ hm) leg e hx
  exit_side t hm leg e hx := by
    rw [(k.order _ (h.exit_lt t (he ▸ hm) leg e hx)).side]
    exact h.exit_side t (he ▸ hm) leg e hx
  unread i hi := ht i (k.count_eq ▸ hi)
  records id u hu := by
    obtain ⟨v,hv,ho⟩ := k.record id u hu
    obtain ⟨t,hm,hid,hs⟩ := h.records id v hv
    exact ⟨t,he ▸ hm,hid,hs.trans ho⟩
  within t hm leg := (committed_calm k).trans (h.within t (he ▸ hm) leg)

/-- An accepted order, if there is room for it on the leg that it closes. -/
theorem Covered.accepts {caller : Caller} {o : SimulatedOrder} (h : Covered a)
    (k : Accepts env caller o a.1 b.1) (hn : b.2 = a.2)
    (hcaller : ∀ id, caller.trade = some id → id < a.1.world.uuids)
    (hroom : ∀ t ∈ a.2.entered, ∀ leg, caller.trade = some t.id → o.side = leg.opposite →
    committed b.1 t leg ≤ max 0 (entryOf t leg).size) : Covered b where
  ids_lt t hm := by
    rw [k.uuids_eq]
    exact h.ids_lt t (hn ▸ hm)
  distinct t hm u hu := h.distinct t (hn ▸ hm) u (hn ▸ hu)
  owners i hi id ho := by
    rw [k.count_eq] at hi
    rw [k.uuids_eq]
    rcases Nat.lt_succ_iff_lt_or_eq.mp hi with hlt | heq
    · rw [k.owner_old i hlt] at ho
      exact h.owners i hlt id ho
    · rw [heq,k.owner_new] at ho
      exact hcaller id ho
  exit_lt t hm leg e hx := (h.exit_lt t (hn ▸ hm) leg e hx).trans_le k.count_le
  exit_owner t hm leg e hx := by
    rw [k.owner_old _ (h.exit_lt t (hn ▸ hm) leg e hx)]
    exact h.exit_owner t (hn ▸ hm) leg e hx
  exit_side t hm leg e hx := by
    rw [(k.order _ (h.exit_lt t (hn ▸ hm) leg e hx)).side]
    exact h.exit_side t (hn ▸ hm) leg e hx
  unread i hi := by
    rw [k.count_eq] at hi
    rw [hn]
    exact h.unread i (by omega)
  records id u hu := by
    have hlookup : b.1.lookup id = a.1.lookup id := by rw [Runner.lookup,Runner.lookup,k.trades]
    rw [hn]
    exact h.records id u (hlookup ▸ hu)
  within t hm leg := by
    by_cases hown : caller.trade = some t.id ∧ o.side = leg.opposite
    · exact hroom t (hn ▸ hm) leg hown.1 hown.2
    · unfold committed
      rw [total_accepts k (h.exit_lt t (hn ▸ hm) leg),if_neg hown,add_zero]
      apply le_trans _ (h.within t (hn ▸ hm) leg)
      exact total_mono (fun i hi _ => filled_add_rest_le (k.order i hi))

/-- There is room for what the pass thinks is left of a leg that it knows. -/
theorem committed_known {caller : Caller} {o : SimulatedOrder} {t : PaperTrade} {leg : OrderSide}
    {x : ℚ} (h : Covered a) (k : Accepts env caller o a.1 b.1) (hm : t ∈ a.2.entered)
    (hknown : Known env a t.id leg) (hcount : total a.2.told a.1 t leg ≤ x)
    (hsize : o.size ≤ (entryOf t leg).size - x) :
    committed b.1 t leg ≤ max 0 (entryOf t leg).size := by
  have hold : total (fun i => (b.1.world.book i).filled + rest (b.1.world.book i)) a.1 t
      leg ≤ x := by
    refine (total_mono (fun i hi hof => ?_)).trans hcount
    obtain ⟨hdead,hfilled⟩ := hknown t hm rfl i hi hof
    rw [k.old i hi,rest_dead hdead,add_zero]
    exact hfilled
  have hwithin : total (fun i => (b.1.world.book i).filled + rest (b.1.world.book i)) a.1 t leg ≤
      max 0 (entryOf t leg).size :=
    (total_mono (fun i hi _ => filled_add_rest_le (k.order i hi))).trans (h.within t hm leg)
  have hnew := (filled_add_rest_le_size (b.1.world.book a.1.world.count)).trans k.size_le
  unfold committed
  rw [total_accepts k (h.exit_lt t hm leg)]
  split
  · rcases le_total o.size 0 with hneg | hpos
    · rw [max_eq_left hneg] at hnew
      linarith
    · rw [max_eq_right hpos] at hnew
      apply le_trans _ (le_max_right 0 _)
      linarith
  · rw [add_zero]
    exact hwithin

end Notes

end SpreadArb.Proofs.Sold
