import SpreadArb.ScanLoop
import SpreadArb.Proofs.Frame

namespace SpreadArb.Proofs
open Interact

/-- The parts of a trade record that nothing changes once it is in the map. -/
structure SameOrders (t t' : PaperTrade) : Prop where
  longOrder : t'.longOrder = t.longOrder
  shortOrder : t'.shortOrder = t.shortOrder
  longExit : t'.longExitOrder = t.longExitOrder
  shortExit : t'.shortExitOrder = t.shortExitOrder
  longExchange : t'.longExchange = t.longExchange
  shortExchange : t'.shortExchange = t.shortExchange

theorem SameOrders.refl (t : PaperTrade) : SameOrders t t := ⟨rfl,rfl,rfl,rfl,rfl,rfl⟩

theorem SameOrders.trans {a b c : PaperTrade} (h : SameOrders a b) (k : SameOrders b c) :
    SameOrders a c :=
  ⟨k.1.trans h.1,k.2.trans h.2,k.3.trans h.3,k.4.trans h.4,k.5.trans h.5,k.6.trans h.6⟩

/-- The record keeps its symbol, its size and its orders, a trade can only go on its way out,
and no trade becomes a placeholder. -/
structure Kept (t t' : PaperTrade) : Prop where
  id_eq : t'.id = t.id
  orders : SameOrders t t'
  symbol : t'.symbol = t.symbol
  size : t'.positionSizeUsd = t.positionSizeUsd
  status : t'.status = t.status ∨ t'.status = .exiting
  reason : t'.exitReason = some .placeholder → t.exitReason = some .placeholder

theorem Kept.refl (t : PaperTrade) : Kept t t := ⟨rfl,.refl t,rfl,rfl,.inl rfl,fun h => h⟩

theorem Kept.exiting {t t' : PaperTrade} (h : Kept t t') (hs : t.status = .exiting) :
    t'.status = .exiting :=
  h.status.elim (fun he => he.trans hs) (fun he => he)

theorem Kept.trans {a b c : PaperTrade} (h : Kept a b) (k : Kept b c) : Kept a c where
  id_eq := k.id_eq.trans h.id_eq
  orders := h.orders.trans k.orders
  symbol := k.symbol.trans h.symbol
  size := k.size.trans h.size
  status := by
    rcases k.status with hk | hk
    · rw [hk]
      exact h.status
    · exact .inr hk
  reason hr := h.reason (k.reason hr)

/-- An update that keeps every record. -/
def Tame (f : PaperTrade → PaperTrade) : Prop := ∀ t, Kept t (f t)

section Map

variable {s : Runner} {id i : TradeId}

theorem lookup_update {f : PaperTrade → PaperTrade} (hf : ∀ t, (f t).id = t.id) :
    (s.update i f).lookup id = (s.lookup id).map (fun t => if t.id = i then f t else t) := by
  unfold Runner.lookup Runner.update
  rw [List.find?_map]
  congr 1
  congr 1
  funext t
  simp only [Function.comp]
  split
  · rw [hf]
  · rfl

theorem lookup_id {t : PaperTrade} (h : s.lookup id = some t) : t.id = id := by
  have := List.find?_some h
  simpa using this

theorem lookup_erase : (s.erase i).lookup id = if id = i then none else s.lookup id := by
  unfold Runner.lookup Runner.erase
  rw [List.find?_filter]
  by_cases h : id = i
  · subst h
    rw [if_pos rfl]
    simp
  · rw [if_neg h]
    congr 1
    funext t
    by_cases ht : t.id = id
    · simp [ht,h]
    · simp [ht]

/-- An insertion is nothing to the exchanges. -/
theorem put_books (s : Runner) (slot : Nat) (trade : PaperTrade) :
    (s.put slot trade).world = s.world ∧ (s.put slot trade).owner = s.owner ∧
      (s.put slot trade).seen = s.seen := by
  unfold Runner.put
  split <;> exact ⟨rfl,rfl,rfl⟩

/-- A trade of another id does not show. -/
theorem lookup_put {slot : Nat} {t : PaperTrade} (h : t.id ≠ id) :
    (s.put slot t).lookup id = s.lookup id := by
  unfold Runner.put
  split
  · unfold Runner.lookup Runner.update
    induction s.trades with
    | nil => rfl
    | cons u us ih =>
      by_cases hu : u.id = t.id
      · have hne : u.id ≠ id := hu ▸ h
        simpa [hu,h,hne] using ih
      · by_cases hi : u.id = id
        · simp [hi,h.symm]
        · simpa [hu,hi] using ih
  · unfold Runner.lookup
    rw [List.find?_append,List.find?_cons,show decide (t.id = id) = false by simpa using h,
      ← List.find?_append,List.take_append_drop]

/-- A trade found after an insertion was there before it, or is the one inserted. -/
theorem lookup_put_cases {s : Runner} {slot : Nat} {t u : PaperTrade} {id : TradeId}
    (h : (s.put slot t).lookup id = some u) : u = t ∨ s.lookup id = some u := by
  by_cases hid : t.id = id
  · left
    have hmem := List.mem_of_find?_eq_some h
    have hu : u.id = t.id := (lookup_id h).trans hid.symm
    unfold Runner.put at hmem
    split at hmem
    · obtain ⟨v,hv,he⟩ := List.mem_map.mp hmem
      split at he
      case isTrue => exact he.symm
      case isFalse hne => exact absurd (he ▸ hu) hne
    case isFalse hnone =>
      have hold : u ∉ s.trades := by
        intro hin
        apply hnone
        simp only [Runner.lookup,List.find?_isSome]
        exact ⟨u,hin,by simpa using hu⟩
      rcases List.mem_append.mp hmem with htake | hrest
      · exact absurd (List.mem_of_mem_take htake) hold
      · exact (List.mem_cons.mp hrest).resolve_right (fun hdrop =>
          hold (List.mem_of_mem_drop hdrop))
  · rw [lookup_put hid] at h
    exact .inr h

end Map

/-- The step did nothing for the trade `id`: orders placed are not its own, what its passes
were told stands, and its record is as before, further on its way out, or gone. -/
structure Foreign (id : TradeId) (s s' : Runner) : Prop extends Grows s.world s'.world where
  uuids_le : s.world.uuids ≤ s'.world.uuids
  owner_old : ∀ i < s.world.count, s'.owner i = s.owner i
  owner_new : ∀ i, s.world.count ≤ i → i < s'.world.count → s'.owner i ≠ some id
  seen_eq : s'.seen id = s.seen id
  record : ∀ t', s'.lookup id = some t' → ∃ t, s.lookup id = some t ∧ SameOrders t t' ∧
    (t.status = .exiting → t'.status = .exiting)

theorem Foreign.refl (id : TradeId) (s : Runner) : Foreign id s s where
  toGrows := .refl _
  uuids_le := le_rfl
  owner_old _ _ := rfl
  owner_new _ hl hr := absurd hr (not_lt.mpr hl)
  seen_eq := rfl
  record t ht := ⟨t,ht,.refl t,fun h => h⟩

theorem Foreign.trans {id : TradeId} {a b c : Runner} (h : Foreign id a b) (k : Foreign id b c) :
    Foreign id a c where
  toGrows := h.toGrows.trans k.toGrows
  uuids_le := h.uuids_le.trans k.uuids_le
  owner_old i hi := (k.owner_old i (hi.trans_le h.count_le)).trans (h.owner_old i hi)
  owner_new i hl hr := by
    by_cases hi : i < b.world.count
    · rw [k.owner_old i hi]
      exact h.owner_new i hl hi
    · exact k.owner_new i (not_lt.mp hi) hr
  seen_eq := k.seen_eq.trans h.seen_eq
  record t'' ht'' := by
    obtain ⟨t',ht',ho',he'⟩ := k.record t'' ht''
    obtain ⟨t,ht,ho,he⟩ := h.record t' ht'
    exact ⟨t,ht,ho.trans ho',fun hx => he' (he hx)⟩

/-- The requests that place an order, and those that tell of a fill. -/
def Places : BackendOp → Prop
  | .placeOrder _ | .placeMarketOrder _ => True
  | _ => False

def Tells : BackendOp → Prop
  | .getOrderStatusDetailed .. => True
  | _ => False

/-- The requests that do nothing for the trade `id`. -/
def Mild (id : TradeId) : RunnerOp → Prop
  | .backend caller op => caller.trade = some id → ¬ Places op ∧ ¬ Tells op
  | .getMut _ f => Tame f
  | .insert trade => trade.id ≠ id
  | _ => True

section Steps

variable (env : Env) (w : World)

theorem serve_count {op : BackendOp} (h : ¬ Places op) :
    ((exchanges env).serve op w).2.count = w.count := by
  cases op with
  | placeOrder _ => exact absurd trivial h
  | placeMarketOrder _ => exact absurd trivial h
  | haltTrading _ => rfl
  | dropHedgeLock _ => rfl
  | tryAcquireHedgeLock _ =>
    simp only [exchanges]
    split <;> rfl
  | cancelOrder ex i => exact (serve_quiet env (.cancelOrder ex i) trivial w).count_eq
  | getOrderStatusDetailed ex i sym =>
    exact (serve_quiet env (.getOrderStatusDetailed ex i sym) trivial w).count_eq
  | _ => rfl

theorem serve_uuids (op : BackendOp) : w.uuids ≤ ((exchanges env).serve op w).2.uuids := by
  cases op with
  | placeOrder _ =>
    rw [serve_placeOrder]
    unfold World.servePlace
    split <;> exact le_rfl
  | placeMarketOrder _ =>
    rw [serve_placeMarketOrder]
    unfold World.serveMarket
    split <;> exact le_rfl
  | cancelOrder _ _ =>
    rw [serve_cancelOrder]
    unfold World.serveCancel
    split <;> exact le_rfl
  | getOrderStatusDetailed _ _ _ =>
    rw [serve_getOrderStatusDetailed]
    unfold World.serveStatus
    split <;> exact le_rfl
  | tryAcquireHedgeLock _ =>
    simp only [exchanges]
    split <;> exact le_rfl
  | newUuid => exact Nat.le_succ _
  | _ => exact le_rfl

/-- The exchanges forgot nothing, and no id was given back. -/
structure Later (w w' : World) : Prop extends Grows w w' where
  uuids_le : w.uuids ≤ w'.uuids

theorem Later.refl (w : World) : Later w w := ⟨.refl w,le_rfl⟩

theorem Later.trans {a b c : World} (h : Later a b) (k : Later b c) : Later a c :=
  ⟨h.toGrows.trans k.toGrows,h.uuids_le.trans k.uuids_le⟩

theorem serve_later (op : BackendOp) : Later w ((exchanges env).serve op w).2 :=
  ⟨serve_grows env op w,serve_uuids env w op⟩

end Steps

theorem sees_none {op : BackendOp} (h : ¬ Tells op) (r : BackendOp.Ans op) : sees op r = none := by
  cases op <;> first | rfl | exact absurd trivial h

theorem note_none (caller : Caller) (seen : TradeId → OrderId → ℚ) :
    note caller none seen = seen := by
  unfold note
  cases caller.trade <;> rfl

theorem note_other {caller : Caller} {id : TradeId} (h : caller.trade ≠ some id)
    (told : Option (OrderId × ℚ)) (seen : TradeId → OrderId → ℚ) :
    note caller told seen id = seen id := by
  unfold note
  cases hc : caller.trade with
  | none => rfl
  | some trade =>
    cases told with
    | none => rfl
    | some told =>
      have hne : id ≠ trade := fun he => h (by rw [hc,he])
      funext i
      simp [hne]

/-- A step that leaves the map alone. -/
theorem foreign_of_world {id : TradeId} {s s' : Runner} (hg : Grows s.world s'.world)
    (hu : s.world.uuids ≤ s'.world.uuids) (hc : s'.world.count = s.world.count)
    (ho : s'.owner = s.owner) (hs : s'.seen = s.seen) (ht : s'.trades = s.trades) :
    Foreign id s s' where
  toGrows := hg
  uuids_le := hu
  owner_old i _ := by rw [ho]
  owner_new i hl hr := absurd hr (by rw [hc]; exact not_lt.mpr hl)
  seen_eq := by rw [hs]
  record t h := ⟨t,by rw [← h,Runner.lookup,Runner.lookup,ht],.refl t,fun h => h⟩

theorem foreign_advance (id : TradeId) (env : Surroundings) (s : Runner) :
    Foreign id s (s.advance env) :=
  foreign_of_world (grows_advance _ _) le_rfl rfl rfl rfl rfl

theorem foreign_backend {id : TradeId} (env : Surroundings) (s : Runner) {caller : Caller}
    {op : BackendOp} (h : Mild id (.backend caller op)) :
    Foreign id s ((runner env).serve (.backend caller op) s).2 where
  toGrows := serve_grows _ op s.world
  uuids_le := serve_uuids _ s.world op
  owner_old i hi := if_neg (fun hn => absurd hi (not_lt.mpr hn.1))
  owner_new i hl hr := by
    change (if s.world.count ≤ i ∧ i < _ then caller.trade else s.owner i) ≠ some id
    rw [if_pos ⟨hl,hr⟩]
    intro hc
    have hcount := serve_count env.exchanges s.world (h hc).1
    exact absurd hr (by rw [show (((runner env).serve (.backend caller op) s).2.world).count =
      s.world.count from hcount]; exact not_lt.mpr hl)
  seen_eq := by
    change note caller (sees op _) s.seen id = s.seen id
    by_cases hc : caller.trade = some id
    · rw [sees_none (h hc).2,note_none]
    · exact note_other hc _ _
  record t ht := ⟨t,ht,.refl t,fun h => h⟩

theorem serve_foreign {id : TradeId} (env : Surroundings) {op : RunnerOp} (h : Mild id op)
    (s : Runner) : Foreign id s ((runner env).serve op s).2 := by
  cases op with
  | backend caller op => exact foreign_backend env s h
  | getMut i f =>
    refine { Foreign.refl id s with record := fun t' ht' => ?_ }
    have ht : (s.update i f).lookup id = some t' := ht'
    rw [lookup_update (fun t => (h t).id_eq)] at ht
    obtain ⟨t,htl,he⟩ := Option.map_eq_some_iff.mp ht
    refine ⟨t,htl,?_⟩
    split at he
    · subst he
      exact ⟨(h t).orders,(h t).exiting⟩
    · subst he
      exact ⟨.refl t,fun h => h⟩
  | insert trade =>
    obtain ⟨hworld,howner,hseen⟩ := put_books s (env.slot s.world.tick) trade
    refine ⟨?_,?_,?_,?_,?_,fun t' ht' => ?_⟩
    · exact hworld ▸ .refl _
    · exact hworld ▸ le_rfl
    · exact fun i _ => congrFun howner i
    · intro i hl hr
      exact absurd hr (by rw [show ((runner env).serve (.insert trade) s).2.world =
        s.world from hworld]; exact not_lt.mpr hl)
    · exact congrFun hseen id
    · have ht : (s.put (env.slot s.world.tick) trade).lookup id = some t' := ht'
      rw [lookup_put h] at ht
      exact ⟨t',ht,.refl t',fun h => h⟩
  | remove i =>
    refine { Foreign.refl id s with record := fun t' ht' => ?_ }
    have ht : (s.erase i).lookup id = some t' := ht'
    rw [lookup_erase] at ht
    split at ht
    · cases ht
    · exact ⟨t',ht,.refl t',fun h => h⟩
  | hold i =>
    simp only [runner]
    split
    · exact foreign_of_world (.refl _) le_rfl rfl rfl rfl rfl
    · exact .refl id s
  | openTrade trade =>
    simp only [runner]
    split
    · exact foreign_advance id env s
    · exact foreign_of_world (grows_advance _ _) le_rfl rfl rfl rfl rfl
  | closeTrade i profit reason =>
    simp only [runner]
    split
    · exact foreign_advance id env s
    · exact foreign_of_world (grows_advance _ _) le_rfl rfl rfl rfl rfl
  | getFundingRates _ => exact foreign_advance id env s
  | getAvailableCapital => exact foreign_advance id env s
  | getStartingCapital => exact foreign_advance id env s
  | resumeTrading => exact foreign_of_world ⟨le_rfl,(Grows.refl _).order⟩ le_rfl rfl rfl rfl rfl
  | _ => exact foreign_of_world (.refl _) le_rfl rfl rfl rfl rfl

end SpreadArb.Proofs
