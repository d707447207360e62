import SpreadArb.Proofs.Sold

namespace SpreadArb.Proofs.Sold
open Interact Machine Exposure

section Steps

/-- The requests that place no order, tell of no fill and turn to no other trade. -/
def Quiet : RunnerOp → Prop
  | .backend _ op => ¬Places op ∧ ¬Tells op
  | .getMut _ f => Tame f
  | .insert _ | .monitoring (some _) => False
  | _ => True

/-- What the exit check does to the monitor. -/
structure Rely (a b : Runner × Notes) : Prop where
  calm : Calm a.1 b.1
  notes : b.2 = a.2

theorem Rely.refl (a : Runner × Notes) : Rely a a := ⟨.refl _,rfl⟩

theorem Rely.trans {a b c : Runner × Notes} (h : Rely a b) (k : Rely b c) : Rely a c :=
  ⟨h.calm.trans k.calm,k.notes.trans h.notes⟩

theorem quiet_rely (env : Surroundings) {op : RunnerOp} (h : Quiet op) (a : Runner × Notes) :
    Rely a ((noted env).serve op a).2 := by
  cases op with
  | backend caller op =>
    refine ⟨calm_serve env (show Still (.backend caller op) from h.1) a.1,?_⟩
    cases caller with
    | monitor trade branch =>
      change a.2.hear (sees op _) = a.2
      rw [sees_none h.2]
      rfl
    | _ => rfl
  | getMut id f => exact ⟨calm_serve env (show Still (.getMut id f) from h) a.1,rfl⟩
  | insert trade => cases h
  | monitoring m =>
    cases m with
    | some id => cases h
    | none => exact ⟨calm_serve env (by trivial) a.1,rfl⟩
  | _ => exact ⟨calm_serve env (by trivial) a.1,rfl⟩

variable {a b : Runner × Notes}

theorem Covered.rely (h : Covered a) (k : Rely a b) : Covered b := by
  apply h.calm k.calm
  · rw [k.notes]
  · rw [k.notes]
    exact h.unread

/-- A step of the monitor. -/
def Keeps (a : Runner × Notes) (_ : RunnerOp) (b : Runner × Notes) : Prop := Covered a → Covered b

/-- The monitor among the steps of the exit check. -/
abbrev monitors (env : Surroundings) (x : Run α) (Q : α → Runner × Notes → Prop)
    (a : Runner × Notes) : Prop :=
  (noted env).wpr Rely (Careful env) Keeps x Q a

end Steps

section Counting

/-- What the program has counted of a leg: nothing yet, or what it was told. -/
def Counts (a : Runner × Notes) (t : PaperTrade) (leg : OrderSide) : Option ℚ → Prop
  | none => ∀ i < a.1.world.count, OfLeg a.1 t leg i → a.2.told i = 0
  | some x => total a.2.told a.1 t leg = x

/-- A pass over the trade is under way and has counted this much of its legs. -/
structure During (t : PaperTrade) (c : OrderSide → Option ℚ) (a : Runner × Notes) : Prop where
  covered : Covered a
  entered : t ∈ a.2.entered
  counts : ∀ leg, Counts a t leg (c leg)

/-- An order of the leg that the pass was not told of. -/
structure Unheard (t : PaperTrade) (leg : OrderSide) (i : OrderId) (a : Runner × Notes) : Prop where
  lt_count : i < a.1.world.count
  ofLeg : OfLeg a.1 t leg i
  side : (a.1.world.book i).side = leg.opposite
  told : a.2.told i = 0

variable {env : Surroundings} {t : PaperTrade} {p : Pass} {branch : Branch}
  {c : OrderSide → Option ℚ}
  {a b : Runner × Notes} {leg : OrderSide}

theorem Counts.rely {account : Option ℚ} (h : Counts a t leg account) (k : Rely a b) :
    Counts b t leg account := by
  cases account with
  | none =>
    intro i hi hof
    rw [k.calm.count_eq] at hi
    rw [k.notes]
    exact h i hi ((ofLeg_calm k.calm hi).mp hof)
  | some x =>
    unfold Counts
    rw [k.notes,total_calm k.calm]
    exact h

theorem During.rely (h : During t c a) (k : Rely a b) : During t c b where
  covered := h.covered.rely k
  entered := by
    rw [k.notes]
    exact h.entered
  counts leg := (h.counts leg).rely k

theorem Unheard.rely {i : OrderId} (h : Unheard t leg i a) (k : Rely a b) : Unheard t leg i b where
  lt_count := h.lt_count.trans_le k.calm.count_le
  ofLeg := (ofLeg_calm k.calm h.lt_count).mpr h.ofLeg
  side := (k.calm.order i h.lt_count).side.trans h.side
  told := by
    rw [k.notes]
    exact h.told

/-- The account of a leg may be replaced by another true one. -/
theorem During.update (h : During t c a) {account : Option ℚ} (hleg : Counts a t leg account) :
    During t (Function.update c leg account) a where
  covered := h.covered
  entered := h.entered
  counts other := by
    by_cases he : other = leg
    · rw [he,Function.update_self]
      exact hleg
    · rw [Function.update_of_ne he]
      exact h.counts other

theorem During.start (h : During t c a) (hc : c leg = none) :
    During t (Function.update c leg (some 0)) a := by
  have hcount := h.counts leg
  rw [hc] at hcount
  exact h.update (total_zero hcount)

/-- Requests that are nothing to the books. -/
theorem quiet_during {x : Run α} (hx : x.Only Quiet) (h : During t c a) :
    monitors env x (fun _ b => During t c b) a := by
  refine wpr_invariant (fun _ _ k h => h.rely k) (fun op b hop _ hb => ?_) hx h
  have hrely := quiet_rely env hop b
  exact ⟨fun hcovered => hcovered.rely hrely,hb.rely hrely⟩

theorem quiet_unheard {x : Run α} (hx : x.Only Quiet) {i : OrderId} (h : During t c a)
    (hi : Unheard t leg i a) : monitors env x (fun _ b => During t c b ∧ Unheard t leg i b) a := by
  refine wpr_invariant (I := fun b => During t c b ∧ Unheard t leg i b) (fun _ _ k h =>
    ⟨h.1.rely k,h.2.rely k⟩)
    (fun op b hop _ hb => ?_) hx ⟨h,hi⟩
  have hrely := quiet_rely env hop b
  exact ⟨fun hcovered => hcovered.rely hrely,hb.1.rely hrely,hb.2.rely hrely⟩

/-- The record that a pass reads. -/
theorem getTrade_during (h : During t c a) :
    monitors env (getTrade t.id) (fun r b => During t c b ∧ ∀ u, r = some u →
      SameOrders t u) a := by
  intro b hb _
  have hduring := h.rely hb
  have hrely := quiet_rely env (show Quiet (.get t.id) from trivial) b
  refine ⟨fun hcovered => hcovered.rely hrely,hduring.rely hrely,?_⟩
  intro u hu
  obtain ⟨v,hv,hid,hs⟩ := hduring.covered.records t.id u hu
  rw [hduring.covered.distinct t hduring.entered v hv hid.symm]
  exact hs

end Counting

section Orders

variable {env : Surroundings} {t : PaperTrade} {p : Pass} {branch : Branch}
  {c : OrderSide → Option ℚ}
  {a b : Runner × Notes} {leg : OrderSide} {i : OrderId}

/-- An order closes one leg only. -/
theorem not_ofLeg (h : Covered a) (ht : t ∈ a.2.entered)
    (hside : (a.1.world.book i).side = leg.opposite) {other : OrderSide} (hne : other ≠ leg) :
    ¬OfLeg a.1 t other i := by
  intro hof
  have hother : (a.1.world.book i).side = other.opposite := by
    rcases hof with hexit | ⟨_,hs⟩
    · obtain ⟨e,he,hid⟩ := Option.map_eq_some_iff.mp hexit
      exact hid ▸ h.exit_side t ht other e he
    · exact hs
  rw [hside] at hother
  apply hne
  revert hother
  cases leg <;> cases other <;> simp [OrderSide.opposite]

/-- What the notes say after an answer about the order. -/
theorem hear_told {g : Notes} {r : ℚ} (j : OrderId) :
    (g.hear (some (i,r))).told j = if j = i then r else g.told j :=
  rfl

theorem total_hear {s : Runner} {g : Notes} {r : ℚ} (hi : i < s.world.count) (hof : OfLeg s t leg i)
    (hzero : g.told i = 0) :
    total (g.hear (some (i,r))).told s t leg = total g.told s t leg + r := by
  have hsplit : ∀ j, (if OfLeg s t leg j then (g.hear (some (i,r))).told j else 0) =
      (if OfLeg s t leg j then g.told j else 0) + if j = i then r else 0 := by
    intro j
    rw [hear_told]
    by_cases hj : j = i
    · rw [hj,if_pos hof,if_pos hof,if_pos rfl,hzero]
      simp
    · simp [hj]
  unfold total
  rw [Finset.sum_congr rfl (fun j _ => hsplit j),Finset.sum_add_distrib,Finset.sum_ite_eq',
    if_pos (Finset.mem_range.mpr hi)]

/-- The state after an answer about the order. -/
theorem hear_during {r x : ℚ} (h : During t c a) (hi : Unheard t leg i a) (hc : c leg = some x)
    (k : Calm a.1 b.1) (hn : b.2 = a.2.hear (some (i,r))) :
    During t (Function.update c leg (some (x + r))) b where
  covered := by
    apply h.covered.calm k
    · rw [hn]
      rfl
    · intro j hj
      have hne : j ≠ i := fun he => absurd hi.lt_count (he ▸ not_lt.mpr hj)
      rw [hn,hear_told,if_neg hne]
      exact h.covered.unread j hj
  entered := by
    rw [hn]
    exact h.entered
  counts other := by
    by_cases he : other = leg
    · have hcount := h.counts leg
      rw [hc] at hcount
      rw [he,Function.update_self]
      unfold Counts
      rw [total_calm k,hn,total_hear hi.lt_count hi.ofLeg hi.told,hcount]
    · have hnot := not_ofLeg h.covered h.entered hi.side he
      have hsame : ∀ j < a.1.world.count, OfLeg a.1 t other j → b.2.told j = a.2.told j := by
        intro j _ hof
        have hne : j ≠ i := fun hj => hnot (hj ▸ hof)
        rw [hn,hear_told,if_neg hne]
      have hcount := h.counts other
      rw [Function.update_of_ne he]
      cases hother : c other with
      | none =>
        rw [hother] at hcount
        intro j hj hof
        rw [k.count_eq] at hj
        have hof := (ofLeg_calm k hj).mp hof
        rw [hsame j hj hof]
        exact hcount j hj hof
      | some y =>
        rw [hother] at hcount
        unfold Counts
        rw [total_calm k,total_congr hsame]
        exact hcount

/-- A status query for an order of the leg: what it tells is counted. -/
theorem status_during {x : ℚ} (h : During t c a) (hi : Unheard t leg i a) (hc : c leg = some x)
    (exchange symbol : String) :
    monitors env (passCall branch p (.getOrderStatusDetailed exchange i symbol))
      (fun r b => During t (Function.update c leg (some (x + reportedFill r))) b) a := by
  intro v hv _
  have hstill : Still (.backend (.monitor p.trade branch)
      (.getOrderStatusDetailed exchange i symbol)) := fun h => h
  have hcalm := calm_serve env hstill v.1
  have hnotes : ((noted env).serve
      (.backend (.monitor p.trade branch) (.getOrderStatusDetailed exchange i symbol)) v).2.2 =
      v.2.hear (sees (.getOrderStatusDetailed exchange i symbol)
        ((noted env).serve (.backend (.monitor p.trade branch)
          (.getOrderStatusDetailed exchange i symbol)) v).1) := rfl
  change Calm v.1 ((noted env).serve
    (.backend (.monitor p.trade branch) (.getOrderStatusDetailed exchange i symbol)) v).2.1 at hcalm
  generalize (noted env).serve
    (.backend (.monitor p.trade branch) (.getOrderStatusDetailed exchange i symbol)) v =
      out at hcalm hnotes ⊢
  obtain ⟨answer,w⟩ := out
  have hafter : During t (Function.update c leg (some (x + reportedFill answer))) w := by
    cases answer with
    | error e =>
      have hduring := (h.rely hv).rely ⟨hcalm,hnotes⟩
      have hcount := hduring.counts leg
      rw [hc] at hcount
      simpa [reportedFill] using hduring.update hcount
    | ok info => exact hear_during (h.rely hv) (hi.rely hv) hc hcalm hnotes
  exact ⟨fun _ => hafter.covered,hafter⟩

theorem opposite_injective {s s' : OrderSide} (h : s.opposite = s'.opposite) : s = s' := by
  revert h
  cases s <;> cases s' <;> simp [OrderSide.opposite]

/-- The state after an order of the pass was accepted, which asked for no more than the pass thinks
is left. -/
theorem accepts_during {o : SimulatedOrder} {x : ℚ} {caller : Caller} (h : During t c a)
    (k : Accepts env caller o a.1 b.1) (hn : b.2 = a.2) (hcaller : caller.trade = some t.id)
    (hside : o.side = leg.opposite) (hknown : Known env a t.id leg) (hc : c leg = some x)
    (hsize : o.size ≤ (entryOf t leg).size - x) :
    During t c b ∧ Unheard t leg a.1.world.count b := by
  have hcount := h.counts leg
  rw [hc] at hcount
  have hnew : a.2.told a.1.world.count = 0 := h.covered.unread _ le_rfl
  refine ⟨⟨?_,?_,?_⟩,?_,?_,?_,?_⟩
  · apply h.covered.accepts k hn
    · intro id hid
      obtain rfl : t.id = id := Option.some.inj (hcaller.symm.trans hid)
      exact h.covered.ids_lt t h.entered
    · intro u hu other hown hother
      obtain rfl : t = u := h.covered.distinct t h.entered u hu
        (Option.some.inj (hcaller.symm.trans hown))
      obtain rfl : leg = other := opposite_injective (hside.symm.trans hother)
      exact committed_known h.covered k h.entered hknown hcount.le hsize
  · rw [hn]
    exact h.entered
  · intro other
    have hcounts := h.counts other
    cases hother : c other with
    | none =>
      rw [hother] at hcounts
      intro i hi hof
      rw [k.count_eq] at hi
      rw [hn]
      rcases Nat.lt_succ_iff_lt_or_eq.mp hi with hlt | heq
      · exact hcounts i hlt ((ofLeg_accepts k hlt).mp hof)
      · rw [heq,hnew]
    | some y =>
      rw [hother] at hcounts
      unfold Counts
      rw [hn,total_accepts k (h.covered.exit_lt t h.entered other),hnew,ite_self,add_zero]
      exact hcounts
  · rw [k.count_eq]
    exact Nat.lt_succ_self _
  · exact .inr ⟨k.owner_new.trans hcaller,k.side.trans hside⟩
  · exact k.side.trans hside
  · rw [hn,hnew]

/-- A limit order for no more than the pass thinks is left. -/
theorem placeOrder_during {o : SimulatedOrder} {x : ℚ} (hp : p.trade = t.id) (h : During t c a)
    (hside : o.side = leg.opposite) (hc : c leg = some x)
    (hsize : o.size ≤ (entryOf t leg).size - x) :
    monitors env (passCall branch p (.placeOrder o))
      (fun r b => During t c b ∧ ∀ placed, r = .ok placed → Unheard t leg placed.id b) a := by
  intro v hv hcareful
  have hv := h.rely hv
  have hknown : Known env v t.id leg := by
    have hk : Known env v p.trade o.side.opposite := hcareful p.trade o rfl
    rw [hp,hside] at hk
    cases leg <;> exact hk
  have hnotes : ((noted env).serve (.backend (.monitor p.trade branch) (.placeOrder o)) v).2.2 =
      v.2 := rfl
  have hafter : During t c
      ((noted env).serve (.backend (.monitor p.trade branch) (.placeOrder o)) v).2 ∧
      ∀ placed, ((noted env).serve (.backend (.monitor p.trade branch) (.placeOrder o)) v).1 =
        .ok placed →
        Unheard t leg placed.id ((noted env).serve
          (.backend (.monitor p.trade branch) (.placeOrder o)) v).2 := by
    rcases placeOrder_cases env (.monitor p.trade branch) o v.1 with ⟨e,hanswer,hcalm⟩ | ⟨order,
      hanswer,hid,haccepts⟩
    · refine ⟨hv.rely ⟨hcalm,hnotes⟩,fun placed hplaced => ?_⟩
      exact absurd (hanswer.symm.trans hplaced) (by simp)
    · have hcaller : (Caller.monitor p.trade branch).trade = some t.id := congrArg some hp
      obtain ⟨hduring,hunheard⟩ := accepts_during hv haccepts hnotes hcaller hside hknown hc hsize
      refine ⟨hduring,fun placed hplaced => ?_⟩
      obtain rfl : order = placed := Except.ok.inj (hanswer.symm.trans hplaced)
      rw [hid]
      exact hunheard
  exact ⟨fun _ => hafter.1.covered,hafter⟩

/-- A request for a market order for no more than the pass thinks is left. -/
theorem placeMarket_during {o : SimulatedOrder} {x : ℚ} (hp : p.trade = t.id) (h : During t c a)
    (hside : o.side = leg.opposite) (hc : c leg = some x)
    (hsize : o.size ≤ (entryOf t leg).size - x)
    (hcareful : Careful env a (.backend (.monitor p.trade branch) (.placeMarketOrder o))) :
    During t c ((noted env).serve
      (.backend (.monitor p.trade branch) (.placeMarketOrder o)) a).2 := by
  have hknown : Known env a t.id leg := by
    have hk : Known env a p.trade o.side.opposite := hcareful p.trade o rfl
    rw [hp,hside] at hk
    cases leg <;> exact hk
  have hnotes : ((noted env).serve
      (.backend (.monitor p.trade branch) (.placeMarketOrder o)) a).2.2 = a.2 := rfl
  have hcaller : (Caller.monitor p.trade branch).trade = some t.id := congrArg some hp
  rcases placeMarketOrder_cases env (.monitor p.trade branch) o a.1 with hcalm | haccepts
  · exact h.rely ⟨hcalm,hnotes⟩
  · exact (accepts_during h haccepts hnotes hcaller hside hknown hc hsize).1

theorem marketClose_during {size x : ℚ} (hp : p.trade = t.id) (h : During t c a)
    (hc : c leg = some x) (hsize : size ≤ (entryOf t leg).size - x) :
    monitors env (marketClose branch p leg size) (fun _ b => During t c b) a := by
  have hsecs : (passSecs branch p).Only Quiet := ⟨⟨fun h => h,fun h => h⟩,fun _ => trivial⟩
  refine wpr_bind.mpr (wpr_mono (quiet_during hsecs h) (fun secs u hu => ?_))
  intro v hv hcareful
  have hafter : During t c ((noted env).serve (.backend (.monitor p.trade branch)
      (.placeMarketOrder (p.closeOrder leg .market (p.price leg) size secs))) v).2 :=
    placeMarket_during hp (hu.rely hv) rfl hc hsize hcareful
  exact ⟨fun _ => hafter.covered,hafter⟩

end Orders

section Quiet

variable {p : Pass} {branch : Branch}

theorem passCall_quiet {op : BackendOp} (hp : ¬Places op) (ht : ¬Tells op) :
    (passCall branch p op).Only Quiet :=
  ⟨⟨hp,ht⟩,fun _ => trivial⟩

theorem passSecs_quiet : (passSecs branch p).Only Quiet :=
  ⟨⟨fun h => h,fun h => h⟩,fun _ => trivial⟩

theorem exitFilled_quiet (leg : OrderSide) : (exitFilled branch p leg).Only Quiet := by
  unfold exitFilled
  split
  · trivial
  · refine .bind (passCall_quiet (fun h => h) (fun h => h)) (fun r => ?_)
    split <;> trivial

theorem bestClosePrice_quiet (leg : OrderSide) : (bestClosePrice branch p leg).Only Quiet := by
  unfold bestClosePrice getBestHedgePrice
  cases leg <;> exact ⟨⟨fun h => h,fun h => h⟩,fun _ => trivial⟩

theorem markExiting_quiet {reason : ExitReason} (hr : OfMonitor reason) :
    (markExiting p reason).Only Quiet :=
  ⟨(Mark.marked reason hr).tame,fun _ => trivial⟩

theorem cancelLongExit_quiet : (cancelLongExit p).Only Quiet := by
  unfold cancelLongExit
  split
  · trivial
  · exact .bind (passCall_quiet (fun h => h) (fun h => h)) (fun _ => trivial)

theorem getCurrentPrices_quiet (pair : String) : (getCurrentPrices pair).Only Quiet := by
  refine .bind ⟨trivial,fun _ => trivial⟩ (fun r => ?_)
  cases r with
  | none => trivial
  | some trade =>
    refine .bind ⟨trivial,fun _ => trivial⟩ (fun r => ?_)
    split
    · trivial
    · trivial
    · split <;> trivial

theorem monitorPaper_quiet (id : TradeId) (info : PaperTrade) :
    (monitorPaper id info).Only Quiet := by
  refine .bind (getCurrentPrices_quiet _) (fun r => ?_)
  cases r with
  | error e => trivial
  | ok prices =>
    refine .bind ⟨trivial,fun _ => trivial⟩ (fun found => ?_)
    refine .bind ⟨⟨fun h => h,fun h => h⟩,fun _ => trivial⟩ (fun ms => ?_)
    exact .bind ⟨tame_paperExit _ _ _ _ _,fun _ => trivial⟩ (fun _ => trivial)

end Quiet

section Passes

variable {env : Surroundings} {t : PaperTrade} {p : Pass} {branch : Branch}
  {c : OrderSide → Option ℚ}
  {a : Runner × Notes} {leg : OrderSide}

/-- The pass is over this trade. -/
structure Over (t : PaperTrade) (p : Pass) : Prop where
  trade : p.trade = t.id
  exit : ∀ leg, p.exit leg = (exitOf t leg).map SimulatedOrder.id

theorem During.same {x : ℚ} (h : During t c a) (hc : c leg = some x) :
    During t (Function.update c leg (some x)) a := by
  rw [← hc,Function.update_eq_self]
  exact h

theorem cancelAndRead_during (hp : Over t p) (h : During t c a) (hc : c leg = none) :
    monitors env (cancelAndRead branch p leg) (fun r b =>
      During t (Function.update c leg (some r)) b) a := by
  unfold cancelAndRead
  rw [hp.exit leg]
  cases hexit : exitOf t leg with
  | none => exact h.start hc
  | some e =>
    have hlt := h.covered.exit_lt t h.entered leg e hexit
    have hof : OfLeg a.1 t leg e.id := .inl (by simp [hexit])
    have hcounts := h.counts leg
    rw [hc] at hcounts
    have hunheard : Unheard t leg e.id a :=
      ⟨hlt,hof,h.covered.exit_side t h.entered leg e hexit,hcounts e.id hlt hof⟩
    have hcancel : (passCall branch p (.cancelOrder (p.exchange leg) e.id)).Only Quiet :=
      passCall_quiet (fun h => h) (fun h => h)
    refine wpr_bind.mpr (wpr_mono (quiet_unheard hcancel (h.start hc) hunheard) ?_)
    rintro _ b ⟨hb,hi⟩
    refine wpr_bind.mpr (wpr_mono (status_during hb hi (Function.update_self ..) _ _)
      (fun r d hd => ?_))
    simpa using hd

theorem tryLimit_during {remaining filled : ℚ} (hp : Over t p) (h : During t c a)
    (hc : c leg = some filled) (hr : remaining ≤ (entryOf t leg).size - filled) :
    monitors env (tryLimit branch p leg remaining filled)
      (fun x b => During t (Function.update c leg (some x)) b) a := by
  refine wpr_bind.mpr (wpr_mono (quiet_during (bestClosePrice_quiet leg) h) (fun best b hb => ?_))
  cases best with
  | error e => exact hb.same hc
  | ok best =>
    refine wpr_bind.mpr (wpr_mono (quiet_during passSecs_quiet hb) (fun secs b hb => ?_))
    refine wpr_bind.mpr (wpr_mono (placeOrder_during hp.trade hb rfl hc hr) ?_)
    rintro r b ⟨hb,hplaced⟩
    cases r with
    | error e => exact hb.same hc
    | ok order =>
      have hsleep : (passCall branch p (.sleep 2000)).Only Quiet :=
        passCall_quiet (fun h => h) (fun h => h)
      refine wpr_bind.mpr (wpr_mono (quiet_unheard hsleep hb (hplaced order rfl)) ?_)
      rintro _ b ⟨hb,hi⟩
      refine wpr_bind.mpr (wpr_mono (status_during hb hi hc _ _) (fun status b hb => ?_))
      exact wpr_bind.mpr (wpr_mono (quiet_during (passCall_quiet (fun h => h) (fun h => h)) hb)
        (fun _ b hb => hb))

theorem closeRest_during {remaining x : ℚ} (hp : Over t p) (h : During t c a) (hc : c leg = some x)
    (hr : remaining ≤ (entryOf t leg).size - x) :
    monitors env (closeRest branch p leg remaining) (fun _ b => During t c b) a := by
  unfold closeRest
  split
  · exact wpr_bind.mpr (wpr_mono (marketClose_during hp.trade h hc hr) (fun _ b hb => hb))
  · exact h

theorem markExiting_during {reason : ExitReason} (hr : OfMonitor reason) (h : During t c a) :
    monitors env (markExiting p reason) (fun _ b => During t c b) a :=
  quiet_during (markExiting_quiet hr) h

theorem timeoutLimit_during {quantity filled : ℚ} (hp : Over t p) (h : During t c a)
    (hc : c leg = some filled) (hq : quantity = (entryOf t leg).size) :
    monitors env (timeoutLimit p leg quantity filled) (fun x b =>
      During t (Function.update c leg (some x)) b) a := by
  unfold timeoutLimit
  split
  · exact tryLimit_during hp h hc (by rw [hq])
  · exact h.same hc

theorem stopLossLimit_during {quantity filled : ℚ} (hp : Over t p) (h : During t c a)
    (hc : c leg = some filled) (hq : quantity = (entryOf t leg).size) :
    monitors env (stopLossLimit p leg quantity filled) (fun x b =>
      During t (Function.update c leg (some x)) b) a := by
  unfold stopLossLimit
  split
  · exact tryLimit_during hp h hc (by rw [hq])
  · exact h.same hc

theorem forceClose_covered (hp : Over t p) (h : During t (fun _ => none) a) :
    monitors env (forceClose p (entryOf t .long).size (entryOf t .short).size) (fun _ b =>
      Covered b) a := by
  refine wpr_bind.mpr (wpr_mono (cancelAndRead_during hp h rfl) (fun longFilled b hb => ?_))
  refine wpr_bind.mpr (wpr_mono (cancelAndRead_during hp hb rfl) (fun shortFilled b hb => ?_))
  refine wpr_bind.mpr (wpr_mono (timeoutLimit_during hp hb rfl rfl) (fun longFilled b hb => ?_))
  refine wpr_bind.mpr (wpr_mono (timeoutLimit_during hp hb rfl rfl) (fun shortFilled b hb => ?_))
  refine wpr_bind.mpr (wpr_mono (closeRest_during hp hb rfl le_rfl) (fun _ b hb => ?_))
  refine wpr_bind.mpr (wpr_mono (closeRest_during hp hb rfl le_rfl) (fun _ b hb => ?_))
  exact wpr_mono (markExiting_during trivial hb) (fun _ _ h => h.covered)

/-- What is not hedged yet is still to be counted. -/
theorem smartLimit_during {price remaining totalFilled : ℚ} (hp : Over t p) (h : During t c a)
    (hc : c .short = some totalFilled) (hr : remaining ≤ (entryOf t .short).size - totalFilled) :
    monitors env (smartLimit p price remaining totalFilled)
      (fun r b => Covered b ∧ ∀ x, r = some x →
        During t (Function.update c .short (some x)) b) a := by
  have hgo : ∀ {x : ℚ} {b : Runner × Notes}, During t (Function.update c .short (some x)) b →
      Covered b ∧ ∀ y, some x = some y → During t (Function.update c .short (some y)) b := by
    intro x b hb
    refine ⟨hb.covered,fun y hy => ?_⟩
    rw [← hy]
    exact hb
  refine wpr_bind.mpr (wpr_mono (quiet_during passSecs_quiet h) (fun secs b hb => ?_))
  refine wpr_bind.mpr (wpr_mono (placeOrder_during hp.trade hb rfl hc hr) ?_)
  rintro r b ⟨hb,hplaced⟩
  cases r with
  | error e => exact hgo (hb.same hc)
  | ok order =>
    have hsleep : (passCall .longExitFilled p (.sleep 200)).Only Quiet :=
      passCall_quiet (fun h => h) (fun h => h)
    have hcancel : (passCall .longExitFilled p (.cancelOrder p.shortExchange order.id)).Only
        Quiet :=
      passCall_quiet (fun h => h) (fun h => h)
    refine wpr_bind.mpr (wpr_mono (quiet_unheard hsleep hb (hplaced order rfl)) ?_)
    rintro _ b ⟨hb,hi⟩
    refine wpr_bind.mpr (wpr_mono (status_during hb hi hc _ _) (fun status b hb => ?_))
    cases status with
    | error e =>
      have hsame : During t (Function.update c .short (some totalFilled)) b := by
        simpa [reportedFill] using hb
      exact wpr_bind.mpr (wpr_mono (quiet_during hcancel hsame) (fun _ d hd => hgo hd))
    | ok info =>
      dsimp only
      split
      · refine wpr_bind.mpr (wpr_mono (markExiting_during trivial hb) (fun _ d hd => ?_))
        exact ⟨hd.covered,fun x hx => by cases hx⟩
      · exact wpr_bind.mpr (wpr_mono (quiet_during hcancel hb) (fun _ d hd => hgo hd))

theorem hedgeRest_covered {totalFilled : ℚ} (hp : Over t p) (h : During t c a)
    (hc : c .short = some totalFilled) :
    monitors env (hedgeRest p (entryOf t .short).size totalFilled) (fun _ b => Covered b) a := by
  unfold hedgeRest
  split
  · exact wpr_mono (markExiting_during trivial h) (fun _ _ h => h.covered)
  · refine wpr_bind.mpr (wpr_mono (marketClose_during hp.trade h hc le_rfl) (fun r b hb => ?_))
    cases r with
    | error e => exact hb.covered
    | ok order => exact wpr_mono (markExiting_during trivial hb) (fun _ _ h => h.covered)

theorem setExiting_quiet :
    (getMutTrade p.trade (fun t => { t with status := .exiting })).Only Quiet :=
  ⟨kept_setExiting,fun _ => trivial⟩

theorem getTrade_over (hp : Over t p) (h : During t c a) :
    monitors env (getTrade p.trade) (fun r b => During t c b ∧ ∀ u, r = some u →
      SameOrders t u) a := by
  rw [hp.trade]
  exact getTrade_during h

theorem hedgeShortExit_covered (hp : Over t p) (h : During t (fun _ => none) a) :
    monitors env (hedgeShortExit p) (fun _ b => Covered b) a := by
  refine wpr_bind.mpr (wpr_mono (quiet_during setExiting_quiet h) (fun _ b hb => ?_))
  refine wpr_bind.mpr (wpr_mono (getTrade_over hp hb) ?_)
  rintro found b ⟨hb,hfound⟩
  cases found with
  | none => exact hb.covered
  | some trade =>
    have hsize : trade.shortOrder.size = (entryOf t .short).size :=
      congrArg SimulatedOrder.size (hfound trade rfl).shortOrder
    dsimp only
    rw [hsize]
    refine wpr_bind.mpr (wpr_mono (cancelAndRead_during hp hb rfl) (fun totalFilled b hb => ?_))
    split
    · exact wpr_mono (markExiting_during trivial hb) (fun _ _ h => h.covered)
    · have hdepth : (passCall .longExitFilled p
          (.getOrderBookDepth p.shortExchange p.symbol 5)).Only Quiet :=
        passCall_quiet (fun h => h) (fun h => h)
      refine wpr_bind.mpr (wpr_mono (quiet_during hdepth hb) (fun book b hb => ?_))
      cases book with
      | error e => exact hedgeRest_covered hp hb rfl
      | ok book =>
        dsimp only
        split
        · refine wpr_bind.mpr (wpr_mono (smartLimit_during hp hb rfl le_rfl) ?_)
          rintro total b ⟨hcovered,hb⟩
          cases total with
          | none => exact hcovered
          | some total => exact hedgeRest_covered hp (hb total rfl) rfl
        · exact hedgeRest_covered hp hb rfl

theorem instantHedge_covered {x : ℚ} (hp : Over t p) (h : During t c a) (hc : c .long = some x)
    (hx : x ≤ 0) :
    monitors env (instantHedge p (entryOf t .long).size) (fun _ b => Covered b) a := by
  refine wpr_bind.mpr (wpr_mono (marketClose_during hp.trade h hc (by linarith)) (fun r b hb => ?_))
  cases r with
  | error e => exact hb.covered
  | ok order => exact wpr_mono (markExiting_during trivial hb) (fun _ _ h => h.covered)

theorem intelligentLimit_covered {price : ℚ} {wait : Nat} (hp : Over t p) (h : During t c a)
    (hc : c .long = some 0) :
    monitors env (intelligentLimit p price (entryOf t .long).size wait) (fun _ b =>
      Covered b) a := by
  refine wpr_bind.mpr (wpr_mono (quiet_during passSecs_quiet h) (fun secs b hb => ?_))
  have hall : (entryOf t .long).size ≤ (entryOf t .long).size - 0 := by rw [sub_zero]
  refine wpr_bind.mpr (wpr_mono (placeOrder_during hp.trade hb rfl hc hall) ?_)
  rintro r b ⟨hb,hplaced⟩
  cases r with
  | error e => exact instantHedge_covered hp hb hc le_rfl
  | ok order =>
    have hsleep : (passCall .shortExitFilled p (.sleep wait)).Only Quiet :=
      passCall_quiet (fun h => h) (fun h => h)
    have hcancel : (passCall .shortExitFilled p (.cancelOrder p.longExchange order.id)).Only
        Quiet :=
      passCall_quiet (fun h => h) (fun h => h)
    refine wpr_bind.mpr (wpr_mono (quiet_unheard hsleep hb (hplaced order rfl)) ?_)
    rintro _ b ⟨hb,hi⟩
    refine wpr_bind.mpr (wpr_mono (status_during hb hi hc _ _) (fun status b hb => ?_))
    cases status with
    | error e =>
      refine wpr_bind.mpr (wpr_mono (quiet_during hcancel hb) (fun _ d hd => ?_))
      exact instantHedge_covered hp hd (Function.update_self ..) (by simp [reportedFill])
    | ok info =>
      dsimp only
      split
      · exact wpr_mono (markExiting_during trivial hb) (fun _ _ h => h.covered)
      · split
        · refine wpr_bind.mpr (wpr_mono (quiet_during hcancel hb) (fun _ d hd => ?_))
          have hrest : (entryOf t .long).size - info.filledQuantity ≤
              (entryOf t .long).size - (0 + reportedFill (.ok info)) := by simp [reportedFill]
          refine wpr_bind.mpr (wpr_mono
            (marketClose_during hp.trade hd (Function.update_self ..) hrest) ?_)
          exact fun _ e he => wpr_mono (markExiting_during trivial he) (fun _ _ h => h.covered)
        · next hnone =>
          refine wpr_bind.mpr (wpr_mono (quiet_during hcancel hb) (fun _ d hd => ?_))
          exact instantHedge_covered hp hd (Function.update_self ..)
            (by simpa [reportedFill] using hnone)

theorem hedgeLongExit_covered (hp : Over t p) (h : During t (fun _ => none) a) :
    monitors env (hedgeLongExit p) (fun _ b => Covered b) a := by
  refine wpr_bind.mpr (wpr_mono (quiet_during setExiting_quiet h) (fun _ b hb => ?_))
  refine wpr_bind.mpr (wpr_mono (getTrade_over hp hb) ?_)
  rintro found b ⟨hb,hfound⟩
  cases found with
  | none => exact hb.covered
  | some trade =>
    have hsize : trade.longOrder.size = (entryOf t .long).size :=
      congrArg SimulatedOrder.size (hfound trade rfl).longOrder
    dsimp only
    rw [hsize]
    refine wpr_bind.mpr (wpr_mono (quiet_during cancelLongExit_quiet hb) (fun _ b hb => ?_))
    have hdepth : (passCall .shortExitFilled p (.getOrderBookDepth p.longExchange p.symbol 5)).Only
        Quiet :=
      passCall_quiet (fun h => h) (fun h => h)
    refine wpr_bind.mpr (wpr_mono (quiet_during hdepth hb) (fun book b hb => ?_))
    have hb : During t (Function.update (fun _ => none) .long (some 0)) b := hb.start rfl
    cases book with
    | error e =>
      have hall : (entryOf t .long).size ≤ (entryOf t .long).size - 0 := by rw [sub_zero]
      refine wpr_bind.mpr (wpr_mono (marketClose_during hp.trade hb rfl hall) (fun _ d hd => ?_))
      exact wpr_mono (markExiting_during trivial hd) (fun _ _ h => h.covered)
    | ok book =>
      dsimp only
      split
      · exact intelligentLimit_covered hp hb rfl
      · exact instantHedge_covered hp hb rfl le_rfl

theorem stopLossClose_covered {longFilled shortFilled : ℚ} (hp : Over t p) (h : During t c a)
    (hlong : c .long = some longFilled) (hshort : c .short = some shortFilled) :
    monitors env (stopLossClose p (entryOf t .long).size (entryOf t .short).size longFilled
      shortFilled)
      (fun _ b => Covered b) a := by
  unfold stopLossClose
  split
  · exact h.covered
  · refine wpr_bind.mpr (wpr_mono (stopLossLimit_during hp h hlong rfl) (fun longFilled b hb => ?_))
    have hshort : Function.update c .long (some longFilled) .short = some shortFilled := hshort
    refine wpr_bind.mpr (wpr_mono (stopLossLimit_during hp hb hshort rfl)
      (fun shortFilled b hb => ?_))
    split
    · exact hb.covered
    · refine wpr_bind.mpr (wpr_mono (closeRest_during hp hb rfl le_rfl) (fun _ b hb => ?_))
      exact wpr_mono (closeRest_during hp hb rfl le_rfl) (fun _ _ h => h.covered)

theorem stopLossExit_covered (hp : Over t p) (h : During t (fun _ => none) a) :
    monitors env (stopLossExit p) (fun _ b => Covered b) a := by
  refine wpr_bind.mpr (wpr_mono (getTrade_over hp h) ?_)
  rintro found b ⟨hb,hfound⟩
  cases found with
  | none => exact hb.covered
  | some trade =>
    have hsame := hfound trade rfl
    have hlong : trade.longOrder.size = (entryOf t .long).size :=
      congrArg SimulatedOrder.size hsame.longOrder
    have hshort : trade.shortOrder.size = (entryOf t .short).size :=
      congrArg SimulatedOrder.size hsame.shortOrder
    refine wpr_bind.mpr (wpr_mono (cancelAndRead_during hp hb rfl) (fun longFilled b hb => ?_))
    refine wpr_bind.mpr (wpr_mono (cancelAndRead_during hp hb rfl) (fun shortFilled b hb => ?_))
    refine wpr_bind.mpr (wpr_mono
      (quiet_during (x := getMutTrade p.trade _) ⟨(Mark.stopLoss _ _).tame,fun _ => trivial⟩ hb) ?_)
    intro _ b hb
    rw [hlong,hshort]
    exact stopLossClose_covered hp hb rfl rfl

theorem checkTimeout_during (hp : Over t p) (h : During t c a) :
    monitors env (checkTimeout p) (fun r b => During t c b ∧ ∀ u, r = .timedOut u →
      SameOrders t u) a := by
  refine wpr_bind.mpr (wpr_mono (quiet_during passSecs_quiet h) (fun now b hb => ?_))
  refine wpr_bind.mpr (wpr_mono (getTrade_over hp hb) ?_)
  rintro found b ⟨hb,-⟩
  cases found with
  | none => exact ⟨hb,fun u hu => by cases hu⟩
  | some trade =>
    dsimp only
    split
    · refine wpr_bind.mpr (wpr_mono (getTrade_over hp hb) ?_)
      rintro found b ⟨hb,hfound⟩
      cases found with
      | none => exact ⟨hb,fun u hu => by cases hu⟩
      | some trade =>
        refine ⟨hb,fun u hu => ?_⟩
        cases hu
        exact hfound trade rfl
    · exact ⟨hb,fun u hu => by cases hu⟩

/-- A pass over a real trade. -/
theorem monitorReal_covered (info : PaperTrade) (hp : Over t p) (h : During t (fun _ => none) a) :
    monitors env (monitorReal info p) (fun _ b => Covered b) a := by
  refine wpr_bind.mpr (wpr_mono (quiet_during (exitFilled_quiet .long) h) (fun long b hb => ?_))
  refine wpr_bind.mpr (wpr_mono (quiet_during (exitFilled_quiet .short) hb) (fun short b hb => ?_))
  cases long <;> cases short
  · refine wpr_bind.mpr (wpr_mono (checkTimeout_during hp hb) ?_)
    rintro clock b ⟨hb,hclock⟩
    cases clock with
    | gone => exact hb.covered
    | timedOut trade =>
      have hsame := hclock trade rfl
      have hlong : trade.longOrder.size = (entryOf t .long).size :=
        congrArg SimulatedOrder.size hsame.longOrder
      have hshort : trade.shortOrder.size = (entryOf t .short).size :=
        congrArg SimulatedOrder.size hsame.shortOrder
      dsimp only
      rw [hlong,hshort]
      exact forceClose_covered hp hb
    | young =>
      dsimp only
      split
      · exact stopLossExit_covered hp hb
      · exact hb.covered
  · exact hedgeLongExit_covered hp hb
  · exact hedgeShortExit_covered hp hb
  · exact wpr_mono (markExiting_during trivial hb) (fun _ _ h => h.covered)

end Passes


section Rounds

variable {env : Surroundings} {a b : Runner × Notes}

/-- The monitor was told of no fill yet. -/
structure Outset (a : Runner × Notes) : Prop where
  covered : Covered a
  told : ∀ i, a.2.told i = 0

theorem Outset.rely (h : Outset a) (k : Rely a b) : Outset b where
  covered := h.covered.rely k
  told i := by
    rw [k.notes]
    exact h.told i

theorem over_passOver (info : PaperTrade) {t trade : PaperTrade} (h : SameOrders t trade)
    (longPrice shortPrice : ℚ) : Over t (passOver t.id info trade longPrice shortPrice) where
  trade := rfl
  exit leg := by
    cases leg with
    | long => exact congrArg (Option.map SimulatedOrder.id) h.longExit
    | short => exact congrArg (Option.map SimulatedOrder.id) h.shortExit

theorem monitorTrade_covered (real : Bool) (id : TradeId) (h : Outset a) :
    monitors env (monitorTrade real id) (fun _ b => Covered b) a := by
  apply wpr_bind.mpr
  intro v hv _
  have hv := h.rely hv
  have hrely := quiet_rely env (show Quiet (.get id) from trivial) v
  refine ⟨fun hcovered => hcovered.rely hrely,wpr_ret.mpr ?_⟩
  have hout := hv.rely hrely
  have hanswer : ((noted env).serve (.get id) v).1 = v.1.lookup id := rfl
  rw [hanswer]
  cases hlookup : v.1.lookup id with
  | none => exact hout.covered
  | some info =>
    obtain ⟨t,ht,rfl,-⟩ := hv.covered.records id info hlookup
    have hduring : During t (fun _ => none) ((noted env).serve (.get t.id) v).2 :=
      ⟨hout.covered,ht,fun _ i _ _ => hout.told i⟩
    refine wpr_bind.mpr (wpr_mono (quiet_during (getCurrentPrices_quiet _) hduring)
      (fun prices b hb => ?_))
    cases prices with
    | error e => exact hb.covered
    | ok prices =>
      dsimp only
      split
      · refine wpr_bind.mpr (wpr_mono (getTrade_during hb) ?_)
        rintro found b ⟨hb,hfound⟩
        cases found with
        | none => exact hb.covered
        | some trade =>
          have hover := over_passOver info (hfound trade rfl) prices.1 prices.2
          exact wpr_bind.mpr (wpr_mono (monitorReal_covered info hover hb) (fun _ _ h => h))
      · exact wpr_mono (quiet_during (monitorPaper_quiet _ _) hb) (fun _ _ h => h.covered)

/-- A quiet program keeps the books in order. -/
theorem quiet_covered {x : Run α} (hx : x.Only Quiet) (h : Covered a) :
    monitors env x (fun _ b => Covered b) a := by
  refine wpr_invariant (fun _ _ k h => h.rely k) (fun op b hop _ hb => ?_) hx h
  have hrely := quiet_rely env hop b
  exact ⟨fun hcovered => hcovered.rely hrely,hb.rely hrely⟩

/-- The monitor turns to a trade: what it was told before does not count. -/
theorem monitoring_outset (id : TradeId) (h : Covered a) :
    Outset ((noted env).serve (.monitoring (some id)) a).2 where
  covered := h.calm (calm_serve env (show Still (.monitoring (some id)) from trivial) a.1) rfl
    (fun _ _ => rfl)
  told _ := rfl

theorem monitorPass_covered (real : Bool) (id : TradeId) (h : Covered a) :
    monitors env (monitorPass real id) (fun _ b => Covered b) a := by
  apply wpr_bind.mpr
  intro v hv _
  have hout : Outset ((noted env).serve (.monitoring (some id)) v).2 :=
    monitoring_outset id (h.rely hv)
  refine ⟨fun _ => hout.covered,wpr_ret.mpr (wpr_bind.mpr ?_)⟩
  refine wpr_mono (monitorTrade_covered real id hout) (fun result b hb => ?_)
  exact wpr_bind.mpr (quiet_covered (x := Prog.call (σ := runnerSig) (.monitoring none) .ret)
    ⟨trivial,fun _ => trivial⟩ hb)

theorem monitorTrades_covered (real : Bool) (ids : List TradeId) (h : Covered a) :
    monitors env (monitorTrades real ids) (fun _ b => Covered b) a := by
  induction ids generalizing a with
  | nil => exact h
  | cons id ids ih =>
    refine wpr_bind.mpr (wpr_mono (monitorPass_covered real id h) (fun r b hb => ?_))
    cases r with
    | error e => exact hb
    | ok u => exact ih hb

theorem monitorActivePositions_covered (h : Covered a) :
    monitors env monitorActivePositions (fun _ b => Covered b) a := by
  refine wpr_bind.mpr (wpr_mono (quiet_covered (x := tradeIds) ⟨trivial,fun _ => trivial⟩ h)
    (fun ids b hb => ?_))
  refine wpr_bind.mpr (wpr_mono (quiet_covered (x := isRealTrading) ⟨trivial,fun _ => trivial⟩ hb)
    (fun real b hb => ?_))
  exact monitorTrades_covered real ids hb

theorem checking_quiet {op : RunnerOp} (h : Checking op) : Quiet op := by
  cases op with
  | backend caller op =>
    cases caller with
    | cleanup id =>
      cases op with
      | cancelOrder exchange id => exact ⟨fun h => h,fun h => h⟩
      | _ => cases h
    | _ => cases h
  | getMut id f => exact h
  | insert | monitoring => cases h
  | _ => trivial

/-- The two futures together: the exit check places nothing. -/
theorem joinMonitors_covered (schedule : Nat → Bool) (h : Covered a) :
    (noted env).wpr (· = ·) (Careful env) Keeps (joinMonitors schedule) (fun _ b =>
      Covered b) a := by
  have hmonitor : monitors env monitorActivePositions (fun _ b => Covered b) a :=
    monitorActivePositions_covered h
  have hcheck : (noted env).wpr (fun _ _ => True) (Careful env) (fun a _ b => Rely a b) checkExits
      (fun _ _ => True) a :=
    wpr_invariant (fun _ _ _ _ => trivial) (fun _ b hop _ _ =>
      ⟨quiet_rely env (checking_quiet hop) b,trivial⟩)
      checkExits_checking trivial
  refine wpr_mono (wpr_weaken (fun _ _ h => h) (fun _ _ _ h => h.elim id (fun k hc => hc.rely k))
    (wpr_join Rely.refl (fun _ => trivial) (fun _ _ _ => Rely.trans) (fun _ _ _ _ _ => trivial)
      (fun _ _ _ _ => trivial) (fun _ _ _ h => h) (fun _ _ _ k h => h.rely k) (fun _ _ _ _ h => h)
      monitorActivePositions checkExits none 0 a hmonitor hcheck)) ?_
  exact fun _ _ h => h.1

end Rounds

end SpreadArb.Proofs.Sold
