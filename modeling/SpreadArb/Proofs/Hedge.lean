import SpreadArb.Retry
import SpreadArb.Proofs.Book

namespace SpreadArb.Proofs.Hedge
open Interact

/-- Status queries fail or tell the truth, and a market order is over once it is
accepted, so that what they tell is final. -/
structure Settled (env : Env) : Prop where
  truthful : ∀ t, (env t).report = none
  final : ∀ t, (env t).rests = false

/-- What the orders numbered from `n` on have filled and no query has reported. -/
def unreported (n : Nat) (w : World) : ℚ :=
  ∑ i ∈ Finset.Ico n w.count, ((w.book i).filled - (w.book i).reported)

/-- A market order that is accepted leaves as much of its size unfilled as the
orders numbered from `n` on have filled without being reported. -/
def LeavesRoom (env : Env) (n : Nat) (w : World) : BackendOp → Prop
  | .placeMarketOrder o => (env w.tick).failure = none →
      (World.freshMarket (env w.tick) o).filled + unreported n w ≤ o.size
  | _ => True

instance (env : Env) (n : Nat) (w : World) (op : BackendOp) :
    Decidable (LeavesRoom env n w op) := by
  cases op <;> unfold LeavesRoom <;> infer_instance

/-- The orders numbered from `n` on are over, and `total` is what was reported of them. -/
structure Spent (n : Nat) (total : ℚ) (w : World) : Prop where
  from_le : n ≤ w.count
  dead : ∀ i, n ≤ i → i < w.count → (w.book i).live = false
  reported_le : ∀ i, n ≤ i → i < w.count → (w.book i).reported ≤ (w.book i).filled
  counted : filledSince n w = total + unreported n w

theorem Spent.nonneg {n : Nat} {total : ℚ} {w : World} (h : Spent n total w) :
    0 ≤ unreported n w := by
  apply Finset.sum_nonneg
  intro i hi
  obtain ⟨hl,hr⟩ := Finset.mem_Ico.mp hi
  exact sub_nonneg.mpr (h.reported_le i hl hr)

/-- Only the orders numbered from `n` on matter, and of each only what it filled
and what was reported of it. -/
theorem Spent.congr {n : Nat} {total : ℚ} {w w' : World} (h : Spent n total w)
    (hc : w'.count = w.count)
    (hb : ∀ i, n ≤ i → i < w.count → w'.book i = w.book i) :
    Spent n total w' ∧ unreported n w' = unreported n w := by
  have hf : filledSince n w' = filledSince n w := by
    unfold filledSince
    rw [hc]
    refine Finset.sum_congr rfl (fun i hi => ?_)
    rw [hb i (Finset.mem_Ico.mp hi).1 (Finset.mem_Ico.mp hi).2]
  have hu : unreported n w' = unreported n w := by
    unfold unreported
    rw [hc]
    refine Finset.sum_congr rfl (fun i hi => ?_)
    rw [hb i (Finset.mem_Ico.mp hi).1 (Finset.mem_Ico.mp hi).2]
  refine ⟨⟨hc ▸ h.from_le,fun i hl hr => ?_,fun i hl hr => ?_,by rw [hf,hu,h.counted]⟩,hu⟩
  · rw [hc] at hr
    rw [hb i hl hr]
    exact h.dead i hl hr
  · rw [hc] at hr
    rw [hb i hl hr]
    exact h.reported_le i hl hr

/-- Orders that are over do not change while time passes. -/
theorem Spent.advance {n : Nat} {total : ℚ} {w : World} (h : Spent n total w) (env : Env) :
    Spent n total (w.advance env) ∧ unreported n (w.advance env) = unreported n w :=
  h.congr rfl (fun i hl hr => trade_dead (h.dead i hl hr) _)

theorem Spent.sleep {n : Nat} {total : ℚ} {w : World} (h : Spent n total w) (env : Env) (ms : Nat) :
    Spent n total ((exchanges env).serve (.sleep ms) w).2 ∧
      unreported n ((exchanges env).serve (.sleep ms) w).2 = unreported n w :=
  h.congr rfl (fun i hl hr => trade_dead (h.dead i hl hr) _)

/-- A new order that is over counts as unreported. -/
theorem Spent.add {n : Nat} {total : ℚ} {w : World} (h : Spent n total w) {o : BookOrder}
    (hd : o.live = false) (hr : o.reported = 0) :
    Spent n total (w.add o) ∧ unreported n (w.add o) = unreported n w + o.filled := by
  have hsum : ∀ g : BookOrder → ℚ, ∑ i ∈ Finset.Ico n (w.add o).count, g ((w.add o).book i) =
      ∑ i ∈ Finset.Ico n w.count, g (w.book i) + g o := by
    intro g
    rw [add_count,Finset.sum_Ico_succ_top h.from_le]
    congr 1
    · refine Finset.sum_congr rfl (fun i hi => ?_)
      rw [add_book,if_neg (Finset.mem_Ico.mp hi).2.ne]
    · rw [add_book,if_pos rfl]
  have hu : unreported n (w.add o) = unreported n w + o.filled := by
    rw [unreported,hsum (fun b => b.filled - b.reported),hr,sub_zero]
    rfl
  have hcases : ∀ i, i < (w.add o).count → i = w.count ∨ i < w.count := fun i hi => by
    rw [add_count] at hi
    omega
  refine ⟨⟨h.from_le.trans (Nat.le_succ _),fun i hl hi => ?_,fun i hl hi => ?_,?_⟩,hu⟩
  · rcases hcases i hi with rfl | hi
    · rw [add_book,if_pos rfl]
      exact hd
    · rw [add_book,if_neg hi.ne]
      exact h.dead i hl hi
  · rcases hcases i hi with rfl | hi
    · rw [add_book,if_pos rfl,hr]
      exact o.filled_nonneg
    · rw [add_book,if_neg hi.ne]
      exact h.reported_le i hl hi
  · rw [hu,filledSince,hsum (fun b => b.filled)]
    have hc := h.counted
    rw [filledSince] at hc
    rw [hc]
    ring

/-- A truthful answer moves an order's fill from unreported to reported. -/
theorem Spent.report {n : Nat} {total : ℚ} {w : World} (h : Spent n total w) (id : OrderId)
    (hl : n ≤ id) (hr : id < w.count) (hz : (w.book id).reported = 0) :
    Spent n (total + (w.book id).filled)
        (w.setOrder id { w.book id with reported := (w.book id).filled }) ∧
      unreported n (w.setOrder id { w.book id with reported := (w.book id).filled }) =
        unreported n w - (w.book id).filled := by
  have hf : filledSince n (w.setOrder id { w.book id with reported := (w.book id).filled }) =
      filledSince n w := by
    refine Finset.sum_congr rfl (fun i _ => ?_)
    rw [setOrder_book]
    split
    · next hi => rw [hi]
    · rfl
  have hu : unreported n (w.setOrder id { w.book id with reported := (w.book id).filled }) =
      unreported n w - (w.book id).filled := by
    have hmem : id ∈ Finset.Ico n w.count := Finset.mem_Ico.mpr ⟨hl,hr⟩
    rw [unreported,unreported,setOrder_count,← Finset.add_sum_erase _ _ hmem,
      ← Finset.add_sum_erase _ (fun i => (w.book i).filled - (w.book i).reported) hmem]
    have he : ∑ i ∈ (Finset.Ico n w.count).erase id,
        (((w.setOrder id { w.book id with reported := (w.book id).filled }).book i).filled -
          ((w.setOrder id { w.book id with reported := (w.book id).filled }).book i).reported) =
        ∑ i ∈ (Finset.Ico n w.count).erase id, ((w.book i).filled - (w.book i).reported) := by
      refine Finset.sum_congr rfl (fun i hi => ?_)
      rw [setOrder_book,if_neg (Finset.ne_of_mem_erase hi)]
    rw [he,setOrder_book,if_pos rfl,hz]
    ring
  refine ⟨⟨h.from_le,fun i hn hi => ?_,fun i hn hi => ?_,?_⟩,hu⟩
  · rw [setOrder_book]
    split
    · next he =>
      subst he
      exact h.dead i hn hi
    · exact h.dead i hn hi
  · rw [setOrder_book]
    split
    · exact le_rfl
    · exact h.reported_le i hn hi
  · rw [hf,hu,h.counted]
    ring

theorem freshMarket_dead {c : Move} (h : c.rests = false) (o : SimulatedOrder) :
    (World.freshMarket c o).live = false := by
  simp [World.freshMarket,BookOrder.live,h]

theorem freshMarket_reported (c : Move) (o : SimulatedOrder) :
    (World.freshMarket c o).reported = 0 := trade_reported _ _

/-- What a finished call for `target` has to deliver. -/
def Exact (n : Nat) (target : ℚ) (out : Except MarketOrderError SimulatedOrder × World) : Prop :=
  filledSince n out.2 ≤ target ∧
    ∀ o, out.1 = .ok o → o.size = filledSince n out.2 ∧ target ≤ o.size

/-- Once more than the target is filled, no continuation repairs it. -/
theorem not_exact_of_over {n : Nat} {target : ℚ} {w : World} (h : target < filledSince n w)
    (env : Env) (p : Prog backend (Except MarketOrderError SimulatedOrder)) :
    ¬ Exact n target ((exchanges env).run p w) := fun he =>
  absurd (he.1.trans_lt h) (not_lt.mpr (filledSince_mono (run_grows env p w)))

/-- Every attempt is exact as long as the accepted orders leave room for the
unreported ones. The induction is on the attempts left; `total` is the source's
accumulator, and the books have filled `total` plus what is unreported. -/
theorem attempts_exact {env : Env} (hs : Settled env) (template : SimulatedOrder) {target : ℚ}
    {n : Nat} (left : Nat) (total : ℚ) (last : SimulatedOrder) (w : World)
    (h : Spent n total w) (hlt : total < target) (hle : total + unreported n w ≤ target) :
    Exact n target ((exchanges env).run (marketAttempts template target left total last) w) ↔
      (exchanges env).Along (LeavesRoom env n)
        (marketAttempts template target left total last) w := by
  induction left generalizing total last w with
  | zero =>
    refine iff_of_true ⟨?_,fun o ho => by cases ho⟩ trivial
    exact h.counted.le.trans hle
  | succ left ih =>
    obtain ⟨ha,hau⟩ := h.advance env
    have hgo : ¬ target - total ≤ 0 := by linarith
    simp only [marketAttempts,hgo,if_false,Machine.run_bind,Machine.run_call,Machine.run_ret,
      Machine.along_bind,Machine.along_call,Machine.along_ret,and_true,
      serve_placeMarketOrder,World.serveMarket]
    cases hf : (env w.tick).failure with
    | some e =>
      have hroom : LeavesRoom env n w
          (.placeMarketOrder { template with size := target - total }) :=
        fun hn => absurd (hf.symm.trans hn) (by simp)
      simp only [hroom,true_and]
      by_cases hl : left = 0
      · simp only [hl,if_true,Machine.run_pure,Machine.along_pure,iff_true]
        exact ⟨ha.counted.le.trans (hau ▸ hle),fun o ho => by cases ho⟩
      · simp only [hl,if_false,Machine.run_bind,Machine.run_call,Machine.run_ret,Machine.along_bind,
          Machine.along_call,Machine.along_ret,and_true]
        obtain ⟨hz,hzu⟩ := ha.sleep env 500
        rw [ih total last _ hz hlt (by rw [hzu,hau]; exact hle)]
        simp [LeavesRoom]
    | none =>
      obtain ⟨b,hb⟩ : ∃ b, World.freshMarket (env w.tick) { template with size := target - total } =
        b :=
        ⟨_,rfl⟩
      have hbd : b.live = false := hb ▸ freshMarket_dead (hs.final _) _
      have hbr : b.reported = 0 := hb ▸ freshMarket_reported _ _
      obtain ⟨hw,hwu⟩ := ha.add hbd hbr
      have hroom : LeavesRoom env n w (.placeMarketOrder { template with size := target - total }) ↔
          b.filled + unreported n w ≤ target - total := by
        simp [LeavesRoom,hf,hb]
      simp only [hroom,hb]
      by_cases hr : b.filled + unreported n w ≤ target - total
      · obtain ⟨hv,hvu⟩ := hw.advance env
        have hbook : (((w.advance env).add b).advance env).book w.count = b := by
          rw [advance_book,add_book,advance_count,if_pos rfl,trade_dead hbd]
        simp only [hr,true_and,Machine.run_bind,Machine.run_call,Machine.run_ret,
          Machine.along_bind,Machine.along_call,Machine.along_ret,and_true,
          serve_getOrderStatusDetailed,World.serveStatus,advance_count,hbook]
        cases hq : (env ((w.advance env).add b).tick).failure with
        | some e =>
          by_cases hl : left = 0
          · simp only [hl,if_true,Machine.run_pure,Machine.along_pure,LeavesRoom,and_self,iff_true]
            refine ⟨?_,fun o ho => by cases ho⟩
            rw [hv.counted,hvu,hwu,hau]
            linarith
          · simp only [hl,if_false,Machine.run_bind,Machine.run_call,Machine.run_ret,
              Machine.along_bind,Machine.along_call,Machine.along_ret,and_true]
            obtain ⟨hz,hzu⟩ := hv.sleep env (100 * 2 ^ (2 - left))
            rw [ih total _ _ hz hlt (by rw [hzu,hvu,hwu,hau]; linarith)]
            simp [LeavesRoom]
        | none =>
          obtain ⟨hz,hzu⟩ := hv.report w.count (by simpa using h.from_le) (by simp)
            (by rw [hbook,hbr])
          rw [hbook] at hz hzu
          rw [hvu,hwu,hau] at hzu
          simp only [hs.truthful,Option.getD_none,BookOrder.info]
          by_cases hd : total + b.filled ≥ target
          · simp only [hd,if_true,Machine.run_pure,Machine.along_pure,LeavesRoom,and_self,iff_true]
            have hc := hz.counted
            rw [hzu] at hc
            have hu := h.nonneg
            refine ⟨by linarith,fun o ho => ?_⟩
            cases ho
            exact ⟨by linarith,hd⟩
          · simp only [hd,if_false]
            rw [ih _ _ _ hz (not_le.mp hd) (by rw [hzu]; linarith)]
            simp [LeavesRoom]
      · refine iff_of_false (not_exact_of_over ?_ env _) (fun hc => hr hc.1)
        rw [hw.counted,hwu,hau]
        linarith

/-- A retried market hedge fills its target, and says how much it filled, exactly
when each accepted order leaves room for the fills that failed status queries hid. -/
theorem market_retry_exact (env : Env) (hs : Settled env) (template : SimulatedOrder)
    (target : ℚ) (ht : 0 < target) (w : World) :
    let out := (exchanges env).run (placeMarketOrderWithRetry template target) w
    (filledSince w.count out.2 ≤ target ∧
      ∀ o, out.1 = .ok o → o.size = filledSince w.count out.2 ∧ target ≤ o.size) ↔
    (exchanges env).Along (LeavesRoom env w.count)
      (placeMarketOrderWithRetry template target) w := by
  have hspent : Spent w.count 0 w := by
    refine ⟨le_rfl,fun i hl hr => ?_,fun i hl hr => ?_,by simp [filledSince,unreported]⟩
    · exact absurd hr (not_lt.mpr hl)
    · exact absurd hr (not_lt.mpr hl)
  have hnone : unreported w.count w = 0 := by simp [unreported]
  exact attempts_exact hs template 3 0 template w hspent ht (by rw [hnone,add_zero]; exact ht.le)

def hedgeOne : SimulatedOrder :=
  ⟨0,"okx","BTCUSDT",.short,.market,100,1,none,0,none,none,.pending⟩

/-- The first order fills only a half, and the queries answer. -/
def halfThenAll : Env := fun t => if t = 0 then { fill := some (1/2) } else {}

/-- The first order fills completely, but its status query fails. -/
def unverifiedFirst : Env := fun t => if t = 1 then { failure := some "timeout" } else {}

/-- A partial fill that is verified is completed by the second order. -/
theorem market_retry_completes :
    let out := (exchanges halfThenAll).run (placeMarketOrderWithRetry hedgeOne 1) .empty
    filledSince 0 out.2 ≤ 1 ∧
      ∀ o, out.1 = .ok o → o.size = filledSince 0 out.2 ∧ 1 ≤ o.size := by
  refine (market_retry_exact halfThenAll ⟨fun t => ?_,fun t => ?_⟩ hedgeOne 1
    (by decide) .empty).mpr ?_
  · unfold halfThenAll
    split <;> rfl
  · unfold halfThenAll
    split <;> rfl
  · decide +kernel

/-- After an unverified fill the whole target is bought again: two contracts are
filled for a target of one, and the result says one. -/
theorem market_retry_fills_twice :
    let out := (exchanges unverifiedFirst).run (placeMarketOrderWithRetry hedgeOne 1) .empty
    (∀ t, (unverifiedFirst t).report = none ∧ (unverifiedFirst t).rests = false) ∧
      out.1.toOption.map SimulatedOrder.size = some 1 ∧ filledSince 0 out.2 = 2 ∧
      ¬ filledSince 0 out.2 ≤ 1 := by
  refine ⟨fun t => ?_,by decide +kernel⟩
  unfold unverifiedFirst
  split <;> exact ⟨rfl,rfl⟩

end SpreadArb.Proofs.Hedge
