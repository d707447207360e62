import SpreadArb.Retry
import SpreadArb.Proofs.Book

namespace SpreadArb.Proofs.Close
open Interact

/-- What the exchange fills of a market order at once. -/
def taken (c : Move) (order : SimulatedOrder) : ℚ :=
  if c.failure = none then (World.freshMarket c order).filled else 0

/-- What the orders numbered from `n` on leave open of the target. -/
def missing (n : OrderId) (target : ℚ) (w : World) : ℚ := target - filledSince n w

/-- From `w` to `w'` the orders trade what was open in `w`. -/
def MakesUp (n : OrderId) (target : ℚ) (w w' : World) : Prop :=
  filledSince n w' - filledSince n w = missing n target w

/-- A condition on a refusal, and one on an accepted order. -/
def OnAnswer (refused : String → Prop) (accepted : SimulatedOrder → Prop) :
    Except String SimulatedOrder → Prop
  | .error e => refused e
  | .ok o => accepted o

/-- How `left` attempts at `order` from `w` on have to go. An accepted order takes no more than is
open when it is placed, and what rests trades no more than is open afterwards. `last` holds of an
accepted order after which there are no more attempts, because it is reported filled or none is
left: from its placement to that answer. `refused` holds after a refusal of the last attempt. -/
def Closes (env : Env) (order : SimulatedOrder) (n : OrderId) (target : ℚ)
    (last : World → World → Prop) (refused : String → World → Prop) : Nat → World → Prop
  | 0, _ => True
  | left+1, w =>
    let placed := (exchanges env).serve (.placeMarketOrder order) w
    taken (env w.tick) order ≤ missing n target (w.advance env) ∧
    OnAnswer
      (fun e =>
        if left = 0 then refused e placed.2
        else
          0 ≤ missing n target (placed.2.advance env) ∧
            Closes env order n target last refused
              left ((exchanges env).serve (.sleep 100) placed.2).2)
      (fun o =>
        let asked := (exchanges env).serve (.getOrderStatusDetailed o.exchange o.id order.symbol)
            placed.2
        0 ≤ missing n target (placed.2.advance env) ∧
          if reportsFilled asked.1 = true ∨ left = 0 then last (w.advance env) asked.2
          else
            0 ≤ missing n target (asked.2.advance env) ∧
              Closes env order n target last refused
                left ((exchanges env).serve (.sleep 100) asked.2).2)
      placed.1

/-- How the two orders of half the size have to go. The second one follows where the attempts at the
first have ended on an accepted order. -/
def ClosesHalves (env : Env) (half : SimulatedOrder) (n : OrderId) (target : ℚ)
    (w : World) : Prop :=
  Closes env half n target
    (fun _ => Closes env half n target (MakesUp n target) (fun _ _ => True) halfRetries)
    (fun _ _ => True) halfRetries w

/-- How an emergency close of `order` has to go for its size. -/
def ClosesOut (env : Env) (order : SimulatedOrder) (w : World) : Prop :=
  Closes env (closeOrderOf order w.clock) w.count order.size (MakesUp w.count order.size)
    (fun e w₁ => quantityLimitHit (placeFailure closeRetries e) = true →
      ClosesHalves env { closeOrderOf order w.clock with size := order.size / 2 } w.count
        order.size w₁)
    closeRetries w

section Decidability

variable {env : Env} {order : SimulatedOrder} {n : OrderId} {target : ℚ}

instance {refused : String → Prop} {accepted : SimulatedOrder → Prop} [DecidablePred refused]
    [DecidablePred accepted] (r : Except String SimulatedOrder) :
    Decidable (OnAnswer refused accepted r) :=
  match r with
  | .error e => inferInstanceAs (Decidable (refused e))
  | .ok o => inferInstanceAs (Decidable (accepted o))

instance (w w' : World) : Decidable (MakesUp n target w w') := inferInstanceAs (Decidable (_ = _))

instance decidableCloses {last : World → World → Prop} {refused : String → World → Prop}
    [hl : ∀ w, DecidablePred (last w)] [hr : ∀ e, DecidablePred (refused e)] :
    (left : Nat) → (w : World) → Decidable (Closes env order n target last refused left w)
  | 0, _ => .isTrue trivial
  | left+1, _ =>
    have (w : World) : Decidable (Closes env order n target last refused left w) :=
      decidableCloses left w
    inferInstanceAs (Decidable (_ ∧ OnAnswer (fun e => if left = 0 then refused e _ else _ ∧ _)
      (fun _ => _ ∧ if _ ∨ left = 0 then last _ _ else _ ∧ _) _))

instance {half : SimulatedOrder} (w : World) : Decidable (ClosesHalves env half n target w) :=
  inferInstanceAs (Decidable (Closes ..))

instance (w : World) : Decidable (ClosesOut env order w) := inferInstanceAs (Decidable (Closes ..))

end Decidability

section Steps

variable {env : Env} {n : OrderId} {w : World}

theorem filledSince_placed (env : Env) (order : SimulatedOrder) (hn : n ≤ w.count) :
    filledSince n ((exchanges env).serve (.placeMarketOrder order) w).2 =
      filledSince n (w.advance env) + taken (env w.tick) order := by
  rw [serve_placeMarketOrder]
  unfold World.serveMarket taken
  cases hf : (env w.tick).failure with
  | some e => simp
  | none =>
    have hold : ∀ i ∈ Finset.Ico n w.count, (((w.advance env).add
        (World.freshMarket (env w.tick) order)).book i).filled =
          ((w.advance env).book i).filled := by
      intro i hi
      rw [add_book,advance_count,if_neg (Finset.mem_Ico.mp hi).2.ne]
    simp only [if_true]
    rw [filledSince,add_count,advance_count,Finset.sum_Ico_succ_top hn,Finset.sum_congr rfl hold,
      add_book,advance_count,if_pos rfl]
    rfl

theorem filledSince_asked (env : Env) (n : OrderId) (w : World) (exchange symbol : String)
    (id : OrderId) :
    filledSince n ((exchanges env).serve (.getOrderStatusDetailed exchange id symbol) w).2 =
      filledSince n (w.advance env) := by
  rw [serve_getOrderStatusDetailed]
  unfold World.serveStatus
  split
  · rfl
  · refine Finset.sum_congr rfl (fun i _ => ?_)
    rw [setOrder_book]
    split
    · next hi => rw [hi]
    · rfl

end Steps

section Attempts

variable (env : Env) (order : SimulatedOrder) {n : OrderId} {target : ℚ} {ended : World → Prop}
  {last : World → World → Prop} {refused : String → World → Prop}

/-- A call has filled no more than the target, and leaves what belongs to its answer. -/
structure Ends (n : OrderId) (target : ℚ) (ended : World → Prop) (refused : String → World → Prop)
    (out : Except String α × World) : Prop where
  within : filledSince n out.2 ≤ target
  ok : ∀ a, out.1 = .ok a → ended out.2
  error : ∀ e, out.1 = .error e → refused e out.2

/-- After a refused attempt. -/
theorem run_refused {left attempts : Nat} {w w₁ : World} {e : String}
    (h : (exchanges env).serve (.placeMarketOrder order) w = (.error e,w₁)) :
    (exchanges env).run (placeAttempts order attempts (left+1)) w =
      if left = 0 then (.error (placeFailure (attempts+1) e),w₁)
      else (exchanges env).run (placeAttempts order (attempts+1) left)
        ((exchanges env).serve (.sleep 100) w₁).2 := by
  change (exchanges env).run (Prog.bind (Prog.call (.placeMarketOrder order) .ret) _) w = _
  simp only [Prog.bind,Machine.run,h]
  split
  · rfl
  · rfl

/-- After an accepted attempt. -/
theorem run_accepted {left attempts : Nat} {w w₁ : World} {o : SimulatedOrder}
    (h : (exchanges env).serve (.placeMarketOrder order) w = (.ok o,w₁)) :
    let asked := (exchanges env).serve (.getOrderStatusDetailed o.exchange o.id order.symbol) w₁
    (exchanges env).run (placeAttempts order attempts (left+1)) w =
      if reportsFilled asked.1 = true ∨ left = 0 then (.ok o,asked.2)
      else (exchanges env).run (placeAttempts order (attempts+1) left)
        ((exchanges env).serve (.sleep 100) asked.2).2 := by
  intro asked
  change (exchanges env).run (Prog.bind (Prog.call (.placeMarketOrder order) .ret) _) w = _
  simp only [Prog.bind,Machine.run,h]
  change (exchanges env).run (ite _ _ (ite _ _ _)) asked.2 = _
  by_cases hr : reportsFilled asked.1 = true
  · rw [if_pos hr,if_pos (.inl hr)]
    rfl
  · by_cases hl : left = 0
    · rw [if_neg hr,if_pos hl,if_pos (.inr hl)]
      rfl
    · rw [if_neg hr,if_neg hl,if_neg (by simp [hr,hl])]
      rfl

theorem Ends.imp {ended' : World → Prop} {refused' : String → World → Prop}
    {out : Except String α × World} (h : Ends n target ended refused out)
    (ho : ∀ w, ended w → ended' w) (he : ∀ e w, refused e w → refused' e w) :
    Ends n target ended' refused' out :=
  ⟨h.within,fun a ha => ho _ (h.ok a ha),fun e hout => he _ _ (h.error e hout)⟩

/-- The attempts keep to the target exactly if each of them goes as it has to. -/
theorem closes_iff (hlast : ∀ w w', last w w' ↔ ended w') (refused : String → World → Prop)
    (left attempts : Nat) (w : World) (hn : n ≤ w.count) (hw : filledSince n w ≤ target) :
    Closes env order n target last (fun e => refused (placeFailure (attempts+left) e)) left w ↔
      Ends n target ended (fun e w' => left ≠ 0 → refused e w')
        ((exchanges env).run (placeAttempts order attempts left) w) := by
  induction left generalizing attempts w with
  | zero =>
    exact ⟨fun _ => ⟨hw,(fun a ha => by cases ha),fun e _ h => absurd rfl h⟩,fun _ => trivial⟩
  | succ left ih =>
    obtain ⟨⟨r,w₁⟩,hserve⟩ : ∃ out, (exchanges env).serve (.placeMarketOrder order) w =
      out := ⟨_,rfl⟩
    have hplaced := filledSince_placed env order hn
    have hn₁ := hn.trans (serve_grows env (.placeMarketOrder order) w).count_le
    rw [hserve] at hplaced hn₁
    have htaken : taken (env w.tick) order ≤ missing n target (w.advance env) ↔
        filledSince n w₁ ≤ target := by
      rw [hplaced,missing,le_sub_iff_add_le,add_comm]
    -- the attempts that are left, from the state after a pause on
    have hrest : ∀ w₂ : World, n ≤ w₂.count → left ≠ 0 →
        (0 ≤ missing n target (w₂.advance env) ∧ Closes env order n target last
          (fun e => refused (placeFailure (attempts+(left+1)) e))
            left ((exchanges env).serve (.sleep 100) w₂).2 ↔
        Ends n target ended (fun e w' => left+1 ≠ 0 → refused e w') ((exchanges env).run
          (placeAttempts order (attempts+1) left) ((exchanges env).serve (.sleep 100) w₂).2)) := by
      intro w₂ hn₂ hl
      obtain ⟨v,hslept⟩ : ∃ v, ((exchanges env).serve (.sleep 100) w₂).2 = v := ⟨_,rfl⟩
      have hv : filledSince n v = filledSince n (w₂.advance env) := hslept ▸ rfl
      replace hn₂ : n ≤ v.count := hslept ▸ hn₂
      rw [hslept]
      have hroom : 0 ≤ missing n target (w₂.advance env) ↔ filledSince n v ≤ target := by
        rw [hv,missing,sub_nonneg]
      have hih := ih (attempts+1) v hn₂
      rw [Nat.add_right_comm attempts 1 left,Nat.add_assoc attempts left 1] at hih
      rw [hroom]
      constructor
      · rintro ⟨hle,hc⟩
        exact ((hih hle).mp hc).imp (fun _ h => h) (fun _ _ h _ => h hl)
      · intro h
        have hle := (filledSince_mono (run_grows env _ v)).trans h.within
        exact ⟨hle,(hih hle).mpr (h.imp (fun _ h => h) (fun _ _ h _ => h (Nat.succ_ne_zero _)))⟩
    unfold Closes
    simp only [hserve]
    rw [htaken]
    cases r with
    | error e =>
      rw [run_refused env order hserve]
      change _ ∧ ite _ _ _ ↔ _
      by_cases hl : left = 0
      · subst hl
        rw [if_pos rfl,if_pos rfl]
        constructor
        · rintro ⟨hle,hr⟩
          exact ⟨hle,(fun a ha => by cases ha),fun e' he' _ => by cases he'; exact hr⟩
        · exact fun h => ⟨h.within,h.error _ rfl (Nat.succ_ne_zero 0)⟩
      · rw [if_neg hl,if_neg hl,hrest w₁ hn₁ hl,and_iff_right_iff_imp]
        intro h
        exact (filledSince_mono ((serve_grows env (.sleep 100) w₁).trans (run_grows env _ _))).trans
          h.within
    | ok o =>
      rw [run_accepted env order hserve]
      change _ ∧ _ ∧ ite _ _ _ ↔ _
      obtain ⟨asked,hasked⟩ : ∃ out,
        (exchanges env).serve (.getOrderStatusDetailed o.exchange o.id order.symbol)
        w₁ = out := ⟨_,rfl⟩
      have hfilled := filledSince_asked env n w₁ o.exchange order.symbol o.id
      have hgrows := serve_grows env (.getOrderStatusDetailed o.exchange o.id order.symbol) w₁
      rw [hasked] at hfilled hgrows ⊢
      have hroom : 0 ≤ missing n target (w₁.advance env) ↔ filledSince n asked.2 ≤ target := by
        rw [hfilled,missing,sub_nonneg]
      rw [hroom]
      by_cases hend : reportsFilled asked.1 = true ∨ left = 0
      · rw [if_pos hend,if_pos hend]
        constructor
        · rintro ⟨_,hle,he⟩
          exact ⟨hle,fun _ _ => (hlast _ _).mp he,(fun e he' => by cases he')⟩
        · exact fun h =>
            ⟨(filledSince_mono hgrows).trans h.within,h.within,(hlast _ _).mpr (h.ok o rfl)⟩
      · rw [if_neg hend,if_neg hend,
          hrest asked.2 (hn₁.trans hgrows.count_le) (fun hl => hend (.inr hl))]
        constructor
        · exact fun h => h.2.2
        · intro h
          have hle := (filledSince_mono
              ((serve_grows env (.sleep 100) asked.2).trans (run_grows env _ _))).trans
            h.within
          exact ⟨(filledSince_mono hgrows).trans hle,hle,h⟩

end Attempts

section Calls

variable (env : Env) {n : OrderId} {target : ℚ}

theorem makesUp_iff (n : OrderId) (target : ℚ) (w w' : World) :
    MakesUp n target w w' ↔ filledSince n w' = target := by
  rw [MakesUp,missing,sub_left_inj]

theorem halves_iff (closeOrder : SimulatedOrder) (target : ℚ) (w : World) (hn : n ≤ w.count)
    (hw : filledSince n w ≤ target) :
    ClosesHalves env { closeOrder with size := closeOrder.size / 2 } n target w ↔
      (let out := (exchanges env).run (closeInHalves closeOrder) w
      filledSince n out.2 ≤ target ∧ (out.1 = true → filledSince n out.2 = target)) := by
  have hcall : ∀ (ended : World → Prop) (last : World → World → Prop),
      (∀ w w', last w w' ↔ ended w') → ∀ w, n ≤ w.count → filledSince n w ≤ target → _ :=
    fun _ _ hlast w hn hw => closes_iff env { closeOrder with size := closeOrder.size / 2 } hlast
      (fun _ _ => True) halfRetries 0 w hn hw
  have hgrows := run_grows env
      (placeAttempts { closeOrder with size := closeOrder.size / 2 } 0 halfRetries) w
  refine (hcall (Closes env { closeOrder with size := closeOrder.size / 2 } n target
    (MakesUp n target) (fun _ _ => True) halfRetries) (fun _ => _) (fun _ _ => Iff.rfl) w hn
    hw).trans ?_
  simp only [closeInHalves,placeWithRetry,Machine.run_bind]
  generalize (exchanges env).run
    (placeAttempts { closeOrder with size := closeOrder.size / 2 } 0 halfRetries)
    w = first at hgrows
  obtain ⟨r,w₁⟩ := first
  cases r with
  | error e =>
    constructor
    · exact fun h => ⟨h.within,fun hf => by cases hf⟩
    · exact fun h => ⟨h.1,(fun a ha => by cases ha),fun _ _ _ => trivial⟩
  | ok o =>
    have hends : Ends n target (Closes env { closeOrder with size := closeOrder.size / 2 } n target
        (MakesUp n target) (fun _ _ => True) halfRetries) (fun _ _ => halfRetries ≠ 0 → True)
        (Except.ok (ε := String) o,w₁) ↔
        filledSince n w₁ ≤ target ∧
          Closes env { closeOrder with size := closeOrder.size / 2 } n target
          (MakesUp n target) (fun _ _ => True) halfRetries w₁ :=
      ⟨fun h => ⟨h.within,h.ok o rfl⟩,fun h => ⟨h.1,fun _ _ => h.2,(fun e he => by cases he)⟩⟩
    rw [hends]
    have hgrows₂ := run_grows env
        (placeAttempts { closeOrder with size := closeOrder.size / 2 } 0 halfRetries) w₁
    have hsecond := hcall _ _ (makesUp_iff n target) w₁ (hn.trans hgrows.count_le)
    simp only [Machine.run_bind]
    generalize (exchanges env).run
      (placeAttempts { closeOrder with size := closeOrder.size / 2 } 0 halfRetries)
      w₁ = second at hgrows₂ hsecond
    obtain ⟨r₂,w₂⟩ := second
    cases r₂ with
    | error e =>
      constructor
      · exact fun h => ⟨((hsecond h.1).mp h.2).within,fun hf => by cases hf⟩
      · intro h
        have hle := (filledSince_mono hgrows₂).trans h.1
        exact ⟨hle,(hsecond hle).mpr ⟨h.1,(fun a ha => by cases ha),fun _ _ _ => trivial⟩⟩
    | ok o₂ =>
      constructor
      · intro h
        have hend := (hsecond h.1).mp h.2
        exact ⟨hend.within,fun _ => hend.ok o₂ rfl⟩
      · intro h
        have hle := (filledSince_mono hgrows₂).trans h.1
        exact ⟨hle,(hsecond hle).mpr ⟨h.1,fun _ _ => h.2 rfl,
          (fun e he => by cases he)⟩⟩

theorem closesOut_iff (order : SimulatedOrder) (w : World) (hs : 0 ≤ order.size) :
    ClosesOut env order w ↔
      (let out := (exchanges env).run (emergencyClosePosition order) w
      filledSince w.count out.2 ≤ order.size ∧
        (out.1.isOk = true → filledSince w.count out.2 = order.size)) := by
  have hzero : filledSince w.count w ≤ order.size := by simpa [filledSince] using hs
  have hgrows := run_grows env (placeAttempts (closeOrderOf order w.clock) 0 closeRetries) w
  have hattempts : ClosesOut env order w ↔ Ends w.count order.size
      (fun w' => filledSince w.count w' = order.size)
      (fun text w₁ => closeRetries ≠ 0 → quantityLimitHit text = true → ClosesHalves env
        { closeOrderOf order w.clock with size := order.size / 2 } w.count order.size w₁)
      ((exchanges env).run (placeAttempts (closeOrderOf order w.clock) 0 closeRetries) w) := by
    have h := closes_iff env (closeOrderOf order w.clock) (makesUp_iff w.count order.size)
      (fun text w₁ => quantityLimitHit text = true → ClosesHalves env
        { closeOrderOf order w.clock with size := order.size / 2 } w.count order.size w₁)
      closeRetries 0 w le_rfl hzero
    rw [Nat.zero_add] at h
    exact h
  rw [hattempts]
  simp only [emergencyClosePosition,Machine.run_bind,Machine.run_call,Machine.run_ret,serve_now,
    serve_alert,placeWithRetry]
  generalize (exchanges env).run (placeAttempts (closeOrderOf order w.clock) 0 closeRetries) w =
    whole at hgrows
  obtain ⟨r,w₁⟩ := whole
  cases r with
  | ok o =>
    constructor
    · exact fun h => ⟨h.within,fun _ => h.ok o rfl⟩
    · exact fun h => ⟨h.1,fun _ _ => h.2 rfl,(fun e he => by cases he)⟩
  | error e =>
    have hhalves := halves_iff env (closeOrderOf order w.clock) order.size w₁ hgrows.count_le
    by_cases hq : quantityLimitHit e = true
    · simp only [hq,if_true,Machine.run_bind]
      have hgrows₂ := run_grows env (closeInHalves (closeOrderOf order w.clock)) w₁
      generalize (exchanges env).run (closeInHalves (closeOrderOf order w.clock)) w₁ =
        halves at hhalves hgrows₂
      obtain ⟨closed,w₂⟩ := halves
      have hends : Ends w.count order.size (fun w' => filledSince w.count w' = order.size)
          (fun text w₁ => closeRetries ≠ 0 → quantityLimitHit text = true → ClosesHalves env
            { closeOrderOf order w.clock with size := order.size / 2 } w.count order.size w₁)
          ((.error e,w₁) : Except String SimulatedOrder × World) ↔
          filledSince w.count w₂ ≤ order.size ∧
            (closed = true → filledSince w.count w₂ = order.size) := by
        constructor
        · exact fun h => (hhalves h.within).mp (h.error e rfl (by decide) hq)
        · intro h
          have hle := (filledSince_mono hgrows₂).trans h.1
          exact ⟨hle,(fun a ha => by cases ha),fun e' he' _ _ => (hhalves hle).mpr h⟩
      rw [hends]
      cases closed with
      | true => exact ⟨fun h => ⟨h.1,fun _ => h.2 rfl⟩,fun h => ⟨h.1,fun _ => h.2 rfl⟩⟩
      | false =>
        exact ⟨fun h => ⟨h.1,(fun ho => by cases ho)⟩,fun h => ⟨h.1,(fun ho => by cases ho)⟩⟩
    · simp only [hq,Bool.false_eq_true,if_false]
      constructor
      · exact fun h => ⟨h.within,(fun ho => by cases ho)⟩
      · exact fun h => ⟨h.1,(fun a ha => by cases ha),fun e' he' _ hlimit => by
          cases he'; exact absurd hlimit hq⟩

end Calls

/-- Exactness of the two closing calls. Neither `place_with_retry` nor an emergency close compares
what its orders filled, so it fills the target and no more exactly if no accepted order takes more
than is open when it is placed, what rests trades no more than is open afterwards, and an accepted
order after which there are no more attempts makes up what was open when it was placed. -/
theorem closing_calls_exact (env : Env) (order : SimulatedOrder) (w : World) :
    (∀ (target : ℚ) (maxRetries : Nat), 0 ≤ target →
      let out := (exchanges env).run (placeWithRetry order target maxRetries) w
      (filledSince w.count out.2 ≤ target ∧
        (out.1.isOk = true → filledSince w.count out.2 = target)) ↔
      Closes env order w.count target (MakesUp w.count target) (fun _ _ => True) maxRetries w) ∧
    (0 ≤ order.size →
      let out := (exchanges env).run (emergencyClosePosition order) w
      (filledSince w.count out.2 ≤ order.size ∧
        (out.1.isOk = true → filledSince w.count out.2 = order.size)) ↔ ClosesOut env order w) := by
  refine ⟨fun target maxRetries ht => ?_,fun hs => (closesOut_iff env order w hs).symm⟩
  have hzero : filledSince w.count w ≤ target := by simpa [filledSince] using ht
  refine Iff.trans ?_ (closes_iff env order (makesUp_iff w.count target) (fun _ _ => True)
    maxRetries 0 w le_rfl hzero).symm
  simp only [placeWithRetry]
  generalize (exchanges env).run (placeAttempts order 0 maxRetries) w = out
  obtain ⟨r,w'⟩ := out
  cases r with
  | error e =>
    exact ⟨fun h => ⟨h.1,(fun a ha => by cases ha),fun _ _ _ => trivial⟩,fun h => ⟨h.within,
      (fun ho => by cases ho)⟩⟩
  | ok o =>
    exact ⟨fun h => ⟨h.1,fun _ _ => h.2 rfl,fun _ _ _ => trivial⟩,
      fun h => ⟨h.within,
      fun _ => h.ok o rfl⟩⟩

/-- A bought contract that is to be closed. -/
def boughtOne : SimulatedOrder :=
  ⟨0,"bybit","BTCUSDT",.long,.limit,100,1,none,0,none,none,.filled⟩

/-- The first closing order is refused, the second one is dropped unfilled, and the third one
fills. -/
def thirdFills : Env := fun t =>
  if t = 0 then { failure := some "rejected" } else if t = 2 then { fill := some 0 } else {}

theorem third_order_closes :
    let out := (exchanges thirdFills).run (emergencyClosePosition boughtOne) .empty
    filledSince 0 out.2 ≤ boughtOne.size ∧
      (out.1.isOk = true → filledSince 0 out.2 = boughtOne.size) :=
  ((closing_calls_exact thirdFills boughtOne .empty).2 (by decide)).mpr (by decide +kernel)

/-- The exchange fills half of the first closing order and drops the rest. -/
def halfFirst : Env := fun t => if t = 0 then { fill := some (1/2) } else {}

/-- The retry resends the full size after the partial fill: three halves are sold
against one contract, and the close reports success. -/
theorem emergency_close_oversells :
    let out := (exchanges halfFirst).run (emergencyClosePosition boughtOne) .empty
    out.1.isOk = true ∧ filledSince 0 out.2 = 3/2 ∧ ¬ filledSince 0 out.2 ≤ boughtOne.size := by
  decide +kernel

end SpreadArb.Proofs.Close
