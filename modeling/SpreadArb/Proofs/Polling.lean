import SpreadArb.Proofs.Frame

namespace SpreadArb.Proofs
open Interact Machine

section Chasing

variable {env : Env} {C : World → BackendOp → Prop} {config : RepricingConfig} {side : OrderSide}
  {legs : Legs} {w : World} {I : Legs → World → Prop}

/-- The leg after a reprice. -/
def repriced (leg : Leg) (placed : SimulatedOrder) (metrics : RepricingMetrics) : Leg :=
  { leg with order := placed, repriceCount := leg.repriceCount+1, metrics }

/-- What price chasing has to keep: nothing changes unless the old order is cancelled, and
then a new one of the same size may take its place. -/
theorem wp_chaseLeg (hI : ∀ w', Quiet w w' → I legs w')
    (hcancel : (legs.leg side).filled = false → ∀ w₁, Quiet w w₁ → (exchanges env).wp C
      (Backend.cancelOrder (legs.leg side).order.exchange (legs.leg side).order.id)
      (fun r w₂ => Quiet w₁ w₂ ∧ (r = .ok () → Idle (w₂.book (legs.leg side).order.id))) w₁)
    (hid : (legs.leg side).filled = false → (legs.leg side).order.id < w.count)
    (hplace : (legs.leg side).filled = false → ∀ w₁ price secs placed w₂ w₃ metrics, Quiet w w₁ →
      Idle (w₁.book (legs.leg side).order.id) →
      C w₁ (.placeOrder { (legs.leg side).order with price, id := 0, createdAt := secs }) →
      Placed env w₁ { (legs.leg side).order with price, id := 0, createdAt := secs } placed w₂ →
      Quiet w₂ w₃ → I (legs.set side (repriced (legs.leg side) placed metrics)) w₃) :
    (exchanges env).wp C (chaseLeg config side legs) I w := by
  unfold chaseLeg
  dsimp only
  split
  · next hgo =>
    have hside : (legs.leg side).filled = false := by
      rw [Bool.and_eq_true] at hgo
      simpa using hgo.1
    refine wp_bind.mpr (wp_asking (getBestPriceForOrder_asks _) (fun r w₁ hq₁ => ?_))
    cases r with
    | error e => exact hI w₁ hq₁
    | ok best =>
      dsimp only
      split
      · refine wp_bind.mpr ?_
        unfold repriceOrder
        refine wp_bind.mpr (wp_harmless ⟨trivial,fun _ => trivial⟩ (fun start w₂ hq₂ => ?_))
        refine wp_bind.mpr (wp_mono (hcancel hside w₂ (hq₁.trans hq₂)) (fun r w₃ hr => ?_))
        obtain ⟨hq₃,hidle⟩ := hr
        have hq := hq₁.trans (hq₂.trans hq₃)
        cases r with
        | error e => exact hI w₃ hq
        | ok u =>
          refine wp_bind.mpr (wp_harmless ⟨trivial,fun _ => trivial⟩ (fun created w₄ hq₄ => ?_))
          refine wp_bind.mpr (wp_placeOrder (fun e w₅ hq₅ => hI w₅ (hq.trans (hq₄.trans hq₅)))
            (fun hc placed w₅ hp => ?_))
          refine wp_bind.mpr (wp_harmless ⟨trivial,fun _ => trivial⟩ (fun done w₆ hq₆ => ?_))
          have hidle₄ := (hidle rfl).extends (hq₄.order _ (by rw [hq.count_eq]; exact hid hside))
          exact hplace hside w₄ _ _ placed w₅ w₆ _ (hq.trans hq₄) hidle₄ hc hp hq₆
      · exact hI w₁ hq₁
  · exact hI w (.refl w)

end Chasing

/-- What holds between the statements of the polling loop, or `E` once it returns `Err`. -/
structure PollInvariant (env : Env) (C : World → BackendOp → Prop)
    (opportunity : ArbitrageOpportunity) (config : RepricingConfig) (E : World → Prop)
    (I : Legs → World → Prop) : Prop where
  quiet : ∀ {legs w w'}, I legs w → Quiet w w' → I legs w'
  poll : ∀ {side legs w}, I legs w → (exchanges env).wp C (pollLeg opportunity side legs)
    (Ends E (fun flow w' => I (flowLegs flow) w')) w
  chase : ∀ {side legs w}, I legs w → (exchanges env).wp C (chaseLeg config side legs) I w
  spread : ∀ {legs w}, I legs w → (exchanges env).wp C (checkSpread opportunity config legs)
    (Ends E (fun _ => I legs)) w
  reprices : ∀ {side legs w}, I legs w → (exchanges env).wp C (checkReprices config side legs)
    (Ends E (fun _ => I legs)) w

namespace PollInvariant

variable {env : Env} {C : World → BackendOp → Prop} {opportunity : ArbitrageOpportunity}
  {config : RepricingConfig} {E : World → Prop} {I : Legs → World → Prop}

/-- The second half of a turn. -/
theorem short (hI : PollInvariant env C opportunity config E I) {legs : Legs} {w : World}
    (h : I legs w) :
    (exchanges env).wp C (pollShort opportunity config legs)
      (Ends E (fun flow w' => I (flowLegs flow) w')) w := by
  refine ends_bind (hI.poll h) (fun flow w₁ h₁ => ?_)
  cases flow with
  | again l => exact h₁
  | stop l => exact h₁
  | next l =>
    refine ends_lift (wp_mono (hI.chase h₁) (fun legs₂ w₂ h₂ => ?_))
    refine ends_bind (hI.spread h₂) (fun _ w₃ h₃ => ?_)
    refine ends_bind (hI.reprices h₃) (fun _ w₄ h₄ => ?_)
    refine ends_bind (hI.reprices h₄) (fun _ w₅ h₅ => ?_)
    split <;> exact h₅

/-- A whole turn. -/
theorem once (hI : PollInvariant env C opportunity config E I) {legs : Legs} {w : World}
    (h : I legs w) :
    (exchanges env).wp C (pollOnce opportunity config legs)
      (Ends E (fun flow w' => I (flowLegs flow) w')) w := by
  refine ends_lift (wp_harmless ⟨trivial,fun _ => trivial⟩ (fun _ w₁ hq₁ => ?_))
  refine ends_bind (hI.poll (hI.quiet h hq₁)) (fun flow w₂ h₂ => ?_)
  cases flow with
  | again l => exact h₂
  | stop l => exact h₂
  | next l =>
    exact ends_lift (wp_mono (hI.chase h₂) (fun legs₃ w₃ h₃ => hI.short h₃))

/-- The whole loop, by induction on the turns that are left. -/
theorem loop (hI : PollInvariant env C opportunity config E I) {start turns : Nat} {legs : Legs}
    {w : World} (h : I legs w) :
    (exchanges env).wp C (pollLoop opportunity config start turns legs) (Ends E I) w := by
  induction turns generalizing legs w with
  | zero => exact h
  | succ turns ih =>
    refine ends_lift (wp_harmless ⟨trivial,fun _ => trivial⟩ (fun instant w₁ hq₁ => ?_))
    split
    · refine ends_bind (hI.once (hI.quiet h hq₁)) (fun flow w₂ h₂ => ?_)
      cases flow with
      | next l => exact ih h₂
      | again l => exact ih h₂
      | stop l => exact h₂
    · exact hI.quiet h hq₁

end PollInvariant

/-- Giving up is the only way the spread check can go wrong. -/
theorem wp_checkSpread {env : Env} {C : World → BackendOp → Prop}
    {opportunity : ArbitrageOpportunity} {config : RepricingConfig} {E : World → Prop} {legs : Legs}
    {w : World} {Q : World → Prop} (hpass : Q w)
    (hgive : legs.neitherFilled = true →
    (exchanges env).wp C (cancelBoth legs) (fun _ w' => E w') w) :
    (exchanges env).wp C (checkSpread opportunity config legs) (Ends E (fun _ w' => Q w')) w := by
  unfold checkSpread
  dsimp only
  split
  · next hgo =>
    rw [Bool.and_eq_true] at hgo
    exact ends_lift (wp_mono (hgive hgo.1) (fun _ _ h => h))
  · exact hpass

theorem wp_checkReprices {env : Env} {C : World → BackendOp → Prop} {config : RepricingConfig}
    {E : World → Prop} {side : OrderSide} {legs : Legs} {w : World} {Q : World → Prop}
    (hpass : Q w) (hgive : (legs.leg side).filled = false →
      (exchanges env).wp C (cancelBoth legs) (fun _ w' => E w') w) :
    (exchanges env).wp C (checkReprices config side legs) (Ends E (fun _ w' => Q w')) w := by
  unfold checkReprices
  split
  · next hgo =>
    rw [Bool.and_eq_true] at hgo
    have hside : (legs.leg side).filled = false := by simpa using hgo.2
    exact ends_lift (wp_mono (hgive hside) (fun _ _ h => h))
  · exact hpass

end SpreadArb.Proofs
