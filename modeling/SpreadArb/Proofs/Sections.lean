import SpreadArb.HedgeLocks
import SpreadArb.Proofs.Frame

namespace SpreadArb.Proofs.Sections
open Interact

section Requests

/-- The requests of the attempts at an order: market orders like it, of any size, and their
status. -/
def Attempting (order : SimulatedOrder) : BackendOp → Prop
  | .placeMarketOrder o => ∃ size, o = { order with size }
  | .getOrderStatusDetailed .. | .sleep _ => True
  | _ => False

theorem Attempting.resized {order : SimulatedOrder} {size : ℚ} {op : BackendOp}
    (h : Attempting { order with size } op) : Attempting order op := by
  cases op <;> exact h

theorem placeAttempts_attempting (order : SimulatedOrder) (left attempts : Nat) :
    (placeAttempts order attempts left).Only (Attempting order) := by
  induction left generalizing attempts with
  | zero => trivial
  | succ left ih =>
    refine ⟨⟨_,rfl⟩,fun r => ?_⟩
    cases r with
    | error e =>
      change Prog.Only _ (ite _ _ _)
      split
      · trivial
      · exact ⟨trivial,fun _ => ih _⟩
    | ok placed =>
      refine ⟨trivial,fun status => ?_⟩
      change Prog.Only _ (ite _ _ _)
      split
      · trivial
      split
      · trivial
      · exact ⟨trivial,fun _ => ih _⟩

theorem closeInHalves_attempting (order : SimulatedOrder) :
    (closeInHalves order).Only (Attempting order) := by
  refine .bind ((placeAttempts_attempting _ _ _).mono (fun _ => Attempting.resized)) (fun r => ?_)
  cases r with
  | error e => trivial
  | ok o =>
    refine .bind ((placeAttempts_attempting _ _ _).mono (fun _ => Attempting.resized)) (fun r => ?_)
    cases r <;> trivial

theorem marketAttempts_attempting (template : SimulatedOrder) (target : ℚ) (left : Nat) (filled : ℚ)
    (order : SimulatedOrder) :
    (marketAttempts template target left filled order).Only (Attempting template) := by
  induction left generalizing filled order with
  | zero => trivial
  | succ left ih =>
    unfold marketAttempts
    split
    · trivial
    · refine .bind ⟨⟨_,rfl⟩,fun _ => trivial⟩ (fun r => ?_)
      cases r with
      | error e =>
        dsimp only
        split
        · trivial
        · exact .bind ⟨trivial,fun _ => trivial⟩ (fun _ => ih _ _)
      | ok placed =>
        refine .bind ⟨trivial,fun _ => trivial⟩ (fun status => ?_)
        cases status with
        | error e =>
          dsimp only
          split
          · trivial
          · exact .bind ⟨trivial,fun _ => trivial⟩ (fun _ => ih _ _)
        | ok info =>
          dsimp only
          split
          · trivial
          · exact ih _ _

/-- The requests of an emergency close of a filled order. -/
def Closing (order : SimulatedOrder) : BackendOp → Prop
  | .placeMarketOrder o => ∃ now size, o = { closeOrderOf order now with size }
  | .now | .alert _ | .haltTrading _ | .getOrderStatusDetailed .. | .sleep _ => True
  | _ => False

theorem Attempting.closing {order : SimulatedOrder} {now : Nat} {op : BackendOp}
    (h : Attempting (closeOrderOf order now) op) : Closing order op := by
  cases op with
  | placeMarketOrder o => exact ⟨now,h⟩
  | getOrderStatusDetailed | sleep => trivial
  | _ => cases h

theorem emergency_closing (order : SimulatedOrder) :
    (emergencyClosePosition order).Only (Closing order) := by
  refine .bind ⟨trivial,fun _ => trivial⟩ (fun start =>
    .bind ⟨trivial,fun _ => trivial⟩ (fun _ => ?_))
  refine .bind ⟨trivial,fun _ => trivial⟩ (fun created => ?_)
  refine .bind ((placeAttempts_attempting _ _ _).mono (fun _ => Attempting.closing)) (fun r => ?_)
  cases r with
  | ok o => trivial
  | error e =>
    have hend : ∀ closed : Bool, Prog.Only (Closing order)
        (if closed then pure (.ok ()) else do
          let failed ← Backend.now
          let _ ← Backend.alert (.closeFailed order)
          let _ ← Backend.haltTrading (haltReason order e)
          pure (.error (closeFailure (failed - start) e)) : Prog backend (Except String Unit)) := by
      intro closed
      cases closed with
      | true => trivial
      | false => exact ⟨trivial,fun _ => ⟨trivial,fun _ => ⟨trivial,fun _ => trivial⟩⟩⟩
    dsimp only
    split
    · exact .bind ((closeInHalves_attempting _).mono (fun _ => Attempting.closing)) hend
    · exact hend false

/-- The requests of the quantity check. -/
def Balancing : BackendOp → Prop
  | .placeMarketOrder o => o.orderType = .market
  | .now => True
  | _ => False

theorem balanceLegs_balancing (opportunity : ArbitrageOpportunity) (longQty shortQty : ℚ)
    (legs : Legs) : (balanceLegs opportunity longQty shortQty legs).Only Balancing := by
  have hleg : ∀ side diff target,
      (balanceLeg opportunity side diff target legs).Only Balancing := by
    intro side diff target
    refine ⟨trivial,fun _ => ⟨rfl,fun r => ?_⟩⟩
    cases r <;> trivial
  unfold balanceLegs
  split
  · split <;> exact hleg _ _ _
  · trivial

theorem checkBothLegsStatus_asks (long short : SimulatedOrder) :
    (checkBothLegsStatus long short).Only Asking := by
  refine .bind ⟨trivial,fun _ => trivial⟩ (fun longResult => ?_)
  refine .bind ⟨trivial,fun _ => trivial⟩ (fun shortResult => ?_)
  cases longResult with
  | error e => trivial
  | ok l =>
    cases shortResult with
    | error e => trivial
    | ok s =>
      dsimp only
      split <;> trivial

end Requests

/-- The requests that take or drop no hedge lock and do not give up. -/
def Plain : BackendOp → Prop
  | .alert (.closeFailed _) | .haltTrading _ | .tryAcquireHedgeLock _ | .dropHedgeLock _ => False
  | _ => True

/-- The plain requests of an entry outside of its hedges. -/
def Outside : BackendOp → Prop
  | .placeMarketOrder _ => False
  | op => Plain op

theorem Outside.plain {op : BackendOp} (h : Outside op) : Plain op := by
  cases op <;> first | exact h | cases h

theorem Asking.outside {op : BackendOp} (h : Asking op) : Outside op := by
  cases op with
  | alert a => cases h
  | haltTrading r => cases h
  | tryAcquireHedgeLock s => cases h
  | dropHedgeLock s => cases h
  | placeMarketOrder o => cases h
  | _ => trivial

theorem Attempting.plain {order : SimulatedOrder} {op : BackendOp} (h : Attempting order op) :
    Plain op := by
  cases op <;> trivial

theorem Balancing.plain {op : BackendOp} (h : Balancing op) : Plain op := by
  cases op <;> trivial

section Outside

theorem chaseLeg_outside (config : RepricingConfig) (side : OrderSide) (legs : Legs) :
    (chaseLeg config side legs).Only Outside := by
  unfold chaseLeg
  dsimp only
  split
  · refine .bind ((getBestPriceForOrder_asks _).mono (fun _ => Asking.outside)) (fun r => ?_)
    cases r with
    | error e => trivial
    | ok best =>
      dsimp only
      split
      · refine .bind (.bind ⟨trivial,fun _ => trivial⟩ (fun start => ⟨trivial,fun cancelled => ?_⟩))
          (fun r => ?_)
        · cases cancelled with
          | error e => trivial
          | ok u =>
            refine ⟨trivial,fun created => ⟨trivial,fun placed => ?_⟩⟩
            cases placed with
            | error e => trivial
            | ok o => exact ⟨trivial,fun _ => trivial⟩
        · cases r <;> trivial
      · trivial
  · trivial

theorem cancelBoth_outside (legs : Legs) : (cancelBoth legs).Only Outside :=
  ⟨trivial,fun _ => ⟨trivial,fun _ => trivial⟩⟩

theorem verifyLeg_outside (opportunity : ArbitrageOpportunity) (side : OrderSide) (legs : Legs) :
    (verifyLeg opportunity side legs).Only Outside := by
  refine ⟨trivial,fun r => ?_⟩
  cases r with
  | error e => trivial
  | ok info =>
    change Prog.Only _ (ite _ _ _)
    split <;> trivial

theorem aggressiveLimit_outside (opportunity : ArbitrageOpportunity) (side : OrderSide)
    (remaining totalFilled : ℚ) (leg : Leg) :
    (aggressiveLimit opportunity side remaining totalFilled leg).Only Outside := by
  refine .bind ((getBestHedgePrice_asks _ _ _).mono (fun _ => Asking.outside)) (fun r => ?_)
  cases r with
  | error e => trivial
  | ok best =>
    refine ⟨trivial,fun secs => ⟨trivial,fun placed => ?_⟩⟩
    cases placed with
    | error e => trivial
    | ok o =>
      refine ⟨trivial,fun _ => ⟨trivial,fun status => ?_⟩⟩
      cases status with
      | error e => exact ⟨trivial,fun _ => trivial⟩
      | ok info =>
        change Prog.Only _ (ite _ _ _)
        split
        · trivial
        · exact ⟨trivial,fun _ => trivial⟩

end Outside

section Entry

/-- How an entry is put together: plain requests, and sections that hold the hedge lock of the
symbol, each for one hedge. Market orders, and emergency closes that end the entry, stand in the
sections only. No section is inside another one. -/
inductive Sectioned (opportunity : ArbitrageOpportunity) : Bool → {α : Type} → Entry α → Prop
  | outside {locked : Bool} {α : Type} {x : Entry α}
    (h : Prog.Only Outside (x : Prog backend (Except EntryError α))) :
      Sectioned opportunity locked x
  | inside {α : Type} {x : Entry α} (h : Prog.Only Plain (x : Prog backend (Except EntryError α))) :
    Sectioned opportunity true x
  | closing {α : Type} (order : SimulatedOrder) {f : Except String Unit → Entry α}
    (hf : ∀ r, ∃ e, f r = throw e) :
    Sectioned opportunity true (liftM (emergencyClosePosition order) >>= f)
  | bind {locked : Bool} {α β : Type} {x : Entry α} {f : α →
    Entry β} (hx : Sectioned opportunity locked x)
    (hf : ∀ a, Sectioned opportunity locked (f a)) : Sectioned opportunity locked (x >>= f)
  | lock {α : Type} {work : Entry α} (hwork : HedgeWork opportunity work)
    (h : Sectioned opportunity true work) :
    Sectioned opportunity false (withHedgeLock opportunity.symbol work)

variable {opportunity : ArbitrageOpportunity} {b : Bool}

theorem sections_pure (a : α) : Sectioned opportunity b (pure a : Entry α) := .outside trivial

theorem sections_throw (e : EntryError) : Sectioned opportunity b (throw e : Entry α) :=
  .outside trivial

theorem Sectioned.ask {p : Prog backend α} {f : α → Entry β} (hp : p.Only Outside)
    (hf : ∀ a, Sectioned opportunity b (f a)) : Sectioned opportunity b (liftM p >>= f) :=
  .bind (.outside hp.lift) hf

theorem Sectioned.asks {x : Entry α}
    (h : Prog.Only Asking (x : Prog backend (Except EntryError α))) : Sectioned opportunity b x :=
  .outside (h.mono (fun _ => Asking.outside))

theorem Sectioned.hedge {p : Prog backend α} {f : α → Entry β} (hp : p.Only Plain)
    (hf : ∀ a, Sectioned opportunity true (f a)) : Sectioned opportunity true (liftM p >>= f) :=
  .bind (.inside hp.lift) hf

theorem depthGate_sections (side : OrderSide) (quantity : ℚ) (legs : Legs) :
    Sectioned opportunity true (depthGate opportunity side quantity legs) := by
  refine .ask ((checkDepthForHedge_asks _ _ _ _).mono (fun _ => Asking.outside)) (fun r => ?_)
  obtain ⟨result,cache⟩ := r
  cases result with
  | error e => exact sections_pure _
  | ok depth =>
    dsimp only
    split
    · refine .closing _ (fun r => ?_)
      cases r <;> exact ⟨_,rfl⟩
    · exact sections_pure _

theorem marketHedge_sections (template : SimulatedOrder) (side : OrderSide) (quantity : ℚ)
    (legs : Legs) : Sectioned opportunity true (marketHedge template side quantity legs) := by
  refine .hedge ((marketAttempts_attempting _ _ _ _ _).mono (fun _ => Attempting.plain))
    (fun r => ?_)
  cases r with
  | ok o => exact sections_pure _
  | error e =>
    refine .closing _ (fun r => ?_)
    cases r <;> exact ⟨_,rfl⟩

theorem hedgeInLoop_sections (side : OrderSide) (quantity : ℚ) (legs : Legs) :
    Sectioned opportunity true (hedgeInLoop opportunity side quantity legs) := by
  refine .ask ((checkBothLegsStatus_asks _ _).mono (fun _ => Asking.outside)) (fun r => ?_)
  have hhedge : Sectioned opportunity true (do
      let legs ← depthGate opportunity side quantity legs
      let secs ← nowSecs
      let other := (legs.leg side.opposite).order
      let _ ← Backend.cancelOrder other.exchange other.id
      let legs ← marketHedge (marketTemplate opportunity side.opposite quantity secs) side
          quantity legs
      pure (.next legs) : Entry Flow) := by
    refine .bind (depthGate_sections _ _ _) (fun legs => ?_)
    refine .ask ⟨trivial,fun _ => trivial⟩ (fun secs =>
      .ask ⟨trivial,fun _ => trivial⟩ (fun _ => ?_))
    exact .bind (marketHedge_sections _ _ _ _) (fun _ => sections_pure _)
  cases r with
  | error e => exact hhedge
  | ok status =>
    cases status with
    | bothFilled long short =>
      refine .hedge ((balanceLegs_balancing _ _ _ _).mono (fun _ => Balancing.plain))
        (fun legs => ?_)
      exact .ask ⟨trivial,fun _ => trivial⟩ (fun secs => sections_pure _)
    | _ => exact hhedge

theorem pollLeg_sections (side : OrderSide) (legs : Legs) :
    Sectioned opportunity false (pollLeg opportunity side legs) := by
  unfold pollLeg
  dsimp only
  split
  · exact sections_pure _
  · refine .ask ⟨trivial,fun _ => trivial⟩ (fun r => ?_)
    cases r with
    | error e => exact sections_pure _
    | ok info =>
      dsimp only
      split
      · refine .ask ⟨trivial,fun _ => trivial⟩ (fun secs => ?_)
        split
        · exact sections_pure _
        · exact .lock (.inLoop _ _ _) (hedgeInLoop_sections _ _ _)
      split
      · exact sections_pure _
      split <;> exact sections_pure _

theorem checkSpread_sections (config : RepricingConfig) (legs : Legs) :
    Sectioned opportunity b (checkSpread opportunity config legs) := by
  unfold checkSpread
  dsimp only
  split
  · exact .ask (cancelBoth_outside _) (fun _ => sections_throw _)
  · exact sections_pure _

theorem checkReprices_sections (config : RepricingConfig) (side : OrderSide) (legs : Legs) :
    Sectioned opportunity b (checkReprices config side legs) := by
  unfold checkReprices
  split
  · exact .ask (cancelBoth_outside _) (fun _ => sections_throw _)
  · exact sections_pure _

theorem pollOnce_sections (config : RepricingConfig) (legs : Legs) :
    Sectioned opportunity false (pollOnce opportunity config legs) := by
  refine .ask ⟨trivial,fun _ => trivial⟩ (fun _ => ?_)
  refine .bind (pollLeg_sections _ _) (fun flow => ?_)
  cases flow with
  | again l => exact sections_pure _
  | stop l => exact sections_pure _
  | next l =>
    refine .ask (chaseLeg_outside _ _ _) (fun legs => ?_)
    refine .bind (pollLeg_sections _ _) (fun flow => ?_)
    cases flow with
    | again l => exact sections_pure _
    | stop l => exact sections_pure _
    | next l =>
      refine .ask (chaseLeg_outside _ _ _) (fun legs => ?_)
      refine .bind (checkSpread_sections _ _) (fun _ => ?_)
      refine .bind (checkReprices_sections _ _ _) (fun _ =>
        .bind (checkReprices_sections _ _ _) (fun _ => ?_))
      split <;> exact sections_pure _

theorem pollLoop_sections (config : RepricingConfig) (start turns : Nat) (legs : Legs) :
    Sectioned opportunity false (pollLoop opportunity config start turns legs) := by
  induction turns generalizing legs with
  | zero => exact sections_pure _
  | succ turns ih =>
    refine .ask ⟨trivial,fun _ => trivial⟩ (fun instant => ?_)
    split
    · refine .bind (pollOnce_sections _ _) (fun flow => ?_)
      cases flow with
      | next l => exact ih l
      | again l => exact ih l
      | stop l => exact sections_pure _
    · exact sections_pure _

theorem finalCheck_sections (legs : Legs) :
    Sectioned opportunity b (finalCheck opportunity legs) := by
  unfold finalCheck
  split
  · refine .ask (verifyLeg_outside _ _ _) (fun legs =>
      .ask (verifyLeg_outside _ _ _) (fun legs => ?_))
    split
    · exact .ask (cancelBoth_outside _) (fun _ => sections_throw _)
    · exact sections_pure _
  · exact sections_pure _

theorem completeHedge_sections (side : OrderSide) (quantity : ℚ) (legs : Legs) :
    Sectioned opportunity true (completeHedge opportunity side quantity legs) := by
  refine .ask ⟨trivial,fun _ => trivial⟩ (fun _ =>
    .ask ⟨trivial,fun _ => trivial⟩ (fun status => ?_))
  dsimp only
  split
  · exact sections_pure _
  · refine .ask (aggressiveLimit_outside _ _ _ _ _) (fun r => ?_)
    obtain ⟨totalFilled,other⟩ := r
    dsimp only
    split
    · exact sections_pure _
    · exact .ask ⟨trivial,fun _ => trivial⟩ (fun secs => marketHedge_sections _ _ _ _)

theorem finalHedge_sections (side : OrderSide) (legs : Legs) :
    Sectioned opportunity false (finalHedge opportunity side legs) := by
  unfold finalHedge
  split
  · exact .lock (.afterLoop _ _ _)
      (.bind (depthGate_sections _ _ _) (fun _ => completeHedge_sections _ _ _))
  · exact sections_pure _

theorem placeEntry_sections (quantity : ℚ) (secs : Nat) (cache : DepthCache) :
    Sectioned opportunity b (placeEntry opportunity quantity secs cache) := by
  refine .ask ⟨trivial,fun _ => trivial⟩ (fun long =>
    .ask ⟨trivial,fun _ => trivial⟩ (fun short => ?_))
  cases long with
  | error e => exact sections_throw _
  | ok longOrder =>
    cases short with
    | error e => exact .ask ⟨trivial,fun _ => trivial⟩ (fun _ => sections_throw _)
    | ok shortOrder => exact sections_pure _

theorem fillLegs_sections (legs : Legs) :
    Sectioned opportunity false (fillLegs opportunity legs) := by
  refine .ask ⟨trivial,fun _ => trivial⟩ (fun start => ?_)
  refine .bind (pollLoop_sections _ _ _ _) (fun legs =>
    .bind (finalCheck_sections _) (fun legs => ?_))
  refine .bind (finalHedge_sections _ _) (fun legs =>
    .bind (finalHedge_sections _ _) (fun legs => ?_))
  exact .bind (Sectioned.asks (failWhen_asks _ _)) (fun _ => sections_pure _)

theorem createTrade_outside (positionSize : ℚ) (entryTime : Nat) (legs : Legs) :
    (createTrade opportunity positionSize entryTime legs).Only Outside :=
  ⟨trivial,fun _ => ⟨trivial,fun _ =>
    ⟨trivial,fun _ => ⟨trivial,fun _ => ⟨trivial,fun _ => trivial⟩⟩⟩⟩⟩

theorem entry_sections (opportunity : ArbitrageOpportunity) (capital size : ℚ) :
    Sectioned opportunity false (executeAtomicEntryReal opportunity capital size) := by
  refine .bind (Sectioned.asks (prepareEntry_asks _ _ _)) (fun r => ?_)
  obtain ⟨quantity,secs,cache⟩ := r
  refine .bind (placeEntry_sections _ _ _) (fun legs =>
    .bind (fillLegs_sections _) (fun legs => ?_))
  exact .outside (Prog.Only.lift (createTrade_outside _ _ _))

end Entry

end SpreadArb.Proofs.Sections
