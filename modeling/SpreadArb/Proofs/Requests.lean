import SpreadArb.Proofs.Foreign

namespace SpreadArb.Proofs
open Interact

/-! What the two monitoring futures ask for. -/

theorem kept_setExiting (t : PaperTrade) : Kept t { t with status := .exiting } :=
  ⟨rfl,⟨rfl,rfl,rfl,rfl,rfl,rfl⟩,rfl,rfl,.inr rfl,fun h => h⟩

theorem kept_exitFor {reason : ExitReason} (hr : reason ≠ .placeholder) (spread : ℚ)
    (t : PaperTrade) : Kept t (exitFor reason spread t) :=
  ⟨rfl,⟨rfl,rfl,rfl,rfl,rfl,rfl⟩,rfl,rfl,.inr rfl,fun h => absurd (Option.some.inj h) hr⟩

theorem kept_exitOnce (condition : Bool) {reason : ExitReason} (hr : reason ≠ .placeholder)
    (spread : ℚ) (t : PaperTrade) : Kept t (exitOnce condition reason spread t) := by
  unfold exitOnce
  split
  · exact kept_exitFor hr spread t
  · exact .refl t

theorem kept_noteLegOut (ms : Nat) (longPrice shortPrice : ℚ) (t : PaperTrade) :
    Kept t (noteLegOut ms longPrice shortPrice t) := by
  unfold noteLegOut
  dsimp only
  split
  · exact ⟨rfl,⟨rfl,rfl,rfl,rfl,rfl,rfl⟩,rfl,rfl,.inl rfl,fun h => h⟩
  · exact .refl t

theorem tame_paperExit (info : PaperTrade) (ms : Nat) (longPrice shortPrice fundingDelta : ℚ) :
    Tame (paperExit info ms longPrice shortPrice fundingDelta) := by
  intro t
  unfold paperExit
  refine Kept.trans ?_ (kept_noteLegOut _ _ _ _)
  refine Kept.trans ?_ (kept_exitOnce _ (by simp) _ _)
  refine Kept.trans ?_ (kept_exitOnce _ (by simp) _ _)
  refine Kept.trans ?_ (kept_exitOnce _ (by simp) _ _)
  refine Kept.trans ?_ (kept_exitOnce _ (by simp) _ _)
  refine Kept.trans ?_ (kept_exitOnce _ (by simp) _ _)
  split
  · exact kept_exitFor (by simp) _ t
  · exact .refl t

/-- The backend requests of a pass. -/
def PassRequest : BackendOp → Prop
  | .placeOrder _ | .placeMarketOrder _ | .cancelOrder .. | .getOrderStatus ..
  | .getOrderStatusDetailed .. | .getOrderBookDepth .. | .getBestBid .. | .getBestAsk .. | .sleep _
  | .now => True
  | _ => False

/-- The requests of a pass over the trade `id`. -/
def Passing (id : TradeId) : RunnerOp → Prop
  | .backend (.monitor trade _) op => trade = id ∧ PassRequest op
  | .getMut trade f => trade = id ∧ Tame f
  | .find _ | .get _ | .quotes .. => True
  | _ => False

/-- The reasons that a pass over a real trade gives. -/
def OfMonitor : ExitReason → Prop
  | .placeholder | .negativeFundingExit | .manualExit => False
  | _ => True

/-- How a pass over a real trade marks the record, for the spread that it saw. -/
inductive Mark (spread : ℚ) : (PaperTrade → PaperTrade) → Prop
  | marked (reason : ExitReason) (h : OfMonitor reason) : Mark spread (exitFor reason spread)
  | stopLoss (longPrice shortPrice : ℚ) : Mark spread (fun t =>
      { t with
        stopLossTriggered := true
        status := .exiting
        exitReason := some (.stopLossTriggered longPrice shortPrice)
        exitSpreadBps := some spread })

/-- What it does to the record: after a partial exit the mark comes later. -/
inductive Change (spread : ℚ) : (PaperTrade → PaperTrade) → Prop
  | exiting : Change spread (fun t => { t with status := .exiting })
  | mark {f : PaperTrade → PaperTrade} (h : Mark spread f) : Change spread f

theorem Mark.tame {spread : ℚ} {f : PaperTrade → PaperTrade} (h : Mark spread f) : Tame f := by
  cases h with
  | marked reason h =>
    refine kept_exitFor (fun he => ?_) spread
    subst he
    exact h
  | stopLoss =>
    exact fun t => ⟨rfl,⟨rfl,rfl,rfl,rfl,rfl,rfl⟩,rfl,rfl,.inr rfl,fun h => by simp at h⟩

theorem Change.tame {spread : ℚ} {f : PaperTrade → PaperTrade} (h : Change spread f) : Tame f := by
  cases h with
  | exiting => exact kept_setExiting
  | mark h => exact h.tame

/-- The requests of a pass over a real trade that writes marks only. -/
def Marking (p : Pass) : RunnerOp → Prop
  | .backend (.monitor trade _) op => trade = p.trade ∧ PassRequest op
  | .getMut trade f => trade = p.trade ∧ Mark p.spreadBps f
  | .get _ => True
  | _ => False

/-- The requests of a pass over a real trade. -/
def Acting (p : Pass) : RunnerOp → Prop
  | .backend (.monitor trade _) op => trade = p.trade ∧ PassRequest op
  | .getMut trade f => trade = p.trade ∧ Change p.spreadBps f
  | .get _ => True
  | _ => False

theorem Marking.acting {p : Pass} {op : RunnerOp} (h : Marking p op) : Acting p op := by
  cases op with
  | getMut trade f => exact ⟨h.1,.mark h.2⟩
  | backend caller op => cases caller <;> exact h
  | get id => trivial
  | _ => cases h

theorem marking_acting {p : Pass} {x : Run α} (h : x.Only (Marking p)) : x.Only (Acting p) :=
  h.mono (fun _ h => h.acting)

section Pass

variable (branch : Branch) (p : Pass)

theorem passCall_marking {op : BackendOp} (h : PassRequest op) :
    (passCall branch p op).Only (Marking p) := ⟨⟨rfl,h⟩,fun _ => trivial⟩

theorem passSecs_marking : (passSecs branch p).Only (Marking p) :=
  ⟨⟨rfl,trivial⟩,fun _ => trivial⟩

theorem getTrade_marking (id : TradeId) : (getTrade id).Only (Marking p) :=
  ⟨trivial,fun _ => trivial⟩

theorem exitFilled_marking (leg : OrderSide) : (exitFilled branch p leg).Only (Marking p) := by
  unfold exitFilled
  split
  · trivial
  · refine .bind (passCall_marking branch p trivial) (fun r => ?_)
    split <;> trivial

theorem cancelAndRead_marking (leg : OrderSide) :
    (cancelAndRead branch p leg).Only (Marking p) := by
  unfold cancelAndRead
  split
  · trivial
  · refine .bind (passCall_marking branch p trivial) (fun _ => ?_)
    exact .bind (passCall_marking branch p trivial) (fun _ => trivial)

theorem bestClosePrice_marking (leg : OrderSide) :
    (bestClosePrice branch p leg).Only (Marking p) := by
  unfold bestClosePrice getBestHedgePrice
  cases leg <;> exact ⟨⟨rfl,trivial⟩,fun _ => trivial⟩

theorem tryLimit_marking (leg : OrderSide) (remaining filled : ℚ) :
    (tryLimit branch p leg remaining filled).Only (Marking p) := by
  refine .bind (bestClosePrice_marking branch p leg) (fun r => ?_)
  cases r with
  | error e => trivial
  | ok best =>
    refine .bind (passSecs_marking branch p) (fun secs => ?_)
    refine .bind (passCall_marking branch p trivial) (fun r => ?_)
    cases r with
    | error e => trivial
    | ok placed =>
      refine .bind (passCall_marking branch p trivial) (fun _ => ?_)
      refine .bind (passCall_marking branch p trivial) (fun _ => ?_)
      exact .bind (passCall_marking branch p trivial) (fun _ => trivial)

theorem marketClose_marking (leg : OrderSide) (size : ℚ) :
    (marketClose branch p leg size).Only (Marking p) :=
  .bind (passSecs_marking branch p) (fun _ => passCall_marking branch p trivial)

theorem closeRest_marking (leg : OrderSide) (remaining : ℚ) :
    (closeRest branch p leg remaining).Only (Marking p) := by
  unfold closeRest
  split
  · exact .bind (marketClose_marking branch p leg remaining) (fun _ => trivial)
  · trivial

theorem markExiting_marking {reason : ExitReason} (h : OfMonitor reason) :
    (markExiting p reason).Only (Marking p) :=
  ⟨⟨rfl,.marked reason h⟩,fun _ => trivial⟩

theorem setExiting_acting : (getMutTrade p.trade (fun t => { t with status := .exiting })).Only
    (Acting p) :=
  ⟨⟨rfl,.exiting⟩,fun _ => trivial⟩

theorem timeoutLimit_marking (leg : OrderSide) (quantity filled : ℚ) :
    (timeoutLimit p leg quantity filled).Only (Marking p) := by
  unfold timeoutLimit
  split
  · exact tryLimit_marking _ p _ _ _
  · trivial

theorem stopLossLimit_marking (leg : OrderSide) (quantity filled : ℚ) :
    (stopLossLimit p leg quantity filled).Only (Marking p) := by
  unfold stopLossLimit
  split
  · exact tryLimit_marking _ p _ _ _
  · trivial

theorem forceClose_marking (longQuantity shortQuantity : ℚ) :
    (forceClose p longQuantity shortQuantity).Only (Marking p) := by
  refine .bind (cancelAndRead_marking _ p _) (fun x => ?_)
  refine .bind (cancelAndRead_marking _ p _) (fun y => ?_)
  refine .bind (timeoutLimit_marking p _ _ _) (fun x => ?_)
  refine .bind (timeoutLimit_marking p _ _ _) (fun y => ?_)
  refine .bind (closeRest_marking _ p _ _) (fun _ => ?_)
  exact .bind (closeRest_marking _ p _ _) (fun _ => markExiting_marking p trivial)

theorem hedgeRest_marking (shortQuantity totalFilled : ℚ) :
    (hedgeRest p shortQuantity totalFilled).Only (Marking p) := by
  unfold hedgeRest
  split
  · exact markExiting_marking p trivial
  · refine .bind (marketClose_marking _ p _ _) (fun r => ?_)
    cases r with
    | error e => trivial
    | ok o => exact markExiting_marking p trivial

theorem smartLimit_marking (price remaining totalFilled : ℚ) :
    (smartLimit p price remaining totalFilled).Only (Marking p) := by
  refine .bind (passSecs_marking _ p) (fun secs => ?_)
  refine .bind (passCall_marking _ p trivial) (fun r => ?_)
  cases r with
  | error e => trivial
  | ok placed =>
    refine .bind (passCall_marking _ p trivial) (fun _ => ?_)
    refine .bind (passCall_marking _ p trivial) (fun r => ?_)
    cases r with
    | error e => exact .bind (passCall_marking _ p trivial) (fun _ => trivial)
    | ok info =>
      dsimp only
      split
      · exact .bind (markExiting_marking p trivial) (fun _ => trivial)
      · exact .bind (passCall_marking _ p trivial) (fun _ => trivial)

theorem hedgeShortExit_acting : (hedgeShortExit p).Only (Acting p) := by
  refine .bind (setExiting_acting p) (fun _ => marking_acting ?_)
  refine .bind (getTrade_marking p _) (fun r => ?_)
  cases r with
  | none => trivial
  | some trade =>
    refine .bind (cancelAndRead_marking _ p _) (fun total => ?_)
    dsimp only
    split
    · exact markExiting_marking p trivial
    · refine .bind (passCall_marking _ p trivial) (fun r => ?_)
      cases r with
      | error e => exact hedgeRest_marking p _ _
      | ok book =>
        dsimp only
        split
        · refine .bind (smartLimit_marking p _ _ _) (fun r => ?_)
          cases r with
          | none => trivial
          | some total => exact hedgeRest_marking p _ _
        · exact hedgeRest_marking p _ _

theorem instantHedge_marking (longQuantity : ℚ) :
    (instantHedge p longQuantity).Only (Marking p) := by
  refine .bind (marketClose_marking _ p _ _) (fun r => ?_)
  cases r with
  | error e => trivial
  | ok o => exact markExiting_marking p trivial

theorem intelligentLimit_marking (price longQuantity : ℚ) (wait : Nat) :
    (intelligentLimit p price longQuantity wait).Only (Marking p) := by
  refine .bind (passSecs_marking _ p) (fun secs => ?_)
  refine .bind (passCall_marking _ p trivial) (fun r => ?_)
  cases r with
  | error e => exact instantHedge_marking p _
  | ok placed =>
    refine .bind (passCall_marking _ p trivial) (fun _ => ?_)
    refine .bind (passCall_marking _ p trivial) (fun r => ?_)
    cases r with
    | error e => exact .bind (passCall_marking _ p trivial) (fun _ => instantHedge_marking p _)
    | ok info =>
      dsimp only
      split
      · exact markExiting_marking p trivial
      · split
        · refine .bind (passCall_marking _ p trivial) (fun _ => ?_)
          exact .bind (marketClose_marking _ p _ _) (fun _ => markExiting_marking p trivial)
        · exact .bind (passCall_marking _ p trivial) (fun _ => instantHedge_marking p _)

theorem cancelLongExit_marking : (cancelLongExit p).Only (Marking p) := by
  unfold cancelLongExit
  split
  · trivial
  · exact .bind (passCall_marking _ p trivial) (fun _ => trivial)

theorem hedgeLongExit_acting : (hedgeLongExit p).Only (Acting p) := by
  refine .bind (setExiting_acting p) (fun _ => marking_acting ?_)
  refine .bind (getTrade_marking p _) (fun r => ?_)
  cases r with
  | none => trivial
  | some trade =>
    refine .bind (cancelLongExit_marking p) (fun _ => ?_)
    refine .bind (passCall_marking _ p trivial) (fun r => ?_)
    cases r with
    | error e => exact .bind (marketClose_marking _ p _ _) (fun _ => markExiting_marking p trivial)
    | ok book =>
      dsimp only
      split
      · exact intelligentLimit_marking p _ _ _
      · exact instantHedge_marking p _

theorem stopLossClose_marking (longQuantity shortQuantity longFilled shortFilled : ℚ) :
    (stopLossClose p longQuantity shortQuantity longFilled shortFilled).Only (Marking p) := by
  unfold stopLossClose
  split
  · trivial
  · refine .bind (stopLossLimit_marking p _ _ _) (fun x => ?_)
    refine .bind (stopLossLimit_marking p _ _ _) (fun y => ?_)
    split
    · trivial
    · exact .bind (closeRest_marking _ p _ _) (fun _ => closeRest_marking _ p _ _)

theorem stopLossExit_marking : (stopLossExit p).Only (Marking p) := by
  refine .bind (getTrade_marking p _) (fun r => ?_)
  cases r with
  | none => trivial
  | some trade =>
    refine .bind (cancelAndRead_marking _ p _) (fun x => ?_)
    refine .bind (cancelAndRead_marking _ p _) (fun y => ?_)
    exact .bind ⟨⟨rfl,.stopLoss _ _⟩,fun _ => trivial⟩ (fun _ => stopLossClose_marking p _ _ _ _)

theorem checkTimeout_marking : (checkTimeout p).Only (Marking p) := by
  refine .bind (passSecs_marking _ p) (fun now => ?_)
  refine .bind (getTrade_marking p _) (fun r => ?_)
  cases r with
  | none => trivial
  | some trade =>
    dsimp only
    split
    · refine .bind (getTrade_marking p _) (fun r => ?_)
      cases r <;> trivial
    · trivial

theorem monitorReal_acting (info : PaperTrade) : (monitorReal info p).Only (Acting p) := by
  refine .bind (marking_acting (exitFilled_marking _ p _)) (fun x => ?_)
  refine .bind (marking_acting (exitFilled_marking _ p _)) (fun y => ?_)
  cases x <;> cases y
  · refine .bind (marking_acting (checkTimeout_marking p)) (fun r => ?_)
    cases r with
    | gone => trivial
    | timedOut trade => exact marking_acting (forceClose_marking p _ _)
    | young =>
      dsimp only
      split
      · exact marking_acting (stopLossExit_marking p)
      · trivial
  · exact hedgeLongExit_acting p
  · exact hedgeShortExit_acting p
  · exact marking_acting (markExiting_marking p trivial)

end Pass

/-- What a pass does to the record of a trade. -/
inductive Writes : (PaperTrade → PaperTrade) → Prop
  | real {spread : ℚ} {f : PaperTrade → PaperTrade} (h : Change spread f) : Writes f
  | paper (info : PaperTrade) (ms : Nat) (longPrice shortPrice fundingDelta : ℚ) :
    Writes (paperExit info ms longPrice shortPrice fundingDelta)

theorem Writes.tame {f : PaperTrade → PaperTrade} (h : Writes f) : Tame f := by
  cases h with
  | real h => exact h.tame
  | paper => exact tame_paperExit _ _ _ _ _

/-- The requests of a pass over the trade `id`, with what it may write. -/
def Handling (id : TradeId) : RunnerOp → Prop
  | .backend (.monitor trade _) op => trade = id ∧ PassRequest op
  | .getMut trade f => trade = id ∧ Writes f
  | .find _ | .get _ | .quotes .. => True
  | _ => False

theorem Acting.handling {p : Pass} {op : RunnerOp} (h : Acting p op) : Handling p.trade op := by
  cases op with
  | getMut trade f => exact ⟨h.1,.real h.2⟩
  | backend caller op => cases caller <;> exact h
  | get id => trivial
  | _ => cases h

theorem Handling.passing {id : TradeId} {op : RunnerOp} (h : Handling id op) : Passing id op := by
  cases op with
  | getMut trade f => exact ⟨h.1,h.2.tame⟩
  | backend caller op => cases caller <;> exact h
  | find | get | quotes => trivial
  | _ => cases h

theorem Acting.passing {p : Pass} {op : RunnerOp} (h : Acting p op) : Passing p.trade op :=
  h.handling.passing

theorem getTrade_handling (id : TradeId) {trade : TradeId} : (getTrade id).Only (Handling trade) :=
  ⟨trivial,fun _ => trivial⟩

theorem getPricesFromStore_handling (pair long short : String) {id : TradeId} :
    (getPricesFromStore pair long short).Only (Handling id) := by
  refine .bind ⟨trivial,fun _ => trivial⟩ (fun r => ?_)
  split
  · trivial
  · trivial
  · split <;> trivial

theorem getCurrentPrices_handling (pair : String) {id : TradeId} :
    (getCurrentPrices pair).Only (Handling id) := by
  refine .bind ⟨trivial,fun _ => trivial⟩ (fun r => ?_)
  cases r with
  | none => trivial
  | some trade => exact getPricesFromStore_handling _ _ _

theorem monitorPaper_handling (id : TradeId) (info : PaperTrade) :
    (monitorPaper id info).Only (Handling id) := by
  refine .bind (getCurrentPrices_handling _) (fun r => ?_)
  cases r with
  | error e => trivial
  | ok prices =>
    refine .bind (getTrade_handling _) (fun r => ?_)
    refine .bind ⟨⟨rfl,trivial⟩,fun _ => trivial⟩ (fun ms => ?_)
    exact .bind ⟨⟨rfl,.paper _ _ _ _ _⟩,fun _ => trivial⟩ (fun _ => trivial)

/-- A pass makes no other requests than those of its trade. -/
theorem monitorTrade_handling (real : Bool) (id : TradeId) :
    (monitorTrade real id).Only (Handling id) := by
  refine .bind (getTrade_handling _) (fun r => ?_)
  cases r with
  | none => trivial
  | some info =>
    refine .bind (getCurrentPrices_handling _) (fun r => ?_)
    cases r with
    | error e => trivial
    | ok prices =>
      dsimp only
      split
      · refine .bind (getTrade_handling _) (fun r => ?_)
        cases r with
        | none => trivial
        | some trade =>
          have hacting := monitorReal_acting (passOver id info trade prices.1 prices.2) info
          exact .bind (hacting.mono (fun _ h => h.handling)) (fun _ => trivial)
      · exact monitorPaper_handling id info

/-- The requests of the monitor, with what it may write. -/
def Rounds : RunnerOp → Prop
  | .monitoring _ | .tradeIds | .backendName => True
  | op => ∃ id, Handling id op

theorem monitorPass_rounds (real : Bool) (id : TradeId) : (monitorPass real id).Only Rounds := by
  refine .bind ⟨trivial,fun _ => trivial⟩ (fun _ => ?_)
  refine .bind ((monitorTrade_handling real id).mono (fun op h => ?_)) (fun r => ?_)
  · cases op <;> first | exact ⟨id,h⟩ | cases h
  · exact ⟨trivial,fun _ => trivial⟩

theorem monitorTrades_rounds (real : Bool) (ids : List TradeId) :
    (monitorTrades real ids).Only Rounds := by
  induction ids with
  | nil => trivial
  | cons id ids ih =>
    refine .bind (monitorPass_rounds real id) (fun r => ?_)
    cases r with
    | error e => trivial
    | ok u => exact ih

theorem monitorActivePositions_rounds : monitorActivePositions.Only Rounds :=
  .bind ⟨trivial,fun _ => trivial⟩ (fun ids => .bind ⟨trivial,fun _ => trivial⟩ (fun real =>
    monitorTrades_rounds real ids))

/-- The requests of the monitor. -/
def Monitoring : RunnerOp → Prop
  | .monitoring _ | .tradeIds | .backendName => True
  | op => ∃ id, Passing id op

theorem Rounds.monitoring {op : RunnerOp} (h : Rounds op) : Monitoring op := by
  cases op <;> first | exact h | exact h.imp (fun _ h => h.passing)

theorem monitorActivePositions_monitoring : monitorActivePositions.Only Monitoring :=
  monitorActivePositions_rounds.mono (fun _ h => h.monitoring)

/-- The requests of the exit check. -/
def Checking : RunnerOp → Prop
  | .backend (.cleanup _) (.cancelOrder ..) => True
  | .getMut _ f => Tame f
  | .tradeIds | .get _ | .hold _ | .release _ | .remove _ | .tracker _ | .trackerMut ..
  | .getFundingRates _ | .closeTrade .. => True
  | _ => False

/-- The requests of the clean-up of the exit orders. -/
def Cleaning : RunnerOp → Prop
  | .backend (.cleanup _) (.cancelOrder ..) => True
  | _ => False

theorem cleanupExit_cleaning (id : TradeId) (exchange : String) (order : Option SimulatedOrder) :
    (cleanupExit id exchange order).Only Cleaning := by
  cases order with
  | none => trivial
  | some o =>
    unfold cleanupExit
    dsimp only
    split
    · exact ⟨trivial,fun _ => trivial⟩
    · trivial

/-- The requests with which an exiting trade is closed. -/
def Settling : RunnerOp → Prop
  | .hold _ | .release _ | .remove _ | .trackerMut .. | .closeTrade .. => True
  | op => Cleaning op

theorem Cleaning.settling {op : RunnerOp} (h : Cleaning op) : Settling op := by
  cases op <;> first | exact h | cases h

theorem closeExiting_settling (id : TradeId) (symbol : String) :
    (closeExiting id symbol).Only Settling := by
  refine .bind ⟨trivial,fun _ => trivial⟩ (fun r => ?_)
  cases r with
  | none => trivial
  | some trade =>
    refine .bind ((cleanupExit_cleaning _ _ _).mono (fun _ => Cleaning.settling)) (fun _ => ?_)
    refine .bind ((cleanupExit_cleaning _ _ _).mono (fun _ => Cleaning.settling)) (fun _ => ?_)
    refine .bind ⟨trivial,fun _ => trivial⟩ (fun r => ?_)
    cases r with
    | error e => exact ⟨trivial,fun _ => trivial⟩
    | ok u => exact ⟨trivial,fun _ => ⟨trivial,fun _ => ⟨trivial,fun _ => trivial⟩⟩⟩

theorem Settling.checking {op : RunnerOp} (h : Settling op) : Checking op := by
  cases op with
  | backend caller op => cases caller <;> cases op <;> trivial
  | hold | release | remove | trackerMut | closeTrade => trivial
  | _ => cases h

/-- The requests of the negative funding check. -/
def Watching : RunnerOp → Prop
  | .getMut _ f => Tame f
  | .get _ | .tracker _ | .trackerMut .. | .getFundingRates _ => True
  | _ => False

theorem checkNegativeFunding_watching (id : TradeId) (symbol : String) :
    (checkNegativeFunding id symbol).Only Watching := by
  refine .bind ⟨trivial,fun _ => trivial⟩ (fun tracker => ?_)
  split
  · refine .bind ⟨trivial,fun _ => trivial⟩ (fun rates => ?_)
    cases rates with
    | none => trivial
    | some rates =>
      refine .bind ⟨trivial,fun _ => trivial⟩ (fun _ => ?_)
      refine .bind ⟨?_,fun _ => trivial⟩ (fun _ => trivial)
      exact fun t => ⟨rfl,⟨rfl,rfl,rfl,rfl,rfl,rfl⟩,rfl,rfl,.inr rfl,fun h => by simp at h⟩
  · trivial

theorem Watching.checking {op : RunnerOp} (h : Watching op) : Checking op := by
  cases op <;> first | exact h | cases h

theorem checkExit_checking (id : TradeId) : (checkExit id).Only Checking := by
  refine .bind ⟨trivial,fun _ => trivial⟩ (fun r => ?_)
  cases r with
  | none => trivial
  | some trade =>
    refine .bind ((checkNegativeFunding_watching _ _).mono (fun _ => Watching.checking))
      (fun go => ?_)
    cases go with
    | false => trivial
    | true =>
      refine .bind ⟨trivial,fun _ => trivial⟩ (fun r => ?_)
      cases r with
      | none => trivial
      | some found =>
        dsimp only
        split
        · exact (closeExiting_settling _ _).mono (fun _ => Settling.checking)
        · trivial

theorem checkExitsOf_checking (ids : List TradeId) : (checkExitsOf ids).Only Checking := by
  induction ids with
  | nil => trivial
  | cons id ids ih =>
    refine .bind (checkExit_checking id) (fun r => ?_)
    cases r with
    | error e => trivial
    | ok u => exact ih

theorem checkExits_checking : checkExits.Only Checking :=
  .bind ⟨trivial,fun _ => trivial⟩ checkExitsOf_checking

/-- A trade as an entry puts it into the map. -/
structure Fresh (t : PaperTrade) : Prop where
  status : t.status = .active
  reason : t.exitReason = none ∨ t.exitReason = some .placeholder
  spread : t.exitSpreadBps = none
  legOut : t.legOutEvent = none

theorem createTrade_fresh (opportunity : ArbitrageOpportunity) (size : ℚ) (secs : Nat)
    (legs : Legs) : (createTrade opportunity size secs legs).Returns Fresh := by
  unfold createTrade
  refine .bind (Prog.returns_true _) (fun _ _ => ?_)
  refine .bind (Prog.returns_true _) (fun _ _ => ?_)
  refine .bind (Prog.returns_true _) (fun _ _ => ?_)
  refine .bind (Prog.returns_true _) (fun _ _ => ?_)
  exact .bind (Prog.returns_true _) (fun _ _ => ⟨rfl,.inl rfl,rfl,rfl⟩)

theorem entryReal_fresh (opportunity : ArbitrageOpportunity) (capital size : ℚ) :
    Prog.Gives Fresh (executeAtomicEntryReal opportunity capital size) :=
  .bind _ (fun _ => .bind _ (fun _ => .bind _ (fun _ => .lift (createTrade_fresh _ _ _ _))))

theorem entryPaper_fresh (opportunity : ArbitrageOpportunity) (capital size : ℚ) :
    Prog.Gives Fresh (executeAtomicEntry opportunity capital size) := by
  unfold executeAtomicEntry
  refine .bind _ (fun _ =>
    .bind _ (fun _ => .bind _ (fun _ => .bind _ (fun _ => .bind _ (fun _ => ?_)))))
  refine .bind _ (fun legs => ?_)
  refine .bind _ (fun _ => ?_)
  intro t ht
  cases ht
  exact ⟨rfl,.inl rfl,rfl,rfl⟩

/-- The requests of an entry, with the trades it brings. -/
def Opening : RunnerOp → Prop
  | .backend .entry _ | .find _ | .quotes .. | .remove _ | .getAvailableCapital
  | .getStartingCapital
  | .backendName => True
  | .insert t | .openTrade t => Fresh t
  | _ => False

theorem onBackend_opening (p : Prog backend α) : (onBackend .entry p).Only Opening :=
  Prog.Only.embed (K := fun _ => True) (fun _ _ => trivial) (Machine.only_true p)

theorem enterTrade_opening (opportunity : ArbitrageOpportunity) (placeholder : TradeId)
    (capital size spread fee : ℚ) :
    (enterTrade opportunity placeholder capital size spread fee).Only Opening := by
  refine .bind ⟨trivial,fun _ => trivial⟩ (fun real => ?_)
  have hfresh : Prog.Gives Fresh (if real then executeAtomicEntryReal opportunity capital size
      else executeAtomicEntry opportunity capital size) := by
    cases real
    · exact entryPaper_fresh _ _ _
    · exact entryReal_fresh _ _ _
  refine .bind_returns (onBackend_opening _) (.embed hfresh) (fun r hr => ?_)
  cases r with
  | error e => exact ⟨trivial,fun _ => trivial⟩
  | ok trade =>
    obtain ⟨hs,hreason,hspread,hlegOut⟩ := hr trade rfl
    exact ⟨trivial,fun _ => ⟨⟨hs,hreason,hspread,hlegOut⟩,fun _ =>
      ⟨⟨hs,hreason,hspread,hlegOut⟩,fun _ => trivial⟩⟩⟩

theorem enterIfSound_opening (opportunity : ArbitrageOpportunity) (placeholder : TradeId) :
    (enterIfSound opportunity placeholder).Only Opening := by
  have hprices : (getPricesFromStore opportunity.symbol opportunity.longExchange
      opportunity.shortExchange).Only Opening := by
    refine .bind ⟨trivial,fun _ => trivial⟩ (fun r => ?_)
    split
    · trivial
    · trivial
    · split <;> trivial
  refine .bind hprices (fun r => ?_)
  cases r with
  | error e => exact ⟨trivial,fun _ => trivial⟩
  | ok prices =>
    dsimp only
    split
    · exact ⟨trivial,fun _ => trivial⟩
    · refine .bind ⟨trivial,fun _ => trivial⟩ (fun available => ?_)
      split
      · exact ⟨trivial,fun _ => trivial⟩
      · refine .bind ⟨trivial,fun _ => trivial⟩ (fun starting => ?_)
        split
        · exact ⟨trivial,fun _ => trivial⟩
        · exact enterTrade_opening _ _ _ _ _ _

theorem executeOpportunity_opening (opportunity : ArbitrageOpportunity) :
    (executeOpportunity opportunity).Only Opening := by
  refine .bind ⟨trivial,fun _ => trivial⟩ (fun r => ?_)
  cases r with
  | some t => trivial
  | none =>
    refine .bind ⟨trivial,fun _ => trivial⟩ (fun placeholder => ?_)
    exact .bind ⟨⟨rfl,.inr rfl,rfl,rfl⟩,fun _ => trivial⟩ (fun _ => enterIfSound_opening _ _)

/-- The requests of an entry. -/
def Entering : RunnerOp → Prop
  | .backend .entry _ | .find _ | .quotes .. | .insert _ | .remove _ | .getAvailableCapital
  | .getStartingCapital | .openTrade _ | .backendName => True
  | _ => False

theorem Opening.entering {op : RunnerOp} (h : Opening op) : Entering op := by
  cases op with
  | backend caller op => cases caller <;> exact h
  | insert | openTrade => trivial
  | _ => exact h

theorem executeOpportunity_entering (opportunity : ArbitrageOpportunity) :
    (executeOpportunity opportunity).Only Entering :=
  (executeOpportunity_opening opportunity).mono (fun _ h => h.entering)

/-- The trade is exiting, or no longer in the map. -/
def Exits (id : TradeId) (s : Runner) : Prop := ∀ t, s.lookup id = some t → t.status = .exiting

theorem exits_update {id i : TradeId} {s : Runner} {f : PaperTrade → PaperTrade} (hf : Tame f)
    (h : Exits id s) : Exits id (s.update i f) := by
  intro t' ht'
  rw [lookup_update (fun t => (hf t).id_eq)] at ht'
  obtain ⟨t,ht,he⟩ := Option.map_eq_some_iff.mp ht'
  split at he
  · exact he ▸ (hf t).exiting (h t ht)
  · exact he ▸ h t ht

theorem exits_erase {id i : TradeId} {s : Runner} (h : Exits id s) : Exits id (s.erase i) := by
  intro t ht
  rw [lookup_erase] at ht
  split at ht
  · cases ht
  · exact h t ht

/-- Neither future takes a trade back from its exit. -/
theorem exits_serve (env : Surroundings) {op : RunnerOp} (hk : Monitoring op ∨ Checking op)
    {id : TradeId} {s : Runner} (h : Exits id s) : Exits id ((runner env).serve op s).2 := by
  cases op with
  | getMut i f =>
    refine exits_update ?_ h
    rcases hk with ⟨_,_,hf⟩ | hf <;> exact hf
  | remove i => exact exits_erase h
  | hold i =>
    simp only [runner]
    split <;> exact h
  | closeTrade i profit reason =>
    simp only [runner]
    split <;> exact h
  | insert t => rcases hk with ⟨_,hk⟩ | hk <;> cases hk
  | openTrade t => rcases hk with ⟨_,hk⟩ | hk <;> cases hk
  | _ => exact h

section Loop

variable {W : Type} {m : Machine runnerSig W} {C : W → RunnerOp → Prop} {G : W →
  RunnerOp → W → Prop}

/-- What the turns of the loop keep, the loop keeps. -/
theorem wpr_loop {I : W → Prop} (inputs : Nat → Input)
    (h : ∀ input s, I s → m.wpr (· = ·) C G (scanOnce input) (fun _ v => I v) s) (n : Nat)
    {s : W} (hs : I s) :
    m.wpr (· = ·) C G (runScanningLoop inputs n) (fun _ v => I v) s := by
  induction n with
  | zero => exact hs
  | succ n ih => exact Machine.wpr_bind.mpr (Machine.wpr_mono ih (fun _ v hv => h (inputs n) v hv))

/-- A turn keeps what its parts keep. -/
theorem wpr_scanOnce {I : W → Prop} (input : Input)
    (hresume : ∀ s, I s → m.wpr (· = ·) C G
      (Prog.call (σ := runnerSig) .resumeTrading .ret) (fun _ v => I v) s)
    (hexec : ∀ opportunity s, I s → m.wpr (· = ·) C G (executeOpportunity opportunity)
      (fun _ v => I v) s)
    (hsleep : ∀ s, I s → m.wpr (· = ·) C G (backendCall .entry (.sleep 0))
      (fun _ v => I v) s)
    (hjoin : ∀ schedule s, I s → m.wpr (· = ·) C G (joinMonitors schedule)
      (fun _ v => I v) s) {s : W} (hs : I s) :
    m.wpr (· = ·) C G (scanOnce input) (fun _ v => I v) s := by
  have htail : ∀ s, I s → m.wpr (· = ·) C G (do
      let _ ← backendCall .entry (.sleep 0)
      let _ ← joinMonitors input.schedule
      pure ()) (fun _ v => I v) s := fun s hs =>
    Machine.wpr_bind.mpr (Machine.wpr_mono (hsleep s hs) (fun _ v hv =>
      Machine.wpr_bind.mpr (Machine.wpr_mono (hjoin _ v hv) (fun _ u hu => hu))))
  unfold scanOnce
  cases input.opportunity with
  | none =>
    cases input.resume with
    | false => exact htail s hs
    | true =>
      exact Machine.wpr_bind.mpr (Machine.wpr_mono (hresume s hs) (fun _ v hv => htail v hv))
  | some o =>
    have hmain : ∀ s, I s → m.wpr (· = ·) C G (do
        let _ ← executeOpportunity o
        let _ ← backendCall .entry (.sleep 0)
        let _ ← joinMonitors input.schedule
        pure ()) (fun _ v => I v) s := fun s hs =>
      Machine.wpr_bind.mpr (Machine.wpr_mono (hexec o s hs) (fun _ u hu => htail u hu))
    cases input.resume with
    | false => exact hmain s hs
    | true =>
      exact Machine.wpr_bind.mpr (Machine.wpr_mono (hresume s hs) (fun _ v hv => hmain v hv))

end Loop

end SpreadArb.Proofs
