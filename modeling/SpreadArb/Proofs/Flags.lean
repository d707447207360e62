import SpreadArb.Proofs.Frame

namespace SpreadArb.Proofs.Flags
open Interact

/-- The error of the branch that should not be reached is not among the outcomes. -/
def Outcome (Q : α → Prop) : Except EntryError α → Prop
  | .ok a => Q a
  | .error e => e ≠ .oneLegUnhedged

/-- Whatever the backend answers, `Q` holds of what the entry goes on with. -/
def Gives (Q : α → Prop) (x : Entry α) : Prop :=
  Prog.Returns (Outcome Q) (x : Prog backend (Except EntryError α))

section Rules

variable {Q R : α → Prop}

theorem gives_pure {a : α} (h : Q a) : Gives Q (pure a) := h

theorem gives_throw {e : EntryError} (h : e ≠ .oneLegUnhedged) : Gives Q (throw e) := h

theorem Gives.mono {x : Entry α} (hx : Gives R x) (h : ∀ a, R a → Q a) : Gives Q x := by
  refine Prog.Returns.mono (fun r hr => ?_) hx
  cases r with
  | ok a => exact h a hr
  | error e => exact hr

theorem Gives.bind {P : β → Prop} {x : Entry α} {f : α → Entry β} (hx : Gives Q x)
    (hf : ∀ a, Q a → Gives P (f a)) : Gives P (x >>= f) := by
  refine Prog.Returns.bind hx (fun r hr => ?_)
  cases r with
  | ok a => exact hf a hr
  | error e => exact hr

/-- A program that cannot fail. -/
theorem Gives.ask {P : β → Prop} {p : Prog backend α} {f : α → Entry β} (hp : p.Returns Q)
    (hf : ∀ a, Q a → Gives P (f a)) : Gives P (liftM p >>= f) :=
  .bind (Prog.Returns.bind hp (fun _ h => h)) hf

/-- A program whose answer does not matter. -/
theorem Gives.any {P : β → Prop} {p : Prog backend α} {f : α → Entry β} (hf : ∀ a, Gives P (f a)) :
    Gives P (liftM p >>= f) :=
  .ask (Prog.returns_true p) (fun a _ => hf a)

end Rules

section Legs

/-- Both legs are filled, or neither is. -/
def Even (legs : Legs) : Prop := legs.long.filled = legs.short.filled

/-- The flags are those of the legs before. -/
def SameFlags (legs legs' : Legs) : Prop := ∀ side, (legs'.leg side).filled = (legs.leg side).filled

theorem SameFlags.refl (legs : Legs) : SameFlags legs legs := fun _ => rfl

theorem SameFlags.even {legs legs' : Legs} (h : SameFlags legs legs') (he : Even legs) :
    Even legs' :=
  (h .long).trans (he.trans (h .short).symm)

theorem leg_set (legs : Legs) (side side' : OrderSide) (leg : Leg) :
    (legs.set side leg).leg side' = if side' = side then leg else legs.leg side' := by
  cases side <;> cases side' <;> rfl

theorem sameFlags_set {legs : Legs} {side : OrderSide} {leg : Leg}
    (h : leg.filled = (legs.leg side).filled) : SameFlags legs (legs.set side leg) := by
  intro side'
  rw [leg_set]
  split
  · next he => rw [he,h]
  · rfl

theorem even_of_both {legs : Legs} (h : ∀ side, (legs.leg side).filled = true) : Even legs :=
  (h .long).trans (h .short).symm

/-- A filled leg, and the other one is filled now. -/
theorem both_set {legs : Legs} {side : OrderSide} {leg : Leg} (h : (legs.leg side).filled = true)
    (hl : leg.filled = true) : ∀ side', ((legs.set side.opposite leg).leg side').filled = true := by
  intro side'
  rw [leg_set]
  split
  · exact hl
  · next hne =>
    have hs : side' = side := by cases side <;> cases side' <;> first | rfl | exact absurd rfl hne
    rw [hs,h]

theorem chaseLeg_flags (config : RepricingConfig) (side : OrderSide) (legs : Legs) :
    (chaseLeg config side legs).Returns (SameFlags legs) := by
  unfold chaseLeg
  dsimp only
  split
  · refine Prog.Returns.bind (Prog.returns_true _) (fun best _ => ?_)
    cases best with
    | error e => exact .refl legs
    | ok best =>
      dsimp only
      split
      · refine Prog.Returns.bind (Prog.returns_true _) (fun r _ => ?_)
        cases r with
        | error e => exact .refl legs
        | ok placed => exact sameFlags_set rfl
      · exact .refl legs
  · exact .refl legs

theorem balanceLeg_flags (opportunity : ArbitrageOpportunity) (side : OrderSide) (diff target : ℚ)
    (legs : Legs) : (balanceLeg opportunity side diff target legs).Returns (SameFlags legs) := by
  refine Prog.Returns.bind (Prog.returns_true _) (fun secs _ r => ?_)
  cases r with
  | error e => exact .refl legs
  | ok placed => exact sameFlags_set rfl

theorem balanceLegs_flags (opportunity : ArbitrageOpportunity) (longQty shortQty : ℚ)
    (legs : Legs) : (balanceLegs opportunity longQty shortQty legs).Returns (SameFlags legs) := by
  unfold balanceLegs
  split
  · split
    · exact balanceLeg_flags _ _ _ _ _
    · exact balanceLeg_flags _ _ _ _ _
  · exact .refl legs

variable {opportunity : ArbitrageOpportunity}

theorem depthGate_flags (side : OrderSide) (quantity : ℚ) (legs : Legs) :
    Gives (SameFlags legs) (depthGate opportunity side quantity legs) := by
  refine .any (fun r => ?_)
  obtain ⟨result,cache⟩ := r
  have hcache : SameFlags legs { legs with cache } := by
    intro side
    cases side <;> rfl
  cases result with
  | error e => exact hcache
  | ok depth =>
    dsimp only
    split
    · refine .any (fun r => ?_)
      cases r <;> exact gives_throw EntryError.noConfusion
    · exact hcache

theorem marketHedge_flags (template : SimulatedOrder) {side : OrderSide} (quantity : ℚ)
    {legs : Legs} (h : (legs.leg side).filled = true) :
    Gives (fun legs' => ∀ side', (legs'.leg side').filled = true)
      (marketHedge template side quantity legs) := by
  refine .any (fun r => ?_)
  cases r with
  | ok placed => exact gives_pure (both_set h rfl)
  | error e =>
    refine .any (fun r => ?_)
    cases r <;> exact gives_throw EntryError.noConfusion

/-- The legs that a turn goes on with. -/
def legsOf : Flow → Legs
  | .next legs | .again legs | .stop legs => legs

theorem withHedgeLock_flags {Q : α → Prop} (symbol : String) {body : Entry α} (h : Gives Q body) :
    Gives Q (withHedgeLock symbol body) := by
  refine Prog.Returns.bind (Prog.returns_true _) (fun r _ => ?_)
  cases r with
  | error e => exact EntryError.noConfusion
  | ok u => exact Prog.Returns.bind h (fun result hr _ => hr)

/-- Both legs are filled after a hedge in the loop. -/
theorem hedgeInLoop_flags {side : OrderSide} (quantity : ℚ) {legs : Legs}
    (h : (legs.leg side).filled = true) :
    Gives (fun flow => ∀ side', ((legsOf flow).leg side').filled = true)
      (hedgeInLoop opportunity side quantity legs) := by
  refine .any (fun r => ?_)
  have hhedge : Gives (fun flow => ∀ side', ((legsOf flow).leg side').filled = true) (do
      let legs ← depthGate opportunity side quantity legs
      let secs ← nowSecs
      let other := (legs.leg side.opposite).order
      let _ ← Backend.cancelOrder other.exchange other.id
      let legs ← marketHedge (marketTemplate opportunity side.opposite quantity secs) side
          quantity legs
      pure (.next legs) : Entry Flow) := by
    refine .bind (depthGate_flags _ _ _) (fun legs' hl => .any (fun secs => .any (fun _ => ?_)))
    exact .bind (marketHedge_flags _ _ ((hl side).trans h)) (fun legs'' hboth => gives_pure hboth)
  cases r with
  | error e => exact hhedge
  | ok status =>
    cases status with
    | bothFilled long short =>
      refine .ask (balanceLegs_flags _ _ _ _) (fun legs' hl => .any (fun secs => gives_pure ?_))
      exact both_set ((hl side).trans h) rfl
    | _ => exact hhedge

/-- The check of one leg leaves both flags as they are, or sets both. -/
theorem pollLeg_flags (side : OrderSide) {legs : Legs} (h : Even legs) :
    Gives (fun flow => Even (legsOf flow)) (pollLeg opportunity side legs) := by
  unfold pollLeg
  dsimp only
  split
  · exact gives_pure h
  · next hnot =>
    refine .any (fun r => ?_)
    cases r with
    | error e => exact gives_pure h
    | ok info =>
      dsimp only
      split
      · refine .any (fun secs => ?_)
        split
        · next hother =>
          -- the other leg would be filled already, and with it this one
          rw [leg_set,if_neg (by cases side <;> simp [OrderSide.opposite])] at hother
          have hthis : (legs.leg side).filled = true := by
            cases side with
            | long => exact h.trans hother
            | short => exact h.symm.trans hother
          exact absurd hthis hnot
        · refine withHedgeLock_flags _ ?_
          refine (hedgeInLoop_flags _ ?_).mono (fun flow hboth => even_of_both hboth)
          rw [leg_set,if_pos rfl]
          rfl
      split
      · exact gives_pure h
      split <;> exact gives_pure h

theorem checkSpread_flags (config : RepricingConfig) (legs : Legs) :
    Gives (fun _ => True) (checkSpread opportunity config legs) := by
  unfold checkSpread
  dsimp only
  split
  · exact .any (fun _ => gives_throw EntryError.noConfusion)
  · exact gives_pure trivial

theorem checkReprices_flags (config : RepricingConfig) (side : OrderSide) (legs : Legs) :
    Gives (fun _ => True) (checkReprices config side legs) := by
  unfold checkReprices
  split
  · exact .any (fun _ => gives_throw EntryError.noConfusion)
  · exact gives_pure trivial

theorem pollShort_flags (config : RepricingConfig) {legs : Legs} (h : Even legs) :
    Gives (fun flow => Even (legsOf flow)) (pollShort opportunity config legs) := by
  refine .bind (pollLeg_flags .short h) (fun flow hflow => ?_)
  cases flow with
  | again l => exact gives_pure hflow
  | stop l => exact gives_pure hflow
  | next l =>
    refine .ask (chaseLeg_flags _ _ _) (fun legs hl => ?_)
    refine .bind (checkSpread_flags _ _) (fun _ _ =>
      .bind (checkReprices_flags _ _ _) (fun _ _ => ?_))
    refine .bind (checkReprices_flags _ _ _) (fun _ _ => ?_)
    split <;> exact gives_pure (hl.even hflow)

theorem pollOnce_flags (config : RepricingConfig) {legs : Legs} (h : Even legs) :
    Gives (fun flow => Even (legsOf flow)) (pollOnce opportunity config legs) := by
  refine .any (fun _ => .bind (pollLeg_flags .long h) (fun flow hflow => ?_))
  cases flow with
  | again l => exact gives_pure hflow
  | stop l => exact gives_pure hflow
  | next l => exact .ask (chaseLeg_flags _ _ _) (fun legs hl => pollShort_flags _ (hl.even hflow))

theorem pollLoop_flags (config : RepricingConfig) (start turns : Nat) {legs : Legs}
    (h : Even legs) : Gives Even (pollLoop opportunity config start turns legs) := by
  induction turns generalizing legs with
  | zero => exact gives_pure h
  | succ turns ih =>
    refine .any (fun instant => ?_)
    split
    · refine .bind (pollOnce_flags _ h) (fun flow hflow => ?_)
      cases flow with
      | next l => exact ih hflow
      | again l => exact ih hflow
      | stop l => exact gives_pure hflow
    · exact gives_pure h

/-- The verification is made only if neither leg was found filled, and then one of them is. -/
theorem finalCheck_flags {legs : Legs} (h : Even legs) :
    Gives (fun legs' => legs'.neitherFilled = false ∧
      (legs.neitherFilled = true ∨ legs' = legs ∧ legs.bothFilled = true))
      (finalCheck opportunity legs) := by
  unfold finalCheck
  split
  · next hneither =>
    refine .any (fun l => .any (fun l' => ?_))
    split
    · exact .any (fun _ => gives_throw EntryError.noConfusion)
    · next hnot => exact gives_pure ⟨by simpa using hnot,.inl hneither⟩
  · next hnot =>
    refine gives_pure ⟨by simpa using hnot,.inr ⟨rfl,?_⟩⟩
    unfold Even at h
    unfold Legs.neitherFilled at hnot
    unfold Legs.bothFilled
    cases hs : legs.short.filled <;> simp_all

/-- The hedge after the loop is made for this leg. -/
def Enters (side : OrderSide) (legs : Legs) : Bool :=
  (legs.leg side).filled && !(legs.leg side.opposite).filled

theorem completeHedge_flags {side : OrderSide} (quantity : ℚ) {legs : Legs}
    (h : (legs.leg side).filled = true) :
    Gives (fun legs' => ∀ side', (legs'.leg side').filled = true)
      (completeHedge opportunity side quantity legs) := by
  refine .any (fun _ => .any (fun status => ?_))
  dsimp only
  split
  · exact gives_pure (both_set h rfl)
  · refine .any (fun r => ?_)
    obtain ⟨totalFilled,other⟩ := r
    dsimp only
    split
    · exact gives_pure (both_set h rfl)
    · exact .any (fun secs => marketHedge_flags _ _ h)

theorem finalHedge_flags (side : OrderSide) (legs : Legs) :
    Gives (fun legs' => (Enters side legs = true ∧ ∀ side', (legs'.leg side').filled = true) ∨
      (Enters side legs = false ∧ legs' = legs)) (finalHedge opportunity side legs) := by
  unfold finalHedge
  split
  · next henter =>
    have hfilled : (legs.leg side).filled = true := by
      rw [Bool.and_eq_true] at henter
      exact henter.1
    refine withHedgeLock_flags _ (.bind (depthGate_flags _ _ _) (fun legs' hl => ?_))
    exact (completeHedge_flags _ ((hl side).trans hfilled)).mono (fun legs'' hboth =>
      .inl ⟨henter,hboth⟩)
  · next hnot => exact gives_pure (.inr ⟨by simpa [Enters] using hnot,rfl⟩)

/-- Of legs that are not both open, the two hedges leave both filled. -/
theorem hedges_fill {checked hedged done : Legs} (h : checked.neitherFilled = false)
    (hlong : (Enters .long checked = true ∧ ∀ side, (hedged.leg side).filled = true) ∨
      (Enters .long checked = false ∧ hedged = checked))
    (hshort : (Enters .short hedged = true ∧ ∀ side, (done.leg side).filled = true) ∨
      (Enters .short hedged = false ∧ done = hedged)) : ∀ side, (done.leg side).filled = true := by
  rcases hshort with ⟨_,hboth⟩ | ⟨hshort,rfl⟩
  · exact hboth
  · rcases hlong with ⟨_,hboth⟩ | ⟨hlong,rfl⟩
    · exact hboth
    · intro side
      simp only [Enters,Legs.leg,OrderSide.opposite,Bool.and_eq_false_iff,
        Bool.not_eq_false'] at hlong hshort
      simp only [Legs.neitherFilled,Bool.and_eq_false_iff,Bool.not_eq_false'] at h
      cases side <;> simp only [Legs.leg] <;> grind

theorem fillLegs_gives {legs : Legs} (h : Even legs) :
    Gives (fun legs' => ∀ side, (legs'.leg side).filled = true) (fillLegs opportunity legs) := by
  refine .any (fun start => .bind (pollLoop_flags _ _ _ h) (fun loop hloop => ?_))
  refine .bind (finalCheck_flags hloop) (fun checked hchecked => ?_)
  refine .bind (finalHedge_flags .long checked) (fun hedged hhedged => ?_)
  refine .bind (finalHedge_flags .short hedged) (fun done hdone => ?_)
  have hboth := hedges_fill hchecked.1 hhedged hdone
  have hlong : done.long.filled = true := hboth .long
  have hshort : done.short.filled = true := hboth .short
  rw [hlong,hshort]
  exact gives_pure hboth

end Legs

section Entry

variable {opportunity : ArbitrageOpportunity}

theorem failWhen_gives {condition : Bool} {e : EntryError} (h : e ≠ .oneLegUnhedged) :
    Gives (fun _ => True) (failWhen condition e) := by
  unfold failWhen
  split
  · exact gives_throw h
  · exact gives_pure trivial

theorem availableBalance_gives (exchange : String) :
    Gives (fun _ => True) (availableBalance exchange) := by
  refine .any (fun r => ?_)
  cases r with
  | error e => exact gives_throw EntryError.noConfusion
  | ok balance => exact gives_pure trivial

theorem depthVerdict_gives (long short : Except String DepthCheckResult) :
    Gives (fun _ => True) (depthVerdict long short) := by
  unfold depthVerdict
  split
  · exact gives_throw EntryError.noConfusion
  · exact gives_throw EntryError.noConfusion
  · exact failWhen_gives EntryError.noConfusion

theorem preflight_gives (mode : ExecutionMode) (quantity : ℚ) :
    Gives (fun _ => True) (preflight opportunity mode quantity) := by
  cases mode with
  | ultraFast => exact gives_pure trivial
  | balanced =>
    refine .any (fun start => .any (fun long => .any (fun short => ?_)))
    exact .bind (depthVerdict_gives _ _) (fun _ _ => gives_pure trivial)
  | safe =>
    refine .any (fun long => ?_)
    obtain ⟨result,cache⟩ := long
    cases result with
    | error e => exact gives_throw EntryError.noConfusion
    | ok depth =>
      exact .any (fun short => .bind (depthVerdict_gives _ _) (fun _ _ => gives_pure trivial))

theorem prepareEntry_gives (capital size : ℚ) :
    Gives (fun _ => True) (prepareEntry opportunity capital size) := by
  refine .any (fun halted => .bind (failWhen_gives EntryError.noConfusion) (fun _ _ => ?_))
  refine .bind (failWhen_gives EntryError.noConfusion) (fun _ _ => ?_)
  refine .bind (failWhen_gives EntryError.noConfusion) (fun _ _ => ?_)
  refine .any (fun secs => .any (fun quantity => ?_))
  refine .bind (failWhen_gives EntryError.noConfusion) (fun _ _ => ?_)
  refine .bind (Q := fun _ => True) ?_ (fun _ _ => ?_)
  · refine .bind (availableBalance_gives _) (fun _ _ =>
      .bind (availableBalance_gives _) (fun _ _ => ?_))
    refine .bind (failWhen_gives EntryError.noConfusion) (fun _ _ => ?_)
    exact failWhen_gives EntryError.noConfusion
  · refine .any (fun _ => .any (fun _ => .any (fun _ => .any (fun _ => ?_))))
    exact .bind (preflight_gives _ _) (fun cache _ => gives_pure trivial)

theorem placeEntry_gives (quantity : ℚ) (secs : Nat) (cache : DepthCache) :
    Gives Even (placeEntry opportunity quantity secs cache) := by
  refine .any (fun long => .any (fun short => ?_))
  cases long with
  | error e => exact gives_throw EntryError.noConfusion
  | ok longOrder =>
    cases short with
    | error e => exact .any (fun _ => gives_throw EntryError.noConfusion)
    | ok shortOrder => exact gives_pure rfl

theorem entry_gives (opportunity : ArbitrageOpportunity) (capital size : ℚ) :
    Gives (fun _ => True) (executeAtomicEntryReal opportunity capital size) := by
  refine .bind (prepareEntry_gives _ _) (fun prepared _ => ?_)
  refine .bind (placeEntry_gives _ _ _) (fun legs heven =>
    .bind (fillLegs_gives heven) (fun filled _ => ?_))
  exact Prog.Returns.bind (Prog.returns_true _) (fun trade _ => trivial)

/-- The legs at the head of a turn of the polling loop. -/
inductive Head (opportunity : ArbitrageOpportunity) : Legs → Prop
  | first {quantity : ℚ} {secs : Nat} {cache : DepthCache} {legs : Legs}
    (h : (placeEntry opportunity quantity secs cache).run.Yields (.ok legs)) : Head opportunity legs
  | turn {legs legs' : Legs} (hlegs : Head opportunity legs)
    (h : (pollOnce opportunity (.fromConfidence opportunity.confidenceScore) legs).run.Yields
      (.ok (.next legs')) ∨ (pollOnce opportunity
      (.fromConfidence opportunity.confidenceScore) legs).run.Yields (.ok (.again legs'))) :
    Head opportunity legs'

theorem head_even {legs : Legs} (h : Head opportunity legs) : Even legs := by
  induction h with
  | first h => exact (placeEntry_gives _ _ _).yields h
  | turn _ h ih =>
    rcases h with h | h
    · exact (pollOnce_flags _ ih).yields h
    · exact (pollOnce_flags _ ih).yields h

end Entry

end SpreadArb.Proofs.Flags
