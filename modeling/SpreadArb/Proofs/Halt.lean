import SpreadArb.Interact.Protocol
import SpreadArb.Proofs.Shards
import SpreadArb.Proofs.Sections

namespace SpreadArb.Proofs.Halt
open Interact Machine Sections

/-- How far an entry is with giving up: it has not, an emergency close has failed, trading is
halted for that. -/
inductive Phase where
  | calm
  | alarmed
  | retired

/-- The entry halts trading at once after a failed emergency close, and places no order then. -/
def Phase.next : Phase → BackendOp → Option Phase
  | .calm, .alert (.closeFailed _) => some .alarmed
  | .calm, _ => some .calm
  | .alarmed, .haltTrading _ => some .retired
  | .alarmed, _ => none
  | .retired, .placeOrder _ | .retired, .placeMarketOrder _ => none
  | .retired, _ => some .retired

/-- The requests that tell of no failed emergency close. -/
def Untroubled : BackendOp → Prop
  | .alert (.closeFailed _) => False
  | _ => True

theorem next_untroubled (op : BackendOp) (h : Untroubled op) :
    Phase.next .calm op = some .calm := by
  cases op with
  | alert a =>
    cases a with
    | closingNaked o => rfl
    | closeFailed o => cases h
  | _ => rfl

/-- An entry that goes on has not given up, and one that returns `Err` has halted trading if it
has. -/
def Heeds (x : Entry α) : Prop :=
  Prog.Follows Phase.next (Ends (· ≠ .alarmed) (fun _ q => q = .calm))
    (x : Prog backend (Except EntryError α))
    .calm

section Rules

theorem follows_calm {p : Prog backend α} {f : α → Prog backend β} {Q : β → Phase → Prop}
    (hp : p.Only Untroubled) (hf : ∀ a, (f a).Follows Phase.next Q .calm) :
    (p >>= f).Follows Phase.next Q .calm := by
  refine .bind (R := fun _ q => q = .calm) (hp.follows next_untroubled (fun _ => rfl))
    (fun a q hq => ?_)
  subst hq
  exact hf a

theorem Heeds.of_only {x : Entry α}
    (h : Prog.Only Untroubled (x : Prog backend (Except EntryError α))) : Heeds x := by
  refine h.follows next_untroubled (fun r => ?_)
  cases r with
  | ok a => rfl
  | error e => exact Phase.noConfusion

theorem Heeds.bind {x : Entry α} {f : α → Entry β} (hx : Heeds x) (hf : ∀ a, Heeds (f a)) :
    Heeds (x >>= f) := by
  refine Prog.Follows.exceptBind hx (fun a q hq => ?_)
  subst hq
  exact hf a

theorem Plain.untroubled {op : BackendOp} (h : Plain op) : Untroubled op := by
  cases op with
  | alert a =>
    cases a with
    | closingNaked o => trivial
    | closeFailed o => cases h
  | _ => trivial

end Rules

section Entry

variable {opportunity : ArbitrageOpportunity}

/-- After a failed emergency close trading is halted. -/
theorem emergency_follows (order : SimulatedOrder) :
    (emergencyClosePosition order).Follows Phase.next (fun _ q => q ≠ .alarmed) .calm := by
  have hrest : ∀ (start : Nat) (e : String) (closed : Bool),
      Prog.Follows Phase.next (fun _ q => q ≠ .alarmed)
      (if closed then pure (.ok ()) else do
        let failed ← Backend.now
        let _ ← Backend.alert (.closeFailed order)
        let _ ← Backend.haltTrading (haltReason order e)
        pure (.error (closeFailure (failed - start) e)) :
          Prog backend (Except String Unit)) .calm := by
    intro start e closed
    cases closed with
    | true => exact Phase.noConfusion
    | false =>
      exact ⟨_,rfl,fun _ => ⟨_,rfl,fun _ => ⟨_,rfl,fun _ => Phase.noConfusion⟩⟩⟩
  refine follows_calm ⟨trivial,fun _ => trivial⟩ (fun start => ?_)
  refine follows_calm ⟨trivial,fun _ => trivial⟩ (fun _ => ?_)
  refine follows_calm ⟨trivial,fun _ => trivial⟩ (fun created => ?_)
  refine follows_calm ((placeAttempts_attempting _ _ _).mono (fun _ h => Plain.untroubled h.plain))
    (fun r => ?_)
  cases r with
  | ok o => exact Phase.noConfusion
  | error e =>
    dsimp only
    split
    · exact follows_calm ((closeInHalves_attempting _).mono (fun _ h => Plain.untroubled h.plain))
        (fun closed => hrest start e closed)
    · exact hrest start e false

/-- An emergency close and a return with `Err`, whatever it answers. -/
theorem emergency_heeds (order : SimulatedOrder) {f : Except String Unit → Entry α}
    (hf : ∀ r, ∃ e, f r = throw e) : Heeds (liftM (emergencyClosePosition order) >>= f) := by
  refine .exceptBind (R := fun _ q => q ≠ .alarmed) (.lift (emergency_follows order))
    (fun r q hq => ?_)
  obtain ⟨e,he⟩ := hf r
  rw [he]
  exact hq

theorem withHedgeLock_heeds (symbol : String) {body : Entry α} (h : Heeds body) :
    Heeds (withHedgeLock symbol body) := by
  refine follows_calm ⟨trivial,fun _ => trivial⟩ (fun r => ?_)
  cases r with
  | error e => exact Phase.noConfusion
  | ok u =>
    refine .bind h (fun r q hr => ?_)
    cases r with
    | ok a =>
      obtain rfl : q = .calm := hr
      exact ⟨.calm,rfl,fun _ => rfl⟩
    | error e =>
      cases q with
      | alarmed => exact absurd rfl hr
      | calm => exact ⟨.calm,rfl,fun _ => Phase.noConfusion⟩
      | retired => exact ⟨.retired,rfl,fun _ => Phase.noConfusion⟩

theorem heeds_of_sections {locked : Bool} {x : Entry α} (h : Sectioned opportunity locked x) :
    Heeds x := by
  induction h with
  | outside h => exact .of_only (h.mono (fun _ h => Plain.untroubled h.plain))
  | inside h => exact .of_only (h.mono (fun _ => Plain.untroubled))
  | closing order hf => exact emergency_heeds order hf
  | bind hx hf ihx ihf => exact .bind ihx ihf
  | lock hwork h ih => exact withHedgeLock_heeds _ ih

theorem entry_heeds (opportunity : ArbitrageOpportunity) (capital size : ℚ) :
    Heeds (executeAtomicEntryReal opportunity capital size) :=
  heeds_of_sections (entry_sections opportunity capital size)

/-- The first thing an entry asks is whether trading is halted, and then it goes no further. -/
theorem entry_asks_first (opportunity : ArbitrageOpportunity) (capital size : ℚ) :
    ∃ next, (executeAtomicEntryReal opportunity capital size).run = .call .isTradingHalted next ∧
      next true = .ret (.error .halted) :=
  ⟨_,rfl,rfl⟩

end Entry

section Loop

/-- An order of an entry. -/
def placesEntry : RunnerOp → Bool
  | .backend .entry (.placeOrder _) | .backend .entry (.placeMarketOrder _) => true
  | _ => false

def halts : RunnerOp → Bool
  | .backend _ (.haltTrading _) => true
  | _ => false

/-- Once the program has given up on a leg, trading is halted before anything else happens, and
no entry places an order. -/
def Heeded (s : Runner) (op : RunnerOp) : Prop :=
  s.gaveUp = true → (s.world.halted = true ∨ halts op = true) ∧ placesEntry op = false

instance (s : Runner) (op : RunnerOp) : Decidable (Heeded s op) :=
  inferInstanceAs (Decidable (_ → _ ∧ _))

/-- No market order of the monitor is refused while trading goes on. -/
def Accepted (env : Surroundings) (s : Runner) : RunnerOp → Prop
  | .backend (.monitor ..) (.placeMarketOrder _) =>
    (env.exchanges s.world.tick).failure.isSome = true → s.world.halted = true
  | _ => True

theorem placesEntry_false {op : BackendOp} (h : ¬ Places op) :
    placesEntry (.backend .entry op) = false := by
  cases op <;> first | rfl | exact absurd trivial h

/-- Between two requests outside of an entry. -/
def Halted (s : Runner) : Prop := s.gaveUp = true → s.world.halted = true

/-- The requests other than those by which an entry trades and gives up. -/
def Mindful : RunnerOp → Prop
  | .backend .entry op => ¬ Places op ∧ Untroubled op
  | .backend _ op => Untroubled op
  | _ => True

theorem serve_halted (env : Env) (op : BackendOp) {w : World} (h : w.halted = true) :
    ((exchanges env).serve op w).2.halted = true := by
  cases op with
  | placeOrder o =>
    rw [serve_placeOrder]
    unfold World.servePlace
    split <;> exact h
  | placeMarketOrder o =>
    rw [serve_placeMarketOrder]
    unfold World.serveMarket
    split <;> exact h
  | cancelOrder ex id =>
    rw [serve_cancelOrder]
    unfold World.serveCancel
    split <;> exact h
  | getOrderStatusDetailed ex id sym =>
    rw [serve_getOrderStatusDetailed]
    unfold World.serveStatus
    split <;> exact h
  | tryAcquireHedgeLock s =>
    simp only [exchanges]
    split <;> exact h
  | haltTrading r => rfl
  | _ => exact h

theorem Mindful.untroubled {caller : Caller} {op : BackendOp} (h : Mindful (.backend caller op)) :
    Untroubled op := by
  cases caller with
  | entry => exact h.2
  | monitor i b => exact h
  | cleanup i => exact h

/-- Only a refused market order of the monitor gives up without an alarm. -/
theorem givesUp_untroubled {caller : Caller} {op : BackendOp} {refused : Bool} (h : Untroubled op)
    (hg : givesUp caller op refused = true) :
    (∃ i b o, caller = .monitor i b ∧ op = .placeMarketOrder o) ∧ refused = true := by
  unfold givesUp at hg
  split at hg
  · cases h
  · exact ⟨⟨_,_,_,rfl,rfl⟩,hg⟩
  · cases hg

variable {env : Surroundings}

theorem mindful_step (op : RunnerOp) (s : Runner) (hk : Mindful op) (hc : Accepted env s op)
    (hs : Halted s) : Heeded s op ∧ Halted ((runner env).serve op s).2 := by
  refine ⟨fun hg => ⟨.inl (hs hg),?_⟩,?_⟩
  · cases op with
    | backend caller op =>
      cases caller with
      | entry => exact placesEntry_false hk.1
      | _ => rfl
    | _ => rfl
  · cases op with
    | backend caller op =>
      intro hg
      apply serve_halted
      rcases Bool.or_eq_true_iff.mp hg with hg | hg
      · exact hs hg
      · obtain ⟨⟨i,b,o,rfl,rfl⟩,hr⟩ := givesUp_untroubled hk.untroubled hg
        exact hc hr
    | hold i =>
      simp only [runner]
      split <;> exact hs
    | insert t =>
      simp only [runner,Runner.put]
      split <;> exact hs
    | openTrade t =>
      simp only [runner]
      split <;> exact hs
    | closeTrade i profit reason =>
      simp only [runner]
      split <;> exact hs
    | resumeTrading => exact fun hg => Bool.noConfusion hg
    | _ => exact hs

theorem mindful_halted {p : Run α} (hp : p.Only Mindful) {s : Runner} (hs : Halted s) :
    (runner env).wpr (· = ·) (Accepted env) (fun a op _ => Heeded a op) p (fun _ v => Halted v) s :=
  wpr_invariant (fun _ _ h hs => h ▸ hs) (fun op s hk hc hs => mindful_step op s hk hc hs) hp hs

/-- How the runner stands while an entry is in this phase. -/
def Phase.holds : Phase → Runner → Prop
  | .calm, s => s.gaveUp = false
  | .alarmed, _ => True
  | .retired, s => s.world.halted = true

theorem phase_step (q : Phase) (op : BackendOp) (q' : Phase) (s : Runner) (hq : q.next op = some q')
    (hs : q.holds s) : Heeded s (.backend .entry op) ∧
      q'.holds ((runner env).serve (.backend .entry op) s).2 := by
  cases q with
  | calm =>
    refine ⟨fun hg => absurd hg (by rw [hs]; exact Bool.false_ne_true),?_⟩
    by_cases ht : Untroubled op
    · obtain rfl : Phase.calm = q' := Option.some.inj ((next_untroubled op ht).symm.trans hq)
      refine Bool.or_eq_false_iff.mpr ⟨hs,?_⟩
      rw [Bool.eq_false_iff]
      intro hg
      obtain ⟨⟨i,b,o,hcaller,_⟩,_⟩ := givesUp_untroubled ht hg
      cases hcaller
    · cases op with
      | alert a =>
        cases a with
        | closeFailed o =>
          obtain rfl : Phase.alarmed = q' := Option.some.inj hq
          trivial
        | closingNaked o => exact absurd trivial ht
      | _ => exact absurd trivial ht
  | alarmed =>
    cases op with
    | haltTrading r =>
      obtain rfl : Phase.retired = q' := Option.some.inj hq
      exact ⟨fun _ => ⟨.inr rfl,rfl⟩,rfl⟩
    | _ => cases hq
  | retired =>
    have hno : ¬ Places op ∧ Phase.retired = q' := by
      cases op <;> first | exact ⟨id,Option.some.inj hq⟩ | cases hq
    obtain ⟨hno,rfl⟩ := hno
    exact ⟨fun _ => ⟨.inl hs,placesEntry_false hno⟩,serve_halted _ op hs⟩

theorem Phase.halted {q : Phase} (hq : q ≠ .alarmed) {s : Runner} (hs : q.holds s) : Halted s := by
  cases q with
  | calm => exact fun hg => absurd hg (by rw [hs]; exact Bool.false_ne_true)
  | alarmed => exact absurd rfl hq
  | retired => exact fun _ => hs

theorem entryReal_halted (opportunity : ArbitrageOpportunity) (capital size : ℚ) {s : Runner}
    (hs : Halted s) :
    (runner env).wpr (· = ·) (Accepted env) (fun a op _ => Heeded a op)
      (onBackend .entry (executeAtomicEntryReal opportunity capital size).run) (fun _ v =>
        Halted v) s := by
  cases hg : s.gaveUp with
  | true =>
    obtain ⟨next,hrun,htrue⟩ := entry_asks_first opportunity capital size
    rw [hrun]
    intro v hv _
    subst hv
    refine ⟨fun _ => ⟨.inl (hs hg),rfl⟩,?_⟩
    have hans : ((runner env).serve (.backend .entry .isTradingHalted) s).1 = true := hs hg
    rw [hans]
    dsimp only
    rw [htrue]
    exact fun _ => hs hg
  | false =>
    have hfollows := wpr_follows (m := runner env) (C := Accepted env) (G := fun a op _ =>
        Heeded a op)
      (f := fun op => .backend .entry op) (g := fun _ r => r) (J := Phase.holds)
      (fun q op q' v hq _ hv => phase_step q op q' v hq hv)
        (entry_heeds opportunity capital size) hg
    refine wpr_mono hfollows (fun r v hv => ?_)
    obtain ⟨q,hr,hv⟩ := hv
    refine Phase.halted ?_ hv
    cases r with
    | ok t =>
      rw [show q = .calm from hr]
      exact Phase.noConfusion
    | error e => exact hr

theorem simulateOrderFill_asks (order : SimulatedOrder) (volume : ℚ) :
    (simulateOrderFill order volume).Only Asking := by
  unfold simulateOrderFill
  split
  · trivial
  · dsimp only
    split
    · exact .bind nowSecs_asks (fun _ => trivial)
    · trivial

theorem createLimitOrder_asks (exchange symbol : String) (side : OrderSide) (price size depth : ℚ) :
    (createLimitOrder exchange symbol side price size depth).Only Asking :=
  .bind nowSecs_asks (fun _ => ⟨trivial,fun _ => trivial⟩)

/-- The entry of paper trading asks for the time and for fresh identifiers only. -/
theorem entryPaper_asks (opportunity : ArbitrageOpportunity) (capital size : ℚ) :
    Prog.Only Asking (executeAtomicEntry opportunity capital size : Prog backend
      (Except EntryError PaperTrade)) := by
  have hlegs : ∀ longOrder shortOrder, Prog.Only Asking
      (simulateLegs opportunity longOrder shortOrder :
        Prog backend (Except EntryError (SimulatedOrder × SimulatedOrder))) := by
    intro longOrder shortOrder
    unfold simulateLegs
    refine .exceptBind (.lift (simulateOrderFill_asks _ _)) (fun harder => ?_)
    refine .exceptBind (failWhen_asks _ _) (fun _ => ?_)
    refine .exceptBind (.lift (simulateOrderFill_asks _ _)) (fun easier => ?_)
    refine .exceptBind (failWhen_asks _ _) (fun _ => ?_)
    split <;> trivial
  refine .exceptBind (failWhen_asks _ _) (fun _ => .exceptBind (failWhen_asks _ _) (fun _ => ?_))
  refine .exceptBind (.lift nowSecs_asks) (fun secs => ?_)
  refine .exceptBind (.lift (createLimitOrder_asks _ _ _ _ _ _)) (fun longOrder => ?_)
  refine .exceptBind (.lift (createLimitOrder_asks _ _ _ _ _ _)) (fun shortOrder => ?_)
  refine .exceptBind (hlegs _ _) (fun orders => ?_)
  exact .exceptBind (.lift ⟨trivial,fun _ => trivial⟩) (fun _ => trivial)

theorem Asking.mindful {op : BackendOp} (h : Asking op) : Mindful (.backend .entry op) := by
  refine ⟨fun hp => ?_,Plain.untroubled (Outside.plain (Asking.outside h))⟩
  cases op <;> first | exact False.elim hp | exact False.elim h

theorem enterTrade_halted (opportunity : ArbitrageOpportunity) (placeholder : TradeId)
    (capital size spread fee : ℚ) {s : Runner} (hs : Halted s) :
    (runner env).wpr (· = ·) (Accepted env) (fun a op _ => Heeded a op)
      (enterTrade opportunity placeholder capital size spread fee) (fun _ v => Halted v) s := by
  refine wpr_bind.mpr (wpr_mono
    (mindful_halted (p := isRealTrading) ⟨trivial,fun _ => trivial⟩ hs) ?_)
  intro real v hv
  have hentry : (runner env).wpr (· = ·) (Accepted env) (fun a op _ => Heeded a op)
      (onBackend .entry (if real then executeAtomicEntryReal opportunity capital size
        else executeAtomicEntry opportunity capital size).run) (fun _ v => Halted v) v := by
    cases real with
    | true => exact entryReal_halted opportunity capital size hv
    | false =>
      exact mindful_halted (Prog.Only.embed (fun _ => Asking.mindful) (entryPaper_asks _ _ _)) hv
  refine wpr_bind.mpr (wpr_mono hentry (fun r u hu => ?_))
  cases r with
  | error e =>
    refine mindful_halted ?_ hu
    exact ⟨trivial,fun _ => trivial⟩
  | ok trade =>
    refine mindful_halted ?_ hu
    exact ⟨trivial,fun _ => ⟨trivial,fun _ => ⟨trivial,fun _ => trivial⟩⟩⟩

theorem execute_halted (opportunity : ArbitrageOpportunity) {s : Runner} (hs : Halted s) :
    (runner env).wpr (· = ·) (Accepted env) (fun a op _ =>
      Heeded a op) (executeOpportunity opportunity)
      (fun _ v => Halted v) s := by
  have hremove : ∀ placeholder {s : Runner}, Halted s → (runner env).wpr (· = ·) (Accepted env)
      (fun a op _ => Heeded a op) (removeTrade placeholder) (fun _ v => Halted v) s :=
    fun placeholder _ hs => mindful_halted (p := removeTrade placeholder) ⟨trivial,
      fun _ => trivial⟩ hs
  have hprices : (getPricesFromStore opportunity.symbol opportunity.longExchange
      opportunity.shortExchange).Only Mindful := by
    refine .bind ⟨trivial,fun _ => trivial⟩ (fun r => ?_)
    split
    · trivial
    · trivial
    · split <;> trivial
  refine wpr_bind.mpr (wpr_mono
    (mindful_halted (p := findTrade _) ⟨trivial,fun _ => trivial⟩ hs) ?_)
  intro found s₁ h₁
  cases found with
  | some t => exact h₁
  | none =>
    refine wpr_bind.mpr (wpr_mono (mindful_halted (p := backendCall .entry .newUuid)
      ⟨⟨id,trivial⟩,fun _ => trivial⟩ h₁) (fun placeholder s₂ h₂ => ?_))
    refine wpr_bind.mpr (wpr_mono
      (mindful_halted (p := insertTrade _) ⟨trivial,fun _ => trivial⟩ h₂) (fun _ s₃ h₃ => ?_))
    refine wpr_bind.mpr (wpr_mono (mindful_halted hprices h₃) (fun prices s₄ h₄ => ?_))
    cases prices with
    | error e => exact hremove placeholder h₄
    | ok prices =>
      dsimp only
      split
      · exact hremove placeholder h₄
      · refine wpr_bind.mpr (wpr_mono (mindful_halted (p := .call .getAvailableCapital .ret)
          ⟨trivial,fun _ => trivial⟩ h₄) (fun available s₅ h₅ => ?_))
        split
        · exact hremove placeholder h₅
        · refine wpr_bind.mpr (wpr_mono (mindful_halted (p := .call .getStartingCapital .ret)
            ⟨trivial,fun _ => trivial⟩ h₅) (fun starting s₆ h₆ => ?_))
          split
          · exact hremove placeholder h₆
          · exact enterTrade_halted _ _ _ _ _ _ h₆

theorem monitoring_mindful (op : RunnerOp) (h : Monitoring op) : Mindful op := by
  cases op with
  | backend caller op =>
    obtain ⟨id,h⟩ := h
    cases caller with
    | monitor i b =>
      cases op <;> first | trivial | exact False.elim h.2
    | _ => cases h
  | _ => trivial

theorem checking_mindful (op : RunnerOp) (h : Checking op) : Mindful op := by
  cases op with
  | backend caller op =>
    cases caller with
    | cleanup i => cases op <;> trivial
    | _ => cases h
  | _ => trivial

theorem joinMonitors_mindful (schedule : Nat → Bool) : (joinMonitors schedule).Only Mindful :=
  .join (monitorActivePositions_monitoring.mono monitoring_mindful)
    (checkExits_checking.mono checking_mindful)

/-- Whatever the exchanges, the operator and the schedule do: once the program has given up on a
leg, trading is halted before anything else happens and no entry places an order until trading is
resumed, as long as no market order of the monitor is refused while trading goes on. -/
theorem no_entry_after_giving_up (env : Surroundings) (world : World) (startingCapital : ℚ)
    (inputs : Nat → Input) (n : Nat) :
    (runner env).Upholds (Accepted env) Heeded (runScanningLoop inputs n)
      (.new world startingCapital) := by
  have hnew : Halted (.new world startingCapital) := fun hg => Bool.noConfusion hg
  refine upholds_of_wpr (G := fun a op _ => Heeded a op) (fun _ _ _ h => h)
    (Q := fun _ v => Halted v)
    (wpr_loop inputs (fun input s hs => ?_) n hnew)
  refine wpr_scanOnce input (fun s hs => ?_) (fun o s hs => execute_halted o hs) (fun s hs => ?_)
    (fun schedule s hs => mindful_halted (joinMonitors_mindful schedule) hs) hs
  · exact mindful_halted (p := .call .resumeTrading .ret) ⟨trivial,fun _ => trivial⟩ hs
  · exact mindful_halted (p := backendCall .entry (.sleep 0)) ⟨⟨id,trivial⟩,fun _ => trivial⟩ hs

end Loop

/-- Buy at a half on one exchange, sell at 51 hundredths on the other. -/
def penny (symbol : String) : ArbitrageOpportunity :=
  ⟨symbol,"bybit","okx",1/2,51/100,0,95,0,15000,15000⟩

/-- The entry orders and the long exit order fill, the short exit order does not, and the market
order that is to close the short leg is refused. -/
def refusedClose : Surroundings where
  exchanges t :=
    { value := 150
      depth := ⟨[⟨1/2,1000⟩],[],0⟩
      trades := fun i => if i = 3 then 0 else 1000
      failure := if t = 25 then some "rejected" else none }
  quotes _ _ _ _ := (some (1/2),some (51/100))

/-- One opportunity a turn; the exit check runs while the monitor waits for its first answer. -/
def twoSymbols : Nat → Input := fun n =>
  { opportunity := some (penny (if n = 0 then "BTCUSDT" else "ETHUSDT"))
    schedule := fun k => k = 0 }

/-- The long entry order fills, the short one does not, and from then on every call fails for
a while. -/
def brokenHedge : Surroundings where
  exchanges t :=
    { value := 150
      depth := ⟨[⟨1/2,1000⟩],[],0⟩
      trades := fun i => if i = 1 then 0 else 1000
      failure := if 15 < t ∧ t < 42 then some "rejected" else none }
  quotes _ _ _ _ := (some (1/2),some (51/100))

/-- After a failed emergency close the next entry stops at the halt. -/
theorem failed_close_stops_entries :
    (let s := ((runner brokenHedge).run (runScanningLoop twoSymbols 2) (.new .empty 1010)).2
     s.gaveUp = true ∧ s.world.halted = true ∧ s.world.count = 2) ∧
    (runner brokenHedge).Upholds (Accepted brokenHedge) Heeded (runScanningLoop twoSymbols 2)
      (.new .empty 1010) :=
  ⟨by decide +kernel,no_entry_after_giving_up brokenHedge .empty 1010 twoSymbols 2⟩

/-- After a refused close of the monitor trading is not halted, and the next entry places orders. -/
theorem refused_close_then_entry :
    let s := ((runner refusedClose).run (runScanningLoop twoSymbols 1) (.new .empty 1010)).2
    (s.gaveUp = true ∧ s.world.halted = false) ∧
      ¬ (runner refusedClose).Upholds (fun _ _ => True) Heeded (runScanningLoop twoSymbols 2)
        (.new .empty 1010) := by
  decide +kernel

end SpreadArb.Proofs.Halt
