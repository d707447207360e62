import SpreadArb.Proofs.Requests

namespace SpreadArb.Proofs.Shards
open Interact Machine

/-- The exit check takes on no exiting trade. -/
def NothingExiting (s : Runner) : RunnerOp → Prop
  | .hold id => ∀ t, s.lookup id = some t → t.status ≠ .exiting
  | _ => True

instance (s : Runner) : (op : RunnerOp) → Decidable (NothingExiting s op)
  | .hold id => decidable_of_iff ((s.lookup id).all (fun t => t.status ≠ .exiting) = true)
      (by cases h : s.lookup id <;> simp [NothingExiting,h])
  | .backend .. | .tradeIds | .find _ | .get _ | .release _ | .getMut .. | .insert _ | .remove _
  | .quotes ..
  | .tracker _ | .trackerMut .. | .getFundingRates _ | .getAvailableCapital | .getStartingCapital
  | .openTrade _ | .closeTrade .. | .resumeTrading | .backendName | .monitoring _ => .isTrue trivial

theorem unblocked_of_free {shard : TradeId → Nat} {s : Runner} (h : s.held = []) (op : RunnerOp) :
    Unblocked shard s op := by
  intro id _
  simp [h]

/-- What each future counts on: the other one leaves no `Ref` behind at an await, and takes no
trade back from its exit. -/
def Undisturbed (s s' : Runner) : Prop :=
  (s.held = [] → s'.held = []) ∧ ∀ id, Exits id s → Exits id s'

theorem Undisturbed.refl (s : Runner) : Undisturbed s s := ⟨fun h => h,fun _ h => h⟩

theorem Undisturbed.trans {a b c : Runner} (h : Undisturbed a b) (k : Undisturbed b c) :
    Undisturbed a c := ⟨fun he => k.1 (h.1 he),fun id he => k.2 id (h.2 id he)⟩

/-- What each step of either future guarantees. -/
def Frees (shard : TradeId → Nat) (s : Runner) (op : RunnerOp) (s' : Runner) : Prop :=
  Unblocked shard s op ∧ s'.held = [] ∧ ∀ id, Exits id s → Exits id s'

section Futures

variable {env : Surroundings} {shard : TradeId → Nat}

theorem monitoring_held (env : Surroundings) {op : RunnerOp} (h : Monitoring op) (s : Runner) :
    ((runner env).serve op s).2.held = s.held := by
  cases op <;> first | rfl | (obtain ⟨_,hk⟩ := h; cases hk)

theorem watching_held (env : Surroundings) {op : RunnerOp} (h : Watching op) (s : Runner) :
    ((runner env).serve op s).2.held = s.held := by
  cases op <;> first | rfl | cases h

theorem monitor_frees {s : Runner} (hs : s.held = []) :
    (runner env).wpr Undisturbed NothingExiting (Frees shard) monitorActivePositions
      (fun _ v => v.held = []) s := by
  refine wpr_invariant (fun a b h => h.1) (fun op w hk _ hw => ?_)
    monitorActivePositions_monitoring hs
  have hv := (monitoring_held env hk w).trans hw
  exact ⟨⟨unblocked_of_free hw op,hv,fun id he => exits_serve env (.inl hk) he⟩,hv⟩

/-- A trade that was found exiting is exiting or gone when its `Ref` is taken, so that there
is no `Ref` to keep. -/
theorem closeExiting_frees {id : TradeId} {symbol : String} {s : Runner} (hs : s.held = [])
    (he : Exits id s) :
    (runner env).wpr Undisturbed NothingExiting (Frees shard) (closeExiting id symbol)
      (fun _ v => v.held = []) s := by
  apply wpr_bind.mpr
  intro v hv hc
  have hfree := hv.1 hs
  cases hl : v.lookup id with
  | some t => exact absurd (hv.2 id he t hl) (hc t hl)
  | none =>
    have hserve : (runner env).serve (.hold id) v = (none,v) := by simp [runner,hl]
    rw [hserve]
    exact ⟨⟨unblocked_of_free hfree _,hfree,fun _ h => h⟩,hfree⟩

theorem checkExit_frees {id : TradeId} {s : Runner} (hs : s.held = []) :
    (runner env).wpr Undisturbed NothingExiting (Frees shard) (checkExit id)
      (fun _ v => v.held = []) s := by
  apply wpr_bind.mpr
  intro v hv _
  have hfree := hv.1 hs
  refine ⟨⟨unblocked_of_free hfree _,hfree,fun _ h => h⟩,?_⟩
  generalize ((runner env).serve (.get id) v).1 = found
  cases found with
  | none => exact hfree
  | some trade =>
    apply wpr_bind.mpr
    have hwatch : (runner env).wpr Undisturbed NothingExiting (Frees shard)
        (checkNegativeFunding id trade.symbol) (fun _ u => u.held = []) v := by
      refine wpr_invariant (fun a b h => h.1) (fun op w hk _ hw => ?_)
        (checkNegativeFunding_watching id trade.symbol) hfree
      have hu := (watching_held env hk w).trans hw
      exact ⟨⟨unblocked_of_free hw op,hu,fun i h => exits_serve env (.inr hk.checking) h⟩,hu⟩
    refine wpr_mono hwatch (fun go u hu => ?_)
    cases go with
    | false => exact hu
    | true =>
      apply wpr_bind.mpr
      intro x hx _
      have hfree' := hx.1 hu
      refine ⟨⟨unblocked_of_free hfree' _,hfree',fun _ h => h⟩,?_⟩
      generalize hl : ((runner env).serve (.get id) x).1 = found
      cases found with
      | none => exact hfree'
      | some found =>
        rw [wpr_ret]
        dsimp only
        split
        · next hexit =>
          refine closeExiting_frees hfree' (fun t ht => ?_)
          cases hl.symm.trans ht
          exact hexit
        · exact hfree'

theorem checkExits_frees {s : Runner} (hs : s.held = []) :
    (runner env).wpr Undisturbed NothingExiting (Frees shard) checkExits
      (fun _ v => v.held = []) s := by
  have hlist : ∀ (ids : List TradeId) (s : Runner), s.held = [] →
      (runner env).wpr Undisturbed NothingExiting (Frees shard) (checkExitsOf ids)
        (fun _ v => v.held = []) s := by
    intro ids
    induction ids with
    | nil => exact fun s hs => hs
    | cons id ids ih =>
      intro s hs
      refine wpr_bind.mpr (wpr_mono (checkExit_frees hs) (fun r v hv => ?_))
      cases r with
      | error e => exact hv
      | ok u => exact ih v hv
  apply wpr_bind.mpr
  intro v hv _
  exact ⟨⟨unblocked_of_free (hv.1 hs) _,hv.1 hs,fun _ h => h⟩,hlist _ v (hv.1 hs)⟩

theorem joinMonitors_frees {schedule : Nat → Bool} {s : Runner} (hs : s.held = []) :
    (runner env).wpr (· = ·) NothingExiting (Frees shard) (joinMonitors schedule)
      (fun _ v => v.held = []) s := by
  have hguarantee : ∀ a op b, Frees shard a op b → Undisturbed a b :=
    fun a op b h => ⟨fun _ => h.2.1,h.2.2⟩
  refine wpr_mono (wpr_weaken (fun _ _ h => h) ?_ (wpr_join Undisturbed.refl Undisturbed.refl
    (fun _ _ _ => Undisturbed.trans) (fun _ _ _ => Undisturbed.trans) hguarantee hguarantee
    (fun _ _ _ h hq => h.1 hq) (fun _ _ _ h hq => h.1 hq) monitorActivePositions checkExits none 0 s
    (monitor_frees hs) (checkExits_frees hs))) (fun _ v h => h.1)
  exact fun a op b h => h.elim (fun h => h) (fun h => h)

end Futures

/-- The task never waits for a lock it holds itself, as long as the exit check finds no
exiting trade: whatever the hash, the schedule and the answers of the exchanges. -/
theorem loop_never_waits_for_itself (env : Surroundings) (shard : TradeId → Nat)
    (inputs : Nat → Input) (n : Nat) (s : Runner) (hs : s.held = []) :
    (runner env).Upholds NothingExiting (Unblocked shard) (runScanningLoop inputs n) s := by
  refine upholds_of_wpr (G := fun a op b => Unblocked shard a op) (fun _ _ _ h => h)
    (Q := fun _ v => v.held = []) (wpr_loop inputs (fun input s hs => ?_) n hs)
  have hother : ∀ (p : Run Unit) {K : RunnerOp → Prop}, p.Only K →
      (∀ op s, K op → ((runner env).serve op s).2.held = s.held) → ∀ s : Runner, s.held = [] →
      (runner env).wpr (· = ·) NothingExiting (fun a op b => Unblocked shard a op) p
        (fun _ v => v.held = []) s := by
    intro p K hp hk s hs
    refine wpr_invariant (fun a b h ha => h ▸ ha) (fun op w ho _ hw => ?_) hp hs
    exact ⟨unblocked_of_free hw op,(hk op w ho).trans hw⟩
  refine wpr_scanOnce input (fun s hs => ?_) (fun o s hs => ?_) (fun s hs => ?_)
    (fun schedule s hs => ?_) hs
  · exact hother (.call .resumeTrading .ret) (K := fun op => op = .resumeTrading)
      ⟨rfl,fun _ => trivial⟩
      (fun op s ho => by subst ho; rfl) s hs
  · refine hother _ (executeOpportunity_entering o) (fun op s ho => ?_) s hs
    cases op with
    | insert t =>
      simp only [runner,Runner.put]
      split <;> rfl
    | openTrade t =>
      simp only [runner]
      split <;> rfl
    | _ => first | rfl | cases ho
  · exact hother (backendCall .entry (.sleep 0)) (K := fun op => op = .backend .entry (.sleep 0))
      ⟨rfl,fun _ => trivial⟩
      (fun op s ho => by subst ho; rfl) s hs
  · exact wpr_weaken (fun _ _ h => h) (fun _ _ _ h => h.1) (joinMonitors_frees hs)

/-- The exchanges fill everything at once, and both quotes are in the store. -/
def smooth : Surroundings where
  exchanges t := { calm (t - 2) with trades := fun _ => 1 }
  quotes _ _ _ _ := (some 100,some 101)

/-- The request writes to an active trade. -/
def writesActive (s : Runner) : RunnerOp → Bool
  | .getMut id _ => (s.lookup id).any (fun t => t.status = .active)
  | _ => false

/-- `check_exits` has read a trade of this symbol and looks for its tracker. -/
def asksTracker (symbol : String) : RunnerOp → Bool
  | .tracker asked => asked = symbol
  | _ => false

/-- A paper trade that is opened in the first of two turns and stays open, with the two futures
taking turns. -/
def watched : Nat → Input := fun n =>
  { opportunity := if n = 0 then some { onePercent with fundingDelta8h := 2/10000 } else none
    schedule := fun i => i % 2 = 0 }

/-- While a trade is active, `check_exits` reads it, the monitor writes to it, and the task does not
block. -/
theorem watched_trade_runs_on :
    let m := runner { smooth with backendName := "Paper" }
    let loop := runScanningLoop watched 2
    let s := Runner.new .empty 1010
    s.held = [] ∧ m.Along NothingExiting loop s ∧
      ¬ m.Along (fun s op => writesActive s op = false) loop s ∧
      ¬ m.Along (fun _ op => asksTracker "BTCUSDT" op = false) loop s ∧
      (m.run loop s).2.trades.map (fun t => (t.symbol,t.status)) = [("BTCUSDT",.active)] ∧
      m.Upholds NothingExiting (Unblocked id) loop s := by
  refine ⟨rfl,by decide +kernel,by decide +kernel,by decide +kernel,by decide +kernel,?_⟩
  exact loop_never_waits_for_itself { smooth with backendName := "Paper" } id watched 2
    (.new .empty 1010) rfl

/-- The first trade whose exit orders fill blocks the task: `check_exits` removes the trade
while it holds the `Ref` to it. -/
theorem filled_exits_block_task :
    ¬ (runner smooth).Upholds (fun _ _ => True) (Unblocked id)
      (runScanningLoop (fun _ => { opportunity := some onePercent }) 1)
        (Runner.new .empty 1010) := by
  decide +kernel

end SpreadArb.Proofs.Shards
