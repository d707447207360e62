import SpreadArb.Interact.Trace
import SpreadArb.Proofs.Requests
import SpreadArb.Proofs.Ledger

namespace SpreadArb.Proofs.Origins
open Interact Machine Ledger

/-- No tracker was ever created, no trade leaves for its funding, and the portfolio knows of no
leg-out. -/
structure Blank (s : Runner) : Prop where
  trackers : s.trackers = []
  reasons : ∀ t ∈ s.trades, t.exitReason ≠ some .negativeFundingExit
  copies : ∀ t ∈ s.portfolio.activeTrades, t.legOutEvent = none
  legOutCount : s.portfolio.legOutCount = 0
  legOutTotalLoss : s.portfolio.legOutTotalLoss = 0

theorem blank_new (world : World) (startingCapital : ℚ) : Blank (.new world startingCapital) :=
  ⟨rfl,by simp [Runner.new],by simp [Runner.new,PortfolioState.new],rfl,rfl⟩

/-- An update that does not give the funding as a reason. -/
def Unmarked (f : PaperTrade → PaperTrade) : Prop :=
  ∀ t, t.exitReason ≠ some .negativeFundingExit → (f t).exitReason ≠ some .negativeFundingExit

/-- The requests that leave the runner blank. -/
def Sparing : RunnerOp → Prop
  | .getMut _ f => Unmarked f
  | .insert t => t.exitReason ≠ some .negativeFundingExit
  | .openTrade t => t.legOutEvent = none
  | _ => True

theorem mem_put {s : Runner} {slot : Nat} {trade t : PaperTrade}
    (h : t ∈ (s.put slot trade).trades) : t = trade ∨ t ∈ s.trades := by
  unfold Runner.put at h
  split at h
  · simp only [Runner.update,List.mem_map] at h
    obtain ⟨u,hu,rfl⟩ := h
    split
    · exact .inl rfl
    · exact .inr hu
  · simp only [List.mem_append,List.mem_cons] at h
    rcases h with h | h | h
    · exact .inr (List.mem_of_mem_take h)
    · exact .inl h
    · exact .inr (List.mem_of_mem_drop h)

theorem put_same (s : Runner) (slot : Nat) (trade : PaperTrade) :
    (s.put slot trade).trackers = s.trackers ∧ (s.put slot trade).portfolio = s.portfolio := by
  unfold Runner.put
  split <;> exact ⟨rfl,rfl⟩

/-- A portfolio whose trades have no leg-out counts none when one of them is closed. -/
theorem blank_close {s : Runner} (h : Blank s) (env : Surroundings) (id : TradeId) (profit : ℚ)
    (reason : ExitReason) : Blank ((runner env).serve (.closeTrade id profit reason) s).2 := by
  simp only [runner]
  rcases closeTrade_cases s.portfolio id profit reason (s.world.clock / 1000) with
    ⟨-,he⟩ | ⟨before,trade,after,hs,-,-,he⟩
  · rw [he]
    exact ⟨h.trackers,h.reasons,h.copies,h.legOutCount,h.legOutTotalLoss⟩
  · have hnone : trade.legOutEvent = none := h.copies trade (by simp [hs])
    rw [he]
    constructor
    case trackers => exact h.trackers
    case reasons => exact h.reasons
    case copies =>
      intro t ht
      refine h.copies t ?_
      rw [hs]
      simp only [List.mem_append,List.mem_cons] at ht ⊢
      exact ht.imp_right .inr
    case legOutCount => simp [PortfolioState.settle,hnone,h.legOutCount]
    case legOutTotalLoss => simp [PortfolioState.settle,hnone,h.legOutTotalLoss]

theorem blank_open {s : Runner} (h : Blank s) (env : Surroundings) {trade : PaperTrade}
    (ht : trade.legOutEvent = none) : Blank ((runner env).serve (.openTrade trade) s).2 := by
  simp only [runner]
  rcases openTrade_cases s.portfolio trade with ⟨-,he⟩ | ⟨-,he⟩
  · rw [he]
    exact ⟨h.trackers,h.reasons,h.copies,h.legOutCount,h.legOutTotalLoss⟩
  · rw [he]
    refine ⟨h.trackers,h.reasons,fun t hm => ?_,h.legOutCount,h.legOutTotalLoss⟩
    rcases List.mem_append.mp hm with hm | hm
    · exact h.copies t hm
    · exact List.mem_singleton.mp hm ▸ ht

theorem blank_serve (env : Surroundings) {op : RunnerOp} (hk : Sparing op) {s : Runner}
    (h : Blank s) : Blank ((runner env).serve op s).2 := by
  obtain ⟨htr,hre,hco,hcount,hloss⟩ := id h
  cases op with
  | getMut id f =>
    refine ⟨htr,fun t ht => ?_,hco,hcount,hloss⟩
    obtain ⟨u,hu,rfl⟩ := List.mem_map.mp ht
    split
    · exact hk u (hre u hu)
    · exact hre u hu
  | insert trade =>
    obtain ⟨htrackers,hportfolio⟩ := put_same s (env.slot s.world.tick) trade
    change Blank (s.put (env.slot s.world.tick) trade)
    rw [← htrackers] at htr
    rw [← hportfolio] at hco hcount hloss
    refine ⟨htr,fun t ht => ?_,hco,hcount,hloss⟩
    rcases mem_put ht with rfl | ht
    · exact hk
    · exact hre t ht
  | remove id => exact ⟨htr,fun t ht => hre t (List.mem_of_mem_filter ht),hco,hcount,hloss⟩
  | hold id =>
    simp only [runner]
    split
    · exact ⟨htr,hre,hco,hcount,hloss⟩
    · exact h
  | trackerMut symbol f => exact ⟨by simp [runner,htr],hre,hco,hcount,hloss⟩
  | openTrade trade => exact blank_open h env hk
  | closeTrade id profit reason => exact blank_close h env id profit reason
  | _ => exact ⟨htr,hre,hco,hcount,hloss⟩

section Programs

theorem unmarked_exitFor {reason : ExitReason} (hr : reason ≠ .negativeFundingExit) (spread : ℚ) :
    Unmarked (exitFor reason spread) :=
  fun _ _ he => hr (Option.some.inj he)

theorem unmarked_exitOnce (condition : Bool) {reason : ExitReason}
    (hr : reason ≠ .negativeFundingExit) (spread : ℚ) :
    Unmarked (exitOnce condition reason spread) := by
  intro t ht
  unfold exitOnce
  split
  · exact unmarked_exitFor hr spread t ht
  · exact ht

theorem unmarked_noteLegOut (ms : Nat) (longPrice shortPrice : ℚ) :
    Unmarked (noteLegOut ms longPrice shortPrice) := by
  intro t ht
  unfold noteLegOut
  dsimp only
  split <;> exact ht

theorem unmarked_paperExit (info : PaperTrade) (ms : Nat) (longPrice shortPrice fundingDelta : ℚ) :
    Unmarked (paperExit info ms longPrice shortPrice fundingDelta) := by
  intro t ht
  unfold paperExit
  apply unmarked_noteLegOut
  apply unmarked_exitOnce _ (by simp)
  apply unmarked_exitOnce _ (by simp)
  apply unmarked_exitOnce _ (by simp)
  apply unmarked_exitOnce _ (by simp)
  apply unmarked_exitOnce _ (by simp)
  split
  · exact unmarked_exitFor (by simp) _ t ht
  · exact ht

theorem Writes.unmarked {f : PaperTrade → PaperTrade} (h : Writes f) : Unmarked f := by
  cases h with
  | paper => exact unmarked_paperExit _ _ _ _ _
  | real h =>
    cases h with
    | exiting => exact fun _ ht => ht
    | mark h =>
      cases h with
      | marked reason hr =>
        refine unmarked_exitFor (fun he => ?_) _
        subst he
        exact hr
      | stopLoss => exact fun _ _ he => by simp at he

theorem Rounds.sparing {op : RunnerOp} (h : Rounds op) : Sparing op := by
  cases op with
  | getMut id f =>
    obtain ⟨_,-,hf⟩ := h
    exact Writes.unmarked hf
  | insert | openTrade =>
    obtain ⟨_,h⟩ := h
    cases h
  | _ => trivial

theorem Settling.sparing {op : RunnerOp} (h : Settling op) : Sparing op := by
  cases op <;> trivial

theorem Opening.sparing {op : RunnerOp} (h : Opening op) : Sparing op := by
  cases op with
  | insert t =>
    change t.exitReason ≠ some .negativeFundingExit
    rcases h.reason with hr | hr <;> simp [hr]
  | openTrade t => exact h.legOut
  | getMut => cases h
  | _ => trivial

end Programs

section Loop

variable {env : Surroundings} {s : Runner}

/-- A sparing step of a blank runner. -/
structure Mild (a : Runner) (op : RunnerOp) (b : Runner) : Prop where
  before : Blank a
  sparing : Sparing op
  after : Blank b

theorem mild_serve (env : Surroundings) {op : RunnerOp} (hk : Sparing op) (h : Blank s) :
    Mild s op ((runner env).serve op s).2 :=
  ⟨h,hk,blank_serve env hk h⟩

theorem blank_only {R : Runner → Runner → Prop} (hr : ∀ a b, R a b → Blank a → Blank b) {p : Run α}
    (hp : p.Only Sparing) (hs : Blank s) :
    (runner env).wpr R (fun _ _ => True) Mild p (fun _ v => Blank v) s :=
  wpr_invariant hr (fun _ _ hk _ h => ⟨mild_serve env hk h,blank_serve env hk h⟩) hp hs

/-- The other future leaves a blank runner blank. -/
def Spares (a b : Runner) : Prop := Blank a → Blank b

/-- Without a tracker there is nothing to do. -/
theorem checkNegativeFunding_blank (id : TradeId) (symbol : String) (hs : Blank s) :
    (runner env).wpr Spares (fun _ _ => True) Mild (checkNegativeFunding id symbol)
      (fun go v => go = true ∧ Blank v) s := by
  apply wpr_bind.mpr
  intro v hv _
  have hb := hv hs
  refine ⟨mild_serve env trivial hb,?_⟩
  have hnone : ((runner env).serve (.tracker symbol) v).1 = none := by simp [runner,hb.trackers]
  rw [hnone]
  exact ⟨rfl,hb⟩

theorem checkExit_blank (id : TradeId) (hs : Blank s) :
    (runner env).wpr Spares (fun _ _ => True) Mild (checkExit id) (fun _ v => Blank v) s := by
  have hget : ∀ s, Blank s →
      (runner env).wpr Spares (fun _ _ => True) Mild (getTrade id) (fun _ v => Blank v) s :=
    fun s hs => blank_only (fun _ _ h => h) ⟨trivial,fun _ => trivial⟩ hs
  refine wpr_bind.mpr (wpr_mono (hget s hs) (fun found v hv => ?_))
  cases found with
  | none => exact hv
  | some trade =>
    refine wpr_bind.mpr (wpr_mono (checkNegativeFunding_blank id trade.symbol hv)
      (fun go u hu => ?_))
    obtain ⟨rfl,hu⟩ := hu
    refine wpr_bind.mpr (wpr_mono (hget u hu) (fun found x hx => ?_))
    cases found with
    | none => exact hx
    | some found =>
      dsimp only
      split
      · exact blank_only (fun _ _ h => h)
          ((closeExiting_settling id trade.symbol).mono (fun _ => Settling.sparing)) hx
      · exact hx

theorem checkExits_blank (hs : Blank s) :
    (runner env).wpr Spares (fun _ _ => True) Mild checkExits (fun _ v => Blank v) s := by
  have hof : ∀ (ids : List TradeId) (s : Runner), Blank s →
      (runner env).wpr Spares (fun _ _ => True) Mild (checkExitsOf ids) (fun _ v => Blank v) s := by
    intro ids
    induction ids with
    | nil => exact fun s hs => hs
    | cons id ids ih =>
      intro s hs
      refine wpr_bind.mpr (wpr_mono (checkExit_blank id hs) (fun r v hv => ?_))
      cases r with
      | error e => exact hv
      | ok u => exact ih v hv
  have hids : (runner env).wpr Spares (fun _ _ => True) Mild tradeIds (fun _ v => Blank v) s :=
    blank_only (fun _ _ h => h) ⟨trivial,fun _ => trivial⟩ hs
  exact wpr_bind.mpr (wpr_mono hids (fun ids v hv => hof ids v hv))

theorem joinMonitors_blank (schedule : Nat → Bool) (hs : Blank s) :
    (runner env).wpr (· = ·) (fun _ _ => True) Mild (joinMonitors schedule) (fun _ v =>
      Blank v) s := by
  have hmonitor : (runner env).wpr Spares (fun _ _ => True) Mild monitorActivePositions (fun _ v =>
      Blank v) s :=
    blank_only (fun _ _ h => h) (monitorActivePositions_rounds.mono (fun _ h => Rounds.sparing h))
      hs
  refine wpr_mono (wpr_weaken (fun _ _ h => h) (fun _ _ _ h => h.elim id id)
    (wpr_join (fun _ h => h) (fun _ h => h) (fun _ _ _ h k hs => k (h hs)) (fun _ _ _ h k hs =>
      k (h hs)) (fun _ _ _ h _ => h.after) (fun _ _ _ h _ => h.after) (fun _ _ _ hr h => hr h)
      (fun _ _ _ hr h => hr h) monitorActivePositions checkExits none 0 s hmonitor
      (checkExits_blank hs))) ?_
  exact fun _ _ h => h.1

/-- The loop makes sparing steps only. -/
theorem loop_blank (inputs : Nat → Input) (n : Nat) (hs : Blank s) :
    (runner env).wpr (· = ·) (fun _ _ => True) Mild (runScanningLoop inputs n) (fun _ v =>
      Blank v) s := by
  have honly : ∀ {β : Type} {p : Run β}, p.Only Sparing → ∀ s, Blank s →
      (runner env).wpr (· = ·) (fun _ _ => True) Mild p (fun _ v => Blank v) s :=
    fun hp s hs => blank_only (R := (· = ·)) (fun _ _ h hb => h ▸ hb) hp hs
  refine wpr_loop inputs (fun input s hs => wpr_scanOnce input ?_ ?_ ?_ ?_ hs) n hs
  · exact honly ⟨trivial,fun _ => trivial⟩
  · exact fun opportunity =>
      honly ((executeOpportunity_opening opportunity).mono (fun _ h => Opening.sparing h))
  · exact honly ⟨trivial,fun _ => trivial⟩
  · exact fun schedule s hs => joinMonitors_blank schedule hs

theorem trace_mild (env : Surroundings) (world : World) (startingCapital : ℚ)
    (inputs : Nat → Input) (n : Nat) :
    ∀ step ∈ (runner env).trace (runScanningLoop inputs n) (.new world startingCapital),
      Blank step.1 ∧ Sparing step.2 :=
  Upholds.trace (S := fun s op => Blank s ∧ Sparing op)
    (upholds_of_wpr (fun _ _ _ h => ⟨h.before,h.sparing⟩)
    (loop_blank inputs n (blank_new world startingCapital)))

end Loop

end SpreadArb.Proofs.Origins
