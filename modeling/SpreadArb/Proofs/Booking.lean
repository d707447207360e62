import SpreadArb.Proofs.Origins
import SpreadArb.Proofs.Halt

namespace SpreadArb.Proofs.Booking
open Interact Machine Origins

/-- What an observer has seen of a run: the prices that were read last, and the spread at which the
exit of each trade was triggered. -/
structure Sightings where
  longPrice : ℚ
  shortPrice : ℚ
  trigger : TradeId → Option ℚ

namespace Sightings

def start : Sightings := ⟨0,0,fun _ => none⟩

def spread (g : Sightings) : ℚ := calculateSpreadBps g.longPrice g.shortPrice

end Sightings

/-- The update triggers the exit of the trade. -/
def triggers (s : Runner) (id : TradeId) (f : PaperTrade → PaperTrade) : Bool :=
  (s.lookup id).any (fun t => t.status ≠ .exiting && (f t).status = .exiting)

def observe (env : Surroundings) (g : Sightings) (s : Runner) : RunnerOp → Sightings
  | .quotes pair longExchange shortExchange =>
    match env.quotes s.world.tick pair longExchange shortExchange with
    | (some ask,some bid) => { g with longPrice := ask, shortPrice := bid }
    | _ => g
  | .getMut id f =>
    if triggers s id f then { g with
      trigger := fun i => if i = id then some g.spread else g.trigger i } else g
  | _ => g

/-- The runner and its observer. -/
abbrev watched (env : Surroundings) : Machine runnerSig (Runner × Sightings) :=
  (runner env).watch (observe env)

/-- The profit of a trade that leaves at this spread. -/
def profitAt (t : PaperTrade) (spread : ℚ) : ℚ :=
  (t.entrySpreadBps - spread - getExchangeTakerFee t.longExchange - getExchangeTakerFee
    t.shortExchange) / 10000 *
    t.positionSizeUsd

/-- The profit at the trigger, for a trade whose exit spread is set. -/
def profitAtTrigger (a : Runner × Sightings) (id : TradeId) : Option ℚ :=
  match a.1.lookup id, a.2.trigger id with
  | some t, some spread => if t.exitSpreadBps.isSome then some (profitAt t spread) else none
  | _, _ => none

/-- The profit passed to `close_trade` is the one at the trigger. -/
def BookedAtTrigger (a : Runner × Sightings) : RunnerOp → Prop
  | .closeTrade id profit _ => profitAtTrigger a id = some profit
  | _ => True

instance (a : Runner × Sightings) : (op : RunnerOp) → Decidable (BookedAtTrigger a op)
  | .closeTrade id profit _ => inferInstanceAs (Decidable (profitAtTrigger a id = some profit))
  | .backend .. | .tradeIds | .find _ | .get _ | .hold _ | .release _ | .getMut ..
  | .insert _ | .remove _
  | .quotes .. | .tracker _ | .trackerMut .. | .getFundingRates _ | .getAvailableCapital
  | .getStartingCapital
  | .openTrade _ | .resumeTrading | .backendName | .monitoring _ => .isTrue trivial

/-- No reason for an exit is on record. -/
def NoReason (t : PaperTrade) : Prop := t.exitReason = none ∨ t.exitReason = some .placeholder

/-- The exit check does not take up a trade that the monitor is at before a reason for its exit is
on record, no market order of the two partial-exit branches is refused, and the monitor does not
turn to a trade that is on its way out. -/
def Orderly (env : Surroundings) (a : Runner × Sightings) : RunnerOp → Prop
  | .hold id => a.1.monitored = some id → ∀ t, a.1.lookup id = some t → ¬NoReason t
  | .backend (.monitor _ .longExitFilled) (.placeMarketOrder _)
  | .backend (.monitor _ .shortExitFilled) (.placeMarketOrder _) =>
    (env.exchanges a.1.world.tick).failure = none
  | .monitoring (some id) => ∀ t, a.1.lookup id = some t → t.status ≠ .exiting
  | _ => True

section Invariants

/-- An exit that was triggered at a spread has it on record, or its pass is still under way. -/
structure Tracked (g : Sightings) (monitored : Option TradeId) (id : TradeId)
    (t : PaperTrade) : Prop where
  before : t.status ≠ .exiting → NoReason t
  after : t.status = .exiting → ∃ spread, g.trigger id = some spread ∧
    (t.exitSpreadBps = some spread ∨ NoReason t ∧ monitored = some id)

structure Joint (a : Runner × Sightings) : Prop where
  trackers : a.1.trackers = []
  trades : ∀ id t, a.1.lookup id = some t → Tracked a.2 a.1.monitored id t

/-- What the exit check does to the monitor: trades go. -/
structure Leaves (a b : Runner × Sightings) : Prop where
  trades : ∀ id t, b.1.lookup id = some t → a.1.lookup id = some t
  sightings : b.2 = a.2
  monitored : b.1.monitored = a.1.monitored
  trackers : a.1.trackers = [] → b.1.trackers = []

/-- What the monitor does to the exit check: records are kept, and an exit that was triggered is not
triggered again. -/
structure Moves (a b : Runner × Sightings) : Prop where
  joint : Joint a → Joint b
  kept : ∀ id t, a.1.lookup id = some t → ∃ t', b.1.lookup id = some t' ∧ Kept t t' ∧
    t'.entrySpreadBps = t.entrySpreadBps ∧
      (t.exitSpreadBps.isSome = true → t'.exitSpreadBps.isSome = true)
  trigger : ∀ id t, a.1.lookup id = some t → t.status = .exiting → b.2.trigger id = a.2.trigger id

theorem Leaves.refl (a : Runner × Sightings) : Leaves a a := ⟨fun _ _ h => h,rfl,rfl,fun h => h⟩

theorem Leaves.trans {a b c : Runner × Sightings} (h : Leaves a b) (k : Leaves b c) :
    Leaves a c where
  trades id t ht := h.trades id t (k.trades id t ht)
  sightings := k.sightings.trans h.sightings
  monitored := k.monitored.trans h.monitored
  trackers ht := k.trackers (h.trackers ht)

theorem Leaves.joint {a b : Runner × Sightings} (h : Leaves a b) (hj : Joint a) : Joint b where
  trackers := h.trackers hj.trackers
  trades id t ht := by
    rw [h.sightings,h.monitored]
    exact hj.trades id t (h.trades id t ht)

theorem Moves.refl (a : Runner × Sightings) : Moves a a :=
  ⟨fun h => h,fun _ t ht => ⟨t,ht,.refl t,rfl,fun h => h⟩,fun _ _ _ _ => rfl⟩

theorem Moves.trans {a b c : Runner × Sightings} (h : Moves a b) (k : Moves b c) : Moves a c where
  joint hj := k.joint (h.joint hj)
  kept id t ht := by
    obtain ⟨u,hu,hk,he,hs⟩ := h.kept id t ht
    obtain ⟨v,hv,hk',he',hs'⟩ := k.kept id u hu
    exact ⟨v,hv,hk.trans hk',he'.trans he,fun h => hs' (hs h)⟩
  trigger id t ht hx := by
    obtain ⟨u,hu,hk,-⟩ := h.kept id t ht
    exact (k.trigger id u hu (hk.exiting hx)).trans (h.trigger id t ht hx)

/-- Nothing that matters has changed. -/
structure Same (a b : Runner × Sightings) : Prop where
  trades : b.1.trades = a.1.trades
  sightings : b.2 = a.2
  monitored : b.1.monitored = a.1.monitored
  trackers : b.1.trackers = a.1.trackers

theorem Same.lookup {a b : Runner × Sightings} (h : Same a b) (id : TradeId) :
    b.1.lookup id = a.1.lookup id := by
  unfold Runner.lookup
  rw [h.trades]

theorem Same.leaves {a b : Runner × Sightings} (h : Same a b) : Leaves a b where
  trades id _ ht := h.lookup id ▸ ht
  sightings := h.sightings
  monitored := h.monitored
  trackers ht := h.trackers.trans ht

theorem Same.moves {a b : Runner × Sightings} (h : Same a b) : Moves a b where
  joint hj := h.leaves.joint hj
  kept id t ht := ⟨t,(h.lookup id).trans ht,.refl t,rfl,fun h => h⟩
  trigger _ _ _ _ := by rw [h.sightings]

/-- The requests that change nothing that matters. -/
def Idle : RunnerOp → Prop
  | .getMut .. | .insert _ | .remove _ | .quotes .. | .trackerMut .. | .monitoring _ => False
  | _ => True

theorem idle_same (env : Surroundings) (op : RunnerOp) (h : Idle op) (a : Runner × Sightings) :
    Same a ((watched env).serve op a).2 := by
  cases op with
  | getMut | insert | remove | quotes | trackerMut | monitoring => cases h
  | hold id =>
    simp only [Machine.watch,runner,observe]
    split <;> exact ⟨rfl,rfl,rfl,rfl⟩
  | openTrade t =>
    simp only [Machine.watch,runner,observe]
    split <;> exact ⟨rfl,rfl,rfl,rfl⟩
  | closeTrade id profit reason =>
    simp only [Machine.watch,runner,observe]
    split <;> exact ⟨rfl,rfl,rfl,rfl⟩
  | _ => exact ⟨rfl,rfl,rfl,rfl⟩

end Invariants

section Updates

variable {env : Surroundings} {id : TradeId} {spread : ℚ} {a : Runner × Sightings}

/-- What an update by a pass that saw this spread comes to. -/
structure Turn (spread : ℚ) (t t' : PaperTrade) : Prop where
  kept : Kept t t'
  entry : t'.entrySpreadBps = t.entrySpreadBps
  result : t'.status = t.status ∧ t'.exitReason = t.exitReason ∧
    t'.exitSpreadBps = t.exitSpreadBps ∨
    t'.status = .exiting ∧ t'.exitSpreadBps = some spread

theorem Turn.trans {t u v : PaperTrade} (h : Turn spread t u) (k : Turn spread u v) :
    Turn spread t v where
  kept := h.kept.trans k.kept
  entry := k.entry.trans h.entry
  result := by
    rcases k.result with ⟨hs,hr,hx⟩ | hk
    · rw [hs,hr,hx]
      exact h.result
    · exact .inr hk

theorem turn_exitFor {reason : ExitReason} (hr : reason ≠ .placeholder) (t : PaperTrade) :
    Turn spread t (exitFor reason spread t) :=
  ⟨kept_exitFor hr spread t,rfl,.inr ⟨rfl,rfl⟩⟩

theorem turn_refl (t : PaperTrade) : Turn spread t t := ⟨.refl t,rfl,.inl ⟨rfl,rfl,rfl⟩⟩

theorem turn_exitOnce (condition : Bool) {reason : ExitReason} (hr : reason ≠ .placeholder)
    (t : PaperTrade) : Turn spread t (exitOnce condition reason spread t) := by
  unfold exitOnce
  split
  · exact turn_exitFor hr t
  · exact turn_refl t

theorem turn_noteLegOut (ms : Nat) (longPrice shortPrice : ℚ) (t : PaperTrade) :
    Turn spread t (noteLegOut ms longPrice shortPrice t) := by
  refine ⟨kept_noteLegOut ms longPrice shortPrice t,?_,.inl ?_⟩
  · unfold noteLegOut
    dsimp only
    split <;> rfl
  · unfold noteLegOut
    dsimp only
    split <;> exact ⟨rfl,rfl,rfl⟩

theorem turn_paperExit (info : PaperTrade) (ms : Nat) (longPrice shortPrice fundingDelta : ℚ)
    (t : PaperTrade) :
    Turn (calculateSpreadBps longPrice shortPrice) t
      (paperExit info ms longPrice shortPrice fundingDelta t) := by
  unfold paperExit
  refine Turn.trans ?_ (turn_noteLegOut _ _ _ _)
  refine Turn.trans ?_ (turn_exitOnce _ (by simp) _)
  refine Turn.trans ?_ (turn_exitOnce _ (by simp) _)
  refine Turn.trans ?_ (turn_exitOnce _ (by simp) _)
  refine Turn.trans ?_ (turn_exitOnce _ (by simp) _)
  refine Turn.trans ?_ (turn_exitOnce _ (by simp) _)
  split
  · exact turn_exitFor (by simp) t
  · exact turn_refl t

theorem turn_mark {f : PaperTrade → PaperTrade} (h : Mark spread f) (t : PaperTrade) :
    Turn spread t (f t) := by
  refine ⟨h.tame t,?_,.inr ?_⟩
  · cases h <;> rfl
  · cases h <;> exact ⟨rfl,rfl⟩

/-- A pass over the trade `id` that saw this spread is under way. -/
structure Within (id : TradeId) (spread : ℚ) (a : Runner × Sightings) : Prop where
  joint : Joint a
  seen : a.2.spread = spread
  here : a.1.monitored = some id
  trigger : ∀ t, a.1.lookup id = some t → t.status = .exiting → a.2.trigger id = some spread

/-- The exit spread of the trade is on record, if it leaves. -/
structure Noted (id : TradeId) (spread : ℚ) (a : Runner × Sightings) :
    Prop extends Within id spread a where
  noted : ∀ t, a.1.lookup id = some t → t.status = .exiting → t.exitSpreadBps = some spread

theorem Within.leaves {b : Runner × Sightings} (h : Within id spread a) (k : Leaves a b) :
    Within id spread b where
  joint := k.joint h.joint
  seen := by rw [k.sightings,h.seen]
  here := k.monitored.trans h.here
  trigger t ht hx := by
    rw [k.sightings]
    exact h.trigger t (k.trades id t ht) hx

theorem Noted.leaves {b : Runner × Sightings} (h : Noted id spread a) (k : Leaves a b) :
    Noted id spread b where
  toWithin := h.toWithin.leaves k
  noted t ht hx := h.noted t (k.trades id t ht) hx

/-- The state after an update, trade by trade. -/
theorem update_lookup {f : PaperTrade → PaperTrade} (hf : Tame f) {i : TradeId} {t' : PaperTrade}
    (h : ((watched env).serve (.getMut id f) a).2.1.lookup i = some t') :
    ∃ t, a.1.lookup i = some t ∧ t' = if i = id then f t else t := by
  change (a.1.update id f).lookup i = some t' at h
  rw [lookup_update (fun t => (hf t).id_eq)] at h
  obtain ⟨t,ht,he⟩ := Option.map_eq_some_iff.mp h
  rw [lookup_id ht] at he
  exact ⟨t,ht,he.symm⟩

theorem update_sightings {f : PaperTrade → PaperTrade} {i : TradeId} (h : i ≠ id) :
    ((watched env).serve (.getMut id f) a).2.2.trigger i = a.2.trigger i := by
  change (observe env a.2 a.1 (.getMut id f)).trigger i = _
  unfold observe
  dsimp only
  split
  · simp [h]
  · rfl

theorem update_spread {f : PaperTrade → PaperTrade} :
    ((watched env).serve (.getMut id f) a).2.2.spread = a.2.spread := by
  change (observe env a.2 a.1 (.getMut id f)).spread = _
  unfold observe
  dsimp only
  split <;> rfl

/-- An exit that is under way keeps its trigger; a new one gets the spread that was seen last. -/
theorem update_trigger {f : PaperTrade → PaperTrade} {t : PaperTrade}
    (ht : a.1.lookup id = some t) :
    ((watched env).serve (.getMut id f) a).2.2.trigger id =
      if t.status ≠ .exiting ∧ (f t).status = .exiting then some a.2.spread
        else a.2.trigger id := by
  change (observe env a.2 a.1 (.getMut id f)).trigger id = _
  have htr : triggers a.1 id f =
      (decide (t.status ≠ .exiting) && decide ((f t).status = .exiting)) := by
    simp [triggers,ht]
  unfold observe
  dsimp only
  rw [htr]
  by_cases h : t.status ≠ .exiting ∧ (f t).status = .exiting
  · simp [h.1,h.2]
  · rw [if_neg h,if_neg (by simpa using h)]

/-- An update of a pass: a turn, or the bare status of a partial exit. -/
structure Step (spread : ℚ) (t t' : PaperTrade) : Prop where
  kept : Kept t t'
  entry : t'.entrySpreadBps = t.entrySpreadBps
  result : (t'.status = t.status ∨ t'.status = .exiting) ∧ t'.exitReason = t.exitReason ∧
      t'.exitSpreadBps = t.exitSpreadBps ∨
    t'.status = .exiting ∧ t'.exitSpreadBps = some spread

theorem Turn.step {t t' : PaperTrade} (h : Turn spread t t') : Step spread t t' where
  kept := h.kept
  entry := h.entry
  result := h.result.imp_left (fun hr => ⟨.inl hr.1,hr.2⟩)

theorem step_change {f : PaperTrade → PaperTrade} (h : Change spread f) (t : PaperTrade) :
    Step spread t (f t) := by
  cases h with
  | exiting => exact ⟨kept_setExiting t,rfl,.inl ⟨.inr rfl,rfl,rfl⟩⟩
  | mark h => exact (turn_mark h t).step

variable {f : PaperTrade → PaperTrade}

theorem triggered_within (h : Within id spread a) {t : PaperTrade} (ht : a.1.lookup id = some t)
    (hx : (f t).status = .exiting) :
    ((watched env).serve (.getMut id f) a).2.2.trigger id = some spread := by
  rw [update_trigger ht]
  by_cases hs : t.status = .exiting
  · rw [if_neg (by simp [hs])]
    exact h.trigger t ht hs
  · rw [if_pos ⟨hs,hx⟩,h.seen]

variable (hf : ∀ t, Step spread t (f t))

include hf

theorem tracked_within (h : Within id spread a) {t : PaperTrade} (ht : a.1.lookup id = some t) :
    Tracked ((watched env).serve (.getMut id f) a).2.2 (some id) id (f t) := by
  have hold := h.joint.trades id t ht
  rw [h.here] at hold
  rcases (hf t).result with ⟨hs,hr,hx⟩ | ⟨hs,hx⟩
  · constructor
    · intro hne
      have hne : t.status ≠ .exiting := fun he => hne ((hf t).kept.exiting he)
      simpa only [NoReason,hr] using hold.before hne
    · intro he
      refine ⟨spread,triggered_within h ht he,?_⟩
      by_cases hst : t.status = .exiting
      · obtain ⟨sp,hsp,hrec⟩ := hold.after hst
        rw [h.trigger t ht hst] at hsp
        obtain rfl := Option.some.inj hsp
        simpa only [NoReason,hr,hx] using hrec
      · refine .inr ⟨?_,rfl⟩
        simpa only [NoReason,hr] using hold.before hst
  · exact ⟨fun hne => absurd hs hne,fun he => ⟨spread,triggered_within h ht he,.inl hx⟩⟩

/-- A pass goes on after an update of its own. -/
theorem update_within (h : Within id spread a) :
    Within id spread ((watched env).serve (.getMut id f) a).2 where
  joint := by
    refine ⟨h.joint.trackers,fun i t' ht' => ?_⟩
    obtain ⟨t,ht,rfl⟩ := update_lookup (fun t => (hf t).kept) ht'
    have hmon : ((watched env).serve (.getMut id f) a).2.1.monitored = some id := h.here
    rw [hmon]
    by_cases hi : i = id
    · subst hi
      rw [if_pos rfl]
      exact tracked_within hf h ht
    · rw [if_neg hi]
      have hold := h.joint.trades i t ht
      rw [h.here] at hold
      refine ⟨hold.before,fun hx => ?_⟩
      rw [update_sightings hi]
      exact hold.after hx
  seen := by rw [update_spread,h.seen]
  here := h.here
  trigger := by
    intro t' ht' hx
    obtain ⟨t,ht,rfl⟩ := update_lookup (fun t => (hf t).kept) ht'
    rw [if_pos rfl] at hx
    exact triggered_within h ht hx

theorem update_moves (h : Within id spread a) :
    Moves a ((watched env).serve (.getMut id f) a).2 where
  joint _ := (update_within hf h).joint
  kept i t ht := by
    have hnew : ((watched env).serve (.getMut id f) a).2.1.lookup i =
        some (if t.id = id then f t else t) := by
      change (a.1.update id f).lookup i = _
      rw [lookup_update (fun t => (hf t).kept.id_eq),ht]
      rfl
    refine ⟨_,hnew,?_⟩
    split
    · refine ⟨(hf t).kept,(hf t).entry,fun hsome => ?_⟩
      rcases (hf t).result with ⟨-,-,hx⟩ | ⟨-,hx⟩
      · rwa [hx]
      · rw [hx]
        rfl
    · exact ⟨.refl t,rfl,fun h => h⟩
  trigger i t ht hx := by
    by_cases hi : i = id
    · subst hi
      rw [update_trigger ht,if_neg (by simp [hx])]
    · exact update_sightings hi

omit hf in
/-- A mark leaves the spread on record. -/
theorem mark_noted (hf : ∀ t, Turn spread t (f t)) (hm : ∀ t, (f t).exitSpreadBps = some spread)
    (h : Within id spread a) : Noted id spread ((watched env).serve (.getMut id f) a).2 where
  toWithin := update_within (fun t => (hf t).step) h
  noted := by
    intro t' ht' _
    obtain ⟨t,ht,rfl⟩ := update_lookup (fun t => (hf t).kept) ht'
    rw [if_pos rfl]
    exact hm t

omit hf in
theorem turn_noted (hf : ∀ t, Turn spread t (f t)) (h : Noted id spread a) :
    Noted id spread ((watched env).serve (.getMut id f) a).2 where
  toWithin := update_within (fun t => (hf t).step) h.toWithin
  noted := by
    intro t' ht' hx
    obtain ⟨t,ht,rfl⟩ := update_lookup (fun t => (hf t).kept) ht'
    rw [if_pos rfl] at hx ⊢
    rcases (hf t).result with ⟨hs,-,hsp⟩ | ⟨-,hsp⟩
    · rw [hsp]
      exact h.noted t ht (hs ▸ hx)
    · exact hsp

end Updates

section Passes

variable {env : Surroundings} {p : Pass} {a : Runner × Sightings}

/-- A step of the monitor. -/
def Guarded (a : Runner × Sightings) (op : RunnerOp) (b : Runner × Sightings) : Prop :=
  Moves a b ∧ BookedAtTrigger a op

/-- The monitor among the steps of the exit check. -/
abbrev monitors (env : Surroundings) (x : Run α) (Q : α → Runner × Sightings → Prop)
    (a : Runner × Sightings) : Prop :=
  (watched env).wpr Leaves (Orderly env) Guarded x Q a

theorem acting_guarded {op : RunnerOp} (hk : Acting p op) (h : Within p.trade p.spreadBps a) :
    Guarded a op ((watched env).serve op a).2 ∧
      Within p.trade p.spreadBps ((watched env).serve op a).2 := by
  cases op with
  | backend caller op =>
    have hsame := idle_same env (.backend caller op) trivial a
    exact ⟨⟨hsame.moves,trivial⟩,h.leaves hsame.leaves⟩
  | get id =>
    have hsame := idle_same env (.get id) trivial a
    exact ⟨⟨hsame.moves,trivial⟩,h.leaves hsame.leaves⟩
  | getMut id f =>
    obtain ⟨rfl,hf⟩ := hk
    exact ⟨⟨update_moves (step_change hf) h,trivial⟩,update_within (step_change hf) h⟩
  | _ => cases hk

theorem acting_within {x : Run α} (hx : x.Only (Acting p)) (h : Within p.trade p.spreadBps a) :
    monitors env x (fun _ b => Within p.trade p.spreadBps b) a :=
  wpr_invariant (fun _ _ k h => h.leaves k) (fun _ _ hk _ h => acting_guarded hk h) hx h

theorem marking_noted {x : Run α} (hx : x.Only (Marking p)) (h : Noted p.trade p.spreadBps a) :
    monitors env x (fun _ b => Noted p.trade p.spreadBps b) a := by
  refine wpr_invariant (fun _ _ k h => h.leaves k) (fun op b hk _ h => ?_) hx h
  refine ⟨(acting_guarded hk.acting h.toWithin).1,?_⟩
  cases op with
  | backend caller op => exact h.leaves (idle_same env (.backend caller op) trivial b).leaves
  | get id => exact h.leaves (idle_same env (.get id) trivial b).leaves
  | getMut id f =>
    obtain ⟨rfl,hf⟩ := hk
    exact turn_noted (turn_mark hf) h
  | _ => cases hk

theorem markExiting_noted {reason : ExitReason} (hr : OfMonitor reason)
    (h : Within p.trade p.spreadBps a) :
    monitors env (markExiting p reason) (fun _ b => Noted p.trade p.spreadBps b) a := by
  intro b hb _
  have hw := h.leaves hb
  have hmark : Mark p.spreadBps (exitFor reason p.spreadBps) := .marked reason hr
  exact ⟨⟨update_moves (step_change (.mark hmark)) hw,trivial⟩,
    mark_noted (turn_mark hmark) (fun _ => rfl) hw⟩

/-- A market order of a partial exit is not refused. -/
theorem marketClose_ok {branch : Branch} (hb : branch = .longExitFilled ∨ branch = .shortExitFilled)
    (leg : OrderSide) (size : ℚ) (h : Within p.trade p.spreadBps a) :
    monitors env (marketClose branch p leg size) (fun r b => (∃ o, r = .ok o) ∧
      Within p.trade p.spreadBps b) a := by
  refine wpr_bind.mpr (wpr_mono (acting_within (marking_acting (passSecs_marking branch p)) h) ?_)
  intro secs b hw c hc horderly
  have hw := hw.leaves hc
  have hok : (env.exchanges c.1.world.tick).failure = none := by
    rcases hb with rfl | rfl <;> exact horderly
  have hacting : Acting p (.backend (.monitor p.trade branch)
      (.placeMarketOrder (p.closeOrder leg .market (p.price leg) size secs))) := ⟨rfl,trivial⟩
  obtain ⟨hg,hw'⟩ := acting_guarded hacting hw
  refine ⟨hg,?_,hw'⟩
  simp [Machine.watch,runner,exchanges,World.serveMarket,hok]

/-- No trade, no exit. -/
theorem noted_gone {id : TradeId} {spread : ℚ} (h : Within id spread a)
    (hnone : a.1.lookup id = none) : Noted id spread a where
  toWithin := h
  noted t ht := by
    rw [hnone] at ht
    cases ht

theorem hedgeRest_noted (shortQuantity totalFilled : ℚ) (h : Within p.trade p.spreadBps a) :
    monitors env (hedgeRest p shortQuantity totalFilled) (fun _ b =>
      Noted p.trade p.spreadBps b) a := by
  unfold hedgeRest
  split
  · exact markExiting_noted trivial h
  · refine wpr_bind.mpr (wpr_mono (marketClose_ok (.inl rfl) .short _ h) ?_)
    rintro r b ⟨⟨o,rfl⟩,hw⟩
    exact markExiting_noted trivial hw

theorem smartLimit_noted (price remaining totalFilled : ℚ) (h : Within p.trade p.spreadBps a) :
    monitors env (smartLimit p price remaining totalFilled)
      (fun r b => Within p.trade p.spreadBps b ∧ (r = none → Noted p.trade p.spreadBps b)) a := by
  have hcall : ∀ {op : BackendOp} {b : Runner × Sightings}, PassRequest op →
      Within p.trade p.spreadBps b →
      monitors env (passCall .longExitFilled p op) (fun _ c => Within p.trade p.spreadBps c) b :=
    fun hop hw => acting_within (marking_acting (passCall_marking _ p hop)) hw
  refine wpr_bind.mpr (wpr_mono (acting_within (marking_acting (passSecs_marking _ p)) h)
    (fun secs b hb => ?_))
  refine wpr_bind.mpr (wpr_mono (hcall trivial hb) (fun placed b hb => ?_))
  cases placed with
  | error e => exact ⟨hb,fun he => by cases he⟩
  | ok order =>
    refine wpr_bind.mpr (wpr_mono (hcall trivial hb) (fun _ b hb => ?_))
    refine wpr_bind.mpr (wpr_mono (hcall trivial hb) (fun status b hb => ?_))
    cases status with
    | error e =>
      refine wpr_bind.mpr (wpr_mono (hcall trivial hb) (fun _ b hb => ?_))
      exact ⟨hb,fun he => by cases he⟩
    | ok info =>
      dsimp only
      split
      · refine wpr_bind.mpr (wpr_mono (markExiting_noted trivial hb) (fun _ b hb => ?_))
        exact ⟨hb.toWithin,fun _ => hb⟩
      · refine wpr_bind.mpr (wpr_mono (hcall trivial hb) (fun _ b hb => ?_))
        exact ⟨hb,fun he => by cases he⟩

/-- A trade that is no longer there has nothing to put on record. -/
theorem getTrade_within (h : Within p.trade p.spreadBps a) :
    monitors env (getTrade p.trade)
      (fun r b => Within p.trade p.spreadBps b ∧ (r = none → Noted p.trade p.spreadBps b)) a := by
  intro b hb _
  have hsame := idle_same env (.get p.trade) trivial b
  have hw := (h.leaves hb).leaves hsame.leaves
  exact ⟨⟨hsame.moves,trivial⟩,hw,fun hnone => noted_gone hw hnone⟩

theorem hedgeShortExit_noted (h : Within p.trade p.spreadBps a) :
    monitors env (hedgeShortExit p) (fun _ b => Noted p.trade p.spreadBps b) a := by
  refine wpr_bind.mpr (wpr_mono (acting_within (setExiting_acting p) h) (fun _ b hb => ?_))
  refine wpr_bind.mpr (wpr_mono (getTrade_within hb) ?_)
  rintro found b ⟨hb,hgone⟩
  cases found with
  | none => exact hgone rfl
  | some trade =>
    refine wpr_bind.mpr (wpr_mono
      (acting_within (marking_acting (cancelAndRead_marking _ p _)) hb) ?_)
    intro totalFilled b hb
    dsimp only
    split
    · exact markExiting_noted trivial hb
    · refine wpr_bind.mpr (wpr_mono
        (acting_within (marking_acting (passCall_marking _ p trivial)) hb) ?_)
      intro book b hb
      cases book with
      | error e => exact hedgeRest_noted _ _ hb
      | ok book =>
        dsimp only
        split
        · refine wpr_bind.mpr (wpr_mono (smartLimit_noted _ _ _ hb) ?_)
          rintro total b ⟨hb,hnoted⟩
          cases total with
          | none => exact hnoted rfl
          | some total => exact hedgeRest_noted _ _ hb
        · exact hedgeRest_noted _ _ hb

theorem instantHedge_noted (longQuantity : ℚ) (h : Within p.trade p.spreadBps a) :
    monitors env (instantHedge p longQuantity) (fun _ b => Noted p.trade p.spreadBps b) a := by
  refine wpr_bind.mpr (wpr_mono (marketClose_ok (.inr rfl) .long _ h) ?_)
  rintro r b ⟨⟨o,rfl⟩,hw⟩
  exact markExiting_noted trivial hw

theorem intelligentLimit_noted (price longQuantity : ℚ) (wait : Nat)
    (h : Within p.trade p.spreadBps a) :
    monitors env (intelligentLimit p price longQuantity wait) (fun _ b =>
      Noted p.trade p.spreadBps b) a := by
  have hcall : ∀ {op : BackendOp} {b : Runner × Sightings}, PassRequest op →
      Within p.trade p.spreadBps b →
      monitors env (passCall .shortExitFilled p op) (fun _ c => Within p.trade p.spreadBps c) b :=
    fun hop hw => acting_within (marking_acting (passCall_marking _ p hop)) hw
  refine wpr_bind.mpr (wpr_mono (acting_within (marking_acting (passSecs_marking _ p)) h)
    (fun secs b hb => ?_))
  refine wpr_bind.mpr (wpr_mono (hcall trivial hb) (fun placed b hb => ?_))
  cases placed with
  | error e => exact instantHedge_noted _ hb
  | ok order =>
    refine wpr_bind.mpr (wpr_mono (hcall trivial hb) (fun _ b hb => ?_))
    refine wpr_bind.mpr (wpr_mono (hcall trivial hb) (fun status b hb => ?_))
    cases status with
    | error e =>
      exact wpr_bind.mpr (wpr_mono (hcall trivial hb) (fun _ b hb => instantHedge_noted _ hb))
    | ok info =>
      dsimp only
      split
      · exact markExiting_noted trivial hb
      · split
        · refine wpr_bind.mpr (wpr_mono (hcall trivial hb) (fun _ b hb => ?_))
          refine wpr_bind.mpr (wpr_mono (marketClose_ok (.inr rfl) .long _ hb) (fun _ b hb => ?_))
          exact markExiting_noted trivial hb.2
        · exact wpr_bind.mpr (wpr_mono (hcall trivial hb) (fun _ b hb => instantHedge_noted _ hb))

theorem hedgeLongExit_noted (h : Within p.trade p.spreadBps a) :
    monitors env (hedgeLongExit p) (fun _ b => Noted p.trade p.spreadBps b) a := by
  refine wpr_bind.mpr (wpr_mono (acting_within (setExiting_acting p) h) (fun _ b hb => ?_))
  refine wpr_bind.mpr (wpr_mono (getTrade_within hb) ?_)
  rintro found b ⟨hb,hgone⟩
  cases found with
  | none => exact hgone rfl
  | some trade =>
    refine wpr_bind.mpr (wpr_mono (acting_within (marking_acting (cancelLongExit_marking p)) hb)
      (fun _ b hb => ?_))
    refine wpr_bind.mpr (wpr_mono
      (acting_within (marking_acting (passCall_marking _ p trivial)) hb) ?_)
    intro book b hb
    cases book with
    | error e =>
      refine wpr_bind.mpr (wpr_mono (marketClose_ok (.inr rfl) .long _ hb) (fun _ b hb => ?_))
      exact markExiting_noted trivial hb.2
    | ok book =>
      dsimp only
      split
      · exact intelligentLimit_noted _ _ _ hb
      · exact instantHedge_noted _ hb

/-- A pass over a real trade leaves the spread of its exit on record. -/
theorem monitorReal_noted (info : PaperTrade) (h : Noted p.trade p.spreadBps a) :
    monitors env (monitorReal info p) (fun _ b => Noted p.trade p.spreadBps b) a := by
  refine wpr_bind.mpr (wpr_mono (marking_noted (exitFilled_marking _ p .long) h)
    (fun long b hb => ?_))
  refine wpr_bind.mpr (wpr_mono (marking_noted (exitFilled_marking _ p .short) hb)
    (fun short b hb => ?_))
  cases long <;> cases short
  · refine wpr_bind.mpr (wpr_mono (marking_noted (checkTimeout_marking p) hb)
      (fun clock b hb => ?_))
    cases clock with
    | gone => exact hb
    | timedOut trade => exact marking_noted (forceClose_marking p _ _) hb
    | young =>
      dsimp only
      split
      · exact marking_noted (stopLossExit_marking p) hb
      · exact hb
  · exact hedgeLongExit_noted hb.toWithin
  · exact hedgeShortExit_noted hb.toWithin
  · exact markExiting_noted trivial hb.toWithin

/-- The monitor is at a trade that is not on its way out. -/
structure Outset (id : TradeId) (a : Runner × Sightings) : Prop where
  joint : Joint a
  here : a.1.monitored = some id
  open_ : ∀ t, a.1.lookup id = some t → t.status ≠ .exiting

theorem Outset.leaves {id : TradeId} {b : Runner × Sightings} (h : Outset id a) (k : Leaves a b) :
    Outset id b where
  joint := k.joint h.joint
  here := k.monitored.trans h.here
  open_ t ht := h.open_ t (k.trades id t ht)

theorem Outset.noted {id : TradeId} {spread : ℚ} (h : Outset id a) (hs : a.2.spread = spread) :
    Noted id spread a where
  joint := h.joint
  seen := hs
  here := h.here
  trigger t ht hx := absurd hx (h.open_ t ht)
  noted t ht hx := absurd hx (h.open_ t ht)

/-- A request that changes nothing that matters, in a pass. -/
theorem idle_monitors {P : Runner × Sightings → Prop} (hkeep : ∀ {a b}, P a → Leaves a b → P b)
    (op : RunnerOp) (hop : Idle op) (hbook : ∀ a, BookedAtTrigger a op) (h : P a) :
    monitors env (.call op .ret) (fun _ b => P b) a := by
  intro b hb _
  have hsame := idle_same env op hop b
  exact ⟨⟨hsame.moves,hbook b⟩,hkeep (hkeep h hb) hsame.leaves⟩

theorem quotes_trigger (g : Sightings) (s : Runner) (pair long short : String) :
    (observe env g s (.quotes pair long short)).trigger = g.trigger := by
  unfold observe
  dsimp only
  split <;> rfl

/-- A look at the prices moves no trade. -/
theorem quotes_joint {g : Sightings} {s : Runner} (pair long short : String) (h : Joint (s,g)) :
    Joint (s,observe env g s (.quotes pair long short)) := by
  refine ⟨h.trackers,fun id t ht => ⟨(h.trades id t ht).before,fun hx => ?_⟩⟩
  rw [quotes_trigger]
  exact (h.trades id t ht).after hx

theorem quotes_moves (pair long short : String) (a : Runner × Sightings) :
    Moves a ((watched env).serve (.quotes pair long short) a).2 where
  joint h := quotes_joint pair long short h
  kept _ t ht := ⟨t,ht,.refl t,rfl,fun h => h⟩
  trigger id _ _ _ := congrFun (quotes_trigger a.2 a.1 pair long short) id

/-- The prices that a pass goes by are those that were read last. -/
theorem getCurrentPrices_outset {id : TradeId} (pair : String) (h : Outset id a) :
    monitors env (getCurrentPrices pair) (fun r b => Outset id b ∧
      ∀ prices, r = .ok prices → b.2.spread = calculateSpreadBps prices.1 prices.2) a := by
  refine wpr_bind.mpr (wpr_mono (idle_monitors Outset.leaves (.find _) trivial (fun _ => trivial) h)
    (fun found b hb => ?_))
  cases found with
  | none => exact ⟨hb,fun prices hp => by cases hp⟩
  | some trade =>
    apply wpr_bind.mpr
    intro c hc _
    have hout := hb.leaves hc
    refine ⟨⟨quotes_moves _ _ _ c,trivial⟩,?_⟩
    have hnew : Outset id (c.1,
        observe env c.2 c.1 (.quotes pair trade.longExchange trade.shortExchange)) :=
      ⟨quotes_joint _ _ _ hout.joint,hout.here,hout.open_⟩
    have hanswer : ((watched env).serve (.quotes pair trade.longExchange trade.shortExchange) c).1 =
        env.quotes c.1.world.tick pair trade.longExchange trade.shortExchange := rfl
    rw [hanswer]
    cases hq : env.quotes c.1.world.tick pair trade.longExchange trade.shortExchange with
    | mk long short =>
      cases long with
      | none => exact ⟨hnew,fun prices hp => by cases hp⟩
      | some ask =>
        cases short with
        | none => exact ⟨hnew,fun prices hp => by cases hp⟩
        | some bid =>
          apply wpr_ret.mpr
          dsimp only
          split
          · exact ⟨hnew,fun prices hp => by cases hp⟩
          · refine ⟨hnew,fun prices hp => ?_⟩
            cases hp
            change (observe env c.2 c.1
              (.quotes pair trade.longExchange trade.shortExchange)).spread = _
            simp [observe,hq,Sightings.spread]

/-- The pass has left the spread of the exit on record, if there is one. -/
def Settled (id : TradeId) (a : Runner × Sightings) : Prop := ∃ spread, Noted id spread a

theorem Outset.settled {id : TradeId} (h : Outset id a) : Settled id a := ⟨_,h.noted rfl⟩

theorem monitorPaper_settled (id : TradeId) (info : PaperTrade) (h : Outset id a) :
    monitors env (monitorPaper id info) (fun _ b => Settled id b) a := by
  refine wpr_bind.mpr (wpr_mono (getCurrentPrices_outset info.symbol h) (fun prices b hb => ?_))
  obtain ⟨hb,hprices⟩ := hb
  cases prices with
  | error e => exact hb.settled
  | ok prices =>
    have hnoted := hb.noted (hprices prices rfl)
    refine wpr_bind.mpr (wpr_mono
      (idle_monitors Noted.leaves (.get id) trivial (fun _ => trivial) hnoted) (fun _ b hb => ?_))
    refine wpr_bind.mpr (wpr_mono
      (idle_monitors Noted.leaves (.backend (.monitor id .checks) .now) trivial
      (fun _ => trivial) hb) (fun ms b hb => ?_))
    apply wpr_bind.mpr
    intro c hc _
    have hc := hb.leaves hc
    have hturn := turn_paperExit info ms prices.1 prices.2
    exact ⟨⟨update_moves (fun t => (hturn _ t).step) hc.toWithin,trivial⟩,_,turn_noted (hturn _) hc⟩

theorem monitorTrade_settled (real : Bool) (id : TradeId) (h : Outset id a) :
    monitors env (monitorTrade real id) (fun _ b => Settled id b) a := by
  have hget : ∀ b, Outset id b → monitors env (getTrade id) (fun _ c => Outset id c) b :=
    fun b hb => idle_monitors Outset.leaves (.get id) trivial (fun _ => trivial) hb
  refine wpr_bind.mpr (wpr_mono (hget a h) (fun found b hb => ?_))
  cases found with
  | none => exact hb.settled
  | some info =>
    refine wpr_bind.mpr (wpr_mono (getCurrentPrices_outset info.symbol hb) (fun prices b hb => ?_))
    obtain ⟨hb,hprices⟩ := hb
    cases prices with
    | error e => exact hb.settled
    | ok prices =>
      dsimp only
      split
      · have hnoted := hb.noted (hprices prices rfl)
        refine wpr_bind.mpr (wpr_mono
          (idle_monitors Noted.leaves (.get id) trivial (fun _ => trivial) hnoted) ?_)
        intro found b hb
        cases found with
        | none => exact ⟨_,hb⟩
        | some trade =>
          refine wpr_bind.mpr (wpr_mono
            (monitorReal_noted (p := passOver id info trade prices.1 prices.2) info hb) ?_)
          exact fun _ b hb => ⟨_,hb⟩
      · exact monitorPaper_settled id info hb

/-- Between two passes. -/
structure Rest (a : Runner × Sightings) : Prop where
  joint : Joint a
  idle : a.1.monitored = none

theorem Rest.leaves {b : Runner × Sightings} (h : Rest a) (k : Leaves a b) : Rest b :=
  ⟨k.joint h.joint,k.monitored.trans h.idle⟩

theorem monitoring_moves {m : Option TradeId}
    (h : Joint ((watched env).serve (.monitoring m) a).2) :
    Moves a ((watched env).serve (.monitoring m) a).2 :=
  ⟨fun _ => h,fun _ t ht => ⟨t,ht,.refl t,rfl,fun h => h⟩,fun _ _ _ _ => rfl⟩

theorem monitorPass_rest (real : Bool) (id : TradeId) (h : Rest a) :
    monitors env (monitorPass real id) (fun _ b => Rest b) a := by
  apply wpr_bind.mpr
  intro b hb horderly
  have hrest := h.leaves hb
  -- between two passes every exit has its spread on record
  have hjoint : Joint ((watched env).serve (.monitoring (some id)) b).2 := by
    refine ⟨hrest.joint.trackers,fun i t ht => ?_⟩
    have hold := hrest.joint.trades i t ht
    rw [hrest.idle] at hold
    refine ⟨hold.before,fun hx => ?_⟩
    obtain ⟨spread,hsp,hrec⟩ := hold.after hx
    exact ⟨spread,hsp,.inl (hrec.resolve_right (fun hr => by cases hr.2))⟩
  refine ⟨⟨monitoring_moves hjoint,trivial⟩,wpr_ret.mpr (wpr_bind.mpr ?_)⟩
  refine wpr_mono (monitorTrade_settled real id ⟨hjoint,rfl,horderly⟩) ?_
  rintro result c ⟨spread,hc⟩
  apply wpr_bind.mpr
  intro d hd _
  have hnoted := hc.leaves hd
  have hdone : Joint ((watched env).serve (.monitoring none) d).2 := by
    refine ⟨hnoted.joint.trackers,fun i t ht => ?_⟩
    have hold := hnoted.joint.trades i t ht
    rw [hnoted.here] at hold
    refine ⟨hold.before,fun hx => ?_⟩
    obtain ⟨sp,hsp,hrec⟩ := hold.after hx
    refine ⟨sp,hsp,.inl ?_⟩
    by_cases hi : i = id
    · subst hi
      rw [hnoted.trigger t ht hx] at hsp
      exact Option.some.inj hsp ▸ hnoted.noted t ht hx
    · exact hrec.resolve_right (fun hr => hi (Option.some.inj hr.2).symm)
  exact ⟨⟨monitoring_moves hdone,trivial⟩,hdone,rfl⟩

theorem monitorActivePositions_rest (h : Rest a) :
    monitors env monitorActivePositions (fun _ b => Rest b) a := by
  have htrades : ∀ (real : Bool) (ids : List TradeId) (a : Runner × Sightings), Rest a →
      monitors env (monitorTrades real ids) (fun _ b => Rest b) a := by
    intro real ids
    induction ids with
    | nil => exact fun a h => h
    | cons id ids ih =>
      intro a h
      refine wpr_bind.mpr (wpr_mono (monitorPass_rest real id h) (fun r b hb => ?_))
      cases r with
      | error e => exact hb
      | ok u => exact ih b hb
  refine wpr_bind.mpr (wpr_mono (idle_monitors Rest.leaves (.tradeIds) trivial (fun _ => trivial) h)
    (fun ids b hb => ?_))
  have hreal : monitors env isRealTrading (fun _ c => Rest c) b :=
    wpr_bind.mpr (wpr_mono (idle_monitors Rest.leaves (.backendName) trivial (fun _ => trivial) hb)
      (fun _ c hc => hc))
  exact wpr_bind.mpr (wpr_mono hreal (fun real c hc => htrades real ids c hc))

end Passes

section Checks

variable {env : Surroundings} {a : Runner × Sightings}

/-- A step of the exit check. -/
def Trimming (a : Runner × Sightings) (op : RunnerOp) (b : Runner × Sightings) : Prop :=
  Leaves a b ∧ BookedAtTrigger a op

/-- The exit check among the steps of the monitor. -/
abbrev checks (env : Surroundings) (x : Run α) (Q : α → Runner × Sightings → Prop)
    (a : Runner × Sightings) : Prop :=
  (watched env).wpr Moves (Orderly env) Trimming x Q a

/-- The trade is in the map and on its way out. -/
structure Going (id : TradeId) (a : Runner × Sightings) : Prop where
  joint : Joint a
  exits : ∃ t, a.1.lookup id = some t ∧ t.status = .exiting

theorem Going.moves {id : TradeId} {b : Runner × Sightings} (h : Going id a)
    (k : Moves a b) : Going id b := by
  obtain ⟨t,ht,hx⟩ := h.exits
  obtain ⟨t',ht',hk,-⟩ := k.kept id t ht
  exact ⟨k.joint h.joint,t',ht',hk.exiting hx⟩

/-- The steps of the exit check other than its closes. -/
def Trims : RunnerOp → Prop
  | .remove _ | .trackerMut .. => True
  | .closeTrade .. => False
  | op => Idle op

theorem trims_leaves (env : Surroundings) {op : RunnerOp} (h : Trims op) (a : Runner × Sightings) :
    Trimming a op ((watched env).serve op a).2 := by
  cases op with
  | remove id =>
    refine ⟨⟨fun i t ht => ?_,rfl,rfl,fun h => h⟩,trivial⟩
    change (a.1.erase id).lookup i = some t at ht
    rw [lookup_erase] at ht
    split at ht
    · cases ht
    · exact ht
  | trackerMut symbol f =>
    exact ⟨⟨fun _ _ h => h,rfl,rfl,fun h => by simp [Machine.watch,runner,h]⟩,trivial⟩
  | closeTrade | getMut | insert | quotes | monitoring => cases h
  | _ => exact ⟨(idle_same env _ (by trivial) a).leaves,trivial⟩

/-- The exit check keeps the books in order. -/
theorem trims_joint {x : Run α} (hx : x.Only Trims) (h : Joint a) :
    checks env x (fun _ b => Joint b) a :=
  wpr_invariant (fun _ _ k h => k.joint h)
    (fun _ b hk _ h => ⟨trims_leaves env hk b,(trims_leaves env hk b).1.joint h⟩) hx h

/-- The exit check holds a trade as it read it, and its profit is the one at the trigger. -/
structure Holding (id : TradeId) (trade : PaperTrade) (a : Runner × Sightings) : Prop where
  joint : Joint a
  profit : profitAtTrigger a id = some (actualProfit trade)
  exits : Exits id a.1

theorem Holding.moves {id : TradeId} {trade : PaperTrade} {b : Runner × Sightings}
    (h : Holding id trade a) (k : Moves a b) : Holding id trade b := by
  have hp := h.profit
  unfold profitAtTrigger at hp
  split at hp
  case h_2 => cases hp
  case h_1 t spread ht hspread =>
    split at hp
    case isFalse => cases hp
    case isTrue hsome =>
      obtain ⟨t',ht',hk,hentry,hx⟩ := k.kept id t ht
      have htrigger : b.2.trigger id = some spread :=
        (k.trigger id t ht (h.exits t ht)).trans hspread
      refine ⟨k.joint h.joint,?_,fun u hu => ?_⟩
      · unfold profitAtTrigger
        rw [ht',htrigger]
        dsimp only
        rw [if_pos (hx hsome),← hp]
        simp only [profitAt,hentry,hk.size,hk.orders.longExchange,hk.orders.shortExchange]
      · rw [ht'] at hu
        obtain rfl := Option.some.inj hu
        exact hk.exiting (h.exits t ht)

/-- A trade that the exit check takes up has the spread of its trigger on record. -/
theorem hold_going {id : TradeId} (h : Going id a) (ho : Orderly env a (.hold id)) :
    ∃ trade, a.1.lookup id = some trade ∧ Holding id trade a := by
  obtain ⟨t,ht,hx⟩ := h.exits
  obtain ⟨spread,hsp,hrec⟩ := (h.joint.trades id t ht).after hx
  have hset : t.exitSpreadBps = some spread := by
    rcases hrec with hset | ⟨hno,hmon⟩
    · exact hset
    · exact absurd hno (ho hmon t ht)
  refine ⟨t,ht,h.joint,?_,fun u hu => ?_⟩
  · unfold profitAtTrigger
    rw [ht,hsp]
    dsimp only
    rw [if_pos (by simp [hset])]
    simp only [profitAt,actualProfit,hset,Option.getD_some,Option.some.injEq]
    ring
  · rw [ht] at hu
    obtain rfl := Option.some.inj hu
    exact hx

theorem cleaning_holding {id : TradeId} {trade : PaperTrade} {x : Run α} (hx : x.Only Cleaning)
    (h : Holding id trade a) : checks env x (fun _ b => Holding id trade b) a := by
  refine wpr_invariant (fun _ _ k h => h.moves k) (fun op b hk _ h => ?_) hx h
  cases op with
  | backend caller op =>
    have hsame := idle_same env (.backend caller op) trivial b
    exact ⟨⟨hsame.leaves,trivial⟩,h.moves hsame.moves⟩
  | _ => cases hk

theorem closeExiting_joint {id : TradeId} (symbol : String) (h : Going id a) :
    checks env (closeExiting id symbol) (fun _ b => Joint b) a := by
  apply wpr_bind.mpr
  intro b hb horderly
  obtain ⟨trade,ht,hholding⟩ := hold_going (h.moves hb) horderly
  have hsame := idle_same env (.hold id) trivial b
  refine ⟨⟨hsame.leaves,trivial⟩,?_⟩
  have hanswer : ((watched env).serve (.hold id) b).1 = some trade := ht
  rw [hanswer]
  apply wpr_ret.mpr
  refine wpr_bind.mpr (wpr_mono
    (cleaning_holding (cleanupExit_cleaning _ _ _) (hholding.moves hsame.moves)) ?_)
  intro _ c hc
  refine wpr_bind.mpr (wpr_mono (cleaning_holding (cleanupExit_cleaning _ _ _) hc)
    (fun _ d hd => ?_))
  apply wpr_bind.mpr
  intro e he _
  have hholds := hd.moves he
  have hsame := idle_same env
    (.closeTrade id (actualProfit trade) (trade.exitReason.getD .manualExit)) trivial e
  refine ⟨⟨hsame.leaves,hholds.profit⟩,wpr_ret.mpr ?_⟩
  have hjoint := hsame.leaves.joint hholds.joint
  generalize ((watched env).serve
    (.closeTrade id (actualProfit trade) (trade.exitReason.getD .manualExit)) e) = out at hjoint
  obtain ⟨answer,f⟩ := out
  cases answer with
  | error err => exact trims_joint ⟨trivial,fun _ => trivial⟩ hjoint
  | ok u =>
    exact trims_joint ⟨trivial,fun _ => ⟨trivial,fun _ => ⟨trivial,fun _ => trivial⟩⟩⟩ hjoint

theorem checkNegativeFunding_joint (id : TradeId) (symbol : String) (h : Joint a) :
    checks env (checkNegativeFunding id symbol) (fun go b => go = true ∧ Joint b) a := by
  apply wpr_bind.mpr
  intro b hb _
  have hj := hb.joint h
  have hsame := idle_same env (.tracker symbol) trivial b
  refine ⟨⟨hsame.leaves,trivial⟩,?_⟩
  have hnone : ((watched env).serve (.tracker symbol) b).1 = none := by
    simp [Machine.watch,runner,hj.trackers]
  rw [hnone]
  exact ⟨rfl,hsame.leaves.joint hj⟩

theorem checkExit_joint (id : TradeId) (h : Joint a) :
    checks env (checkExit id) (fun _ b => Joint b) a := by
  refine wpr_bind.mpr (wpr_mono (trims_joint (x := getTrade id) ⟨trivial,fun _ => trivial⟩ h)
    (fun found b hb => ?_))
  cases found with
  | none => exact hb
  | some trade =>
    refine wpr_bind.mpr (wpr_mono (checkNegativeFunding_joint id trade.symbol hb) ?_)
    rintro go c ⟨rfl,hc⟩
    apply wpr_bind.mpr
    intro d hd _
    have hj := hd.joint hc
    have hsame := idle_same env (.get id) trivial d
    refine ⟨⟨hsame.leaves,trivial⟩,wpr_ret.mpr ?_⟩
    have hanswer : ((watched env).serve (.get id) d).1 = d.1.lookup id := rfl
    rw [hanswer]
    cases hfound : d.1.lookup id with
    | none => exact hsame.leaves.joint hj
    | some found =>
      dsimp only
      split
      case isTrue hx => exact closeExiting_joint trade.symbol ⟨hsame.leaves.joint hj,found,
        (hsame.lookup id).trans hfound,hx⟩
      case isFalse => exact hsame.leaves.joint hj

theorem checkExits_joint (h : Joint a) : checks env checkExits (fun _ b => Joint b) a := by
  have hof : ∀ (ids : List TradeId) (a : Runner × Sightings), Joint a →
      checks env (checkExitsOf ids) (fun _ b => Joint b) a := by
    intro ids
    induction ids with
    | nil => exact fun a h => h
    | cons id ids ih =>
      intro a h
      refine wpr_bind.mpr (wpr_mono (checkExit_joint id h) (fun r b hb => ?_))
      cases r with
      | error e => exact hb
      | ok u => exact ih b hb
  exact wpr_bind.mpr (wpr_mono (trims_joint (x := tradeIds) ⟨trivial,fun _ => trivial⟩ h)
    (fun ids b hb => hof ids b hb))

end Checks

section Loop

variable {env : Surroundings} {a : Runner × Sightings}

theorem put_monitored {s : Runner} {slot : Nat} {t : PaperTrade} :
    (s.put slot t).monitored = s.monitored := by
  unfold Runner.put Runner.update
  split <;> rfl

theorem insert_rest {t : PaperTrade} (ht : Fresh t) (h : Rest a) :
    Rest ((watched env).serve (.insert t) a).2 where
  joint := by
    refine ⟨(put_same _ _ _).1.trans h.joint.trackers,fun id u hu => ?_⟩
    have hmon : ((watched env).serve (.insert t) a).2.1.monitored = a.1.monitored := put_monitored
    rw [hmon]
    rcases lookup_put_cases hu with rfl | hold
    · exact ⟨fun _ => ht.reason,fun hx => by simp [ht.status] at hx⟩
    · exact h.joint.trades id u hold
  idle := put_monitored.trans h.idle

/-- What an entry does between two passes. -/
theorem opening_rest {op : RunnerOp} (hk : Opening op) (h : Rest a) :
    BookedAtTrigger a op ∧ Rest ((watched env).serve op a).2 := by
  have hidle : Idle op → Rest ((watched env).serve op a).2 :=
    fun hop => h.leaves (idle_same env op hop a).leaves
  cases op with
  | insert t => exact ⟨trivial,insert_rest hk h⟩
  | remove id =>
    have htrims : Trims (.remove id) := trivial
    exact ⟨trivial,h.leaves (trims_leaves env htrims a).1⟩
  | quotes pair long short => exact ⟨trivial,quotes_joint pair long short h.joint,h.idle⟩
  | backend caller op => exact ⟨trivial,hidle trivial⟩
  | openTrade t => exact ⟨trivial,hidle trivial⟩
  | find f => exact ⟨trivial,hidle trivial⟩
  | getAvailableCapital | getStartingCapital | backendName => exact ⟨trivial,hidle trivial⟩
  | _ => cases hk

/-- The guarantee of the loop as a whole. -/
abbrev Booked (a : Runner × Sightings) (op : RunnerOp) (_ : Runner × Sightings) : Prop :=
  BookedAtTrigger a op

theorem rest_only {K : RunnerOp → Prop}
    (hstep : ∀ op a, K op → Rest a → BookedAtTrigger a op ∧ Rest ((watched env).serve op a).2)
    {x : Run α} (hx : x.Only K) (h : Rest a) :
    (watched env).wpr (· = ·) (Orderly env) Booked x (fun _ b => Rest b) a :=
  wpr_invariant (fun _ _ hab h => hab ▸ h) (fun op b hk _ h => hstep op b hk h) hx h

/-- The two futures together: each keeps what the other one relies on. -/
theorem joinMonitors_rest (schedule : Nat → Bool) (h : Rest a) :
    (watched env).wpr (· = ·) (Orderly env) Booked (joinMonitors schedule) (fun _ b =>
      Rest b) a := by
  have hmonitor : monitors env monitorActivePositions (fun _ b => Rest b) a :=
    monitorActivePositions_rest h
  have hcheck : checks env checkExits (fun _ b => Joint b) a := checkExits_joint h.joint
  refine wpr_mono (wpr_weaken (fun _ _ h => h) (fun _ _ _ h => h.elim And.right And.right)
    (wpr_join Leaves.refl Moves.refl (fun _ _ _ => Leaves.trans) (fun _ _ _ => Moves.trans)
      (fun _ _ _ h => h.1) (fun _ _ _ h => h.1) (fun _ _ _ hr h =>
        h.leaves hr) (fun _ _ _ hr h => hr.joint h)
      monitorActivePositions checkExits none 0 a hmonitor hcheck)) ?_
  exact fun _ _ h => h.1

theorem rest_new (world : World) (startingCapital : ℚ) : Rest (.new world startingCapital,.start) :=
  ⟨⟨rfl,fun _ _ h => by cases h⟩,rfl⟩

/-- In every run whose steps are orderly, each profit that the exit check books is the one at the
spread at which the exit was triggered. -/
theorem booked_at_trigger (env : Surroundings) (world : World) (startingCapital : ℚ)
    (inputs : Nat → Input) (n : Nat) :
    (watched env).Upholds (Orderly env) BookedAtTrigger (runScanningLoop inputs n)
      (.new world startingCapital,.start) := by
  have hidle : ∀ op, Idle op → (∀ a, BookedAtTrigger a op) → ∀ a, Rest a →
      (watched env).wpr (· = ·) (Orderly env) Booked (.call op .ret) (fun _ b => Rest b) a := by
    intro op hop hbook a h b hab _
    subst hab
    exact ⟨hbook a,h.leaves (idle_same env op hop a).leaves⟩
  refine upholds_of_wpr (G := Booked) (fun _ _ _ h => h) (Q := fun _ b => Rest b)
    (wpr_loop inputs (fun input a h => ?_) n (rest_new world startingCapital))
  refine wpr_scanOnce input ?_ (fun o a h => ?_) ?_ (fun schedule a h =>
    joinMonitors_rest schedule h) h
  · exact hidle .resumeTrading trivial (fun _ => trivial)
  · exact rest_only (fun _ _ hk h => opening_rest hk h) (executeOpportunity_opening o) h
  · exact hidle (.backend .entry (.sleep 0)) trivial (fun _ => trivial)

end Loop

/-- The market order that closes the second leg of a partial exit is refused: the trade is on its
way out without a spread on record, and the next turn books the whole entry spread. -/
theorem whole_spread_booked :
    ¬(watched Halt.refusedClose).Upholds (fun _ _ => True) BookedAtTrigger
      (runScanningLoop Halt.twoSymbols 2)
      (.new .empty 1010,.start) := by
  decide +kernel

end SpreadArb.Proofs.Booking
