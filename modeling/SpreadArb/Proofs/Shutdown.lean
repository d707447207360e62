import SpreadArb.Service
import SpreadArb.Proofs.Shards
import SpreadArb.Proofs.Funding

namespace SpreadArb.Proofs.Shutdown
open Interact Machine Service

open Shards (smooth)

variable {env : Surroundings} {shard : TradeId → Nat} {s : Service}

@[simp] theorem run_nil : s.run env shard [] = s := rfl

@[simp] theorem run_cons (act : ServiceAct) (acts : List ServiceAct) :
    s.run env shard (act :: acts) = (s.step env shard act).run env shard acts := rfl

theorem run_append (before after : List ServiceAct) :
    s.run env shard (before ++ after) = (s.run env shard before).run env shard after :=
  List.foldl_append

/-- After the exit nothing starts. -/
theorem run_exited (h : s.exited = true) (acts : List ServiceAct) : s.run env shard acts = s := by
  induction acts with
  | nil => rfl
  | cons act acts ih =>
    have hstep : s.step env shard act = s := by simp [step,h]
    rw [run_cons,hstep]
    exact ih

section Waiting

/-- A step of the strategy in a turn that waits for itself neither ends the turn nor starts an
entry. -/
theorem waiting_loop (schedule : Nat → Bool) (h : s.WaitsForItself env shard) :
    (s.scanningLoopStep env shard schedule).WaitsForItself env shard ∧
      (s.scanningLoopStep env shard schedule).started = s.started := by
  rcases h with ⟨rest,hl,h⟩ | ⟨rest,hl,h⟩
  · cases rest with
    | ret u =>
      simp only [scanningLoopStep,hl]
      exact ⟨.inr ⟨_,rfl,h schedule⟩,trivial⟩
    | call op next =>
      by_cases hop : Unblocked shard s.runner op
      · simp only [scanningLoopStep,hl,if_pos hop]
        exact ⟨.inl ⟨_,rfl,fun schedule hn => h schedule ⟨hop,hn⟩⟩,trivial⟩
      · simp only [scanningLoopStep,hl,if_neg hop]
        exact ⟨.inl ⟨_,hl,h⟩,trivial⟩
  · cases rest with
    | ret u => exact absurd trivial h
    | call op next =>
      by_cases hop : Unblocked shard s.runner op
      · simp only [scanningLoopStep,hl,if_pos hop]
        exact ⟨.inr ⟨_,rfl,fun hn => h ⟨hop,hn⟩⟩,trivial⟩
      · simp only [scanningLoopStep,hl,if_neg hop]
        exact ⟨.inr ⟨_,hl,h⟩,trivial⟩

/-- Nothing that happens around the strategy frees it. -/
theorem waiting_step (act : ServiceAct) (h : s.WaitsForItself env shard) :
    (s.step env shard act).WaitsForItself env shard ∧
      (s.step env shard act).started = s.started := by
  unfold step
  split
  · exact ⟨h,rfl⟩
  · cases act with
    | strategy schedule => exact waiting_loop schedule h
    | detect opportunity =>
      simp only [detect]
      split <;> exact ⟨h,rfl⟩
    | detector =>
      simp only [detectorStep]
      split <;> exact ⟨h,rfl⟩
    | requestShutdown => exact ⟨h,rfl⟩
    | forceExit => exact ⟨h,rfl⟩

/-- A turn that waits for itself is the last one. -/
theorem waiting_run (h : s.WaitsForItself env shard) (acts : List ServiceAct) :
    (s.run env shard acts).started = s.started := by
  induction acts generalizing s with
  | nil => rfl
  | cons act acts ih =>
    obtain ⟨hw,hstarted⟩ := waiting_step act h
    exact (ih hw).trans hstarted

end Waiting

section Turns

/-- Steps of the strategy, with one schedule for all. -/
def steps (schedule : Nat → Bool) (n : Nat) : List ServiceAct :=
  List.replicate n (.strategy schedule)

/-- A step of the strategy in a process that is still there. -/
theorem run_steps {schedule : Nat → Bool} (h : s.exited = false) (n : Nat) :
    s.run env shard (steps schedule (n+1)) =
      (s.scanningLoopStep env shard schedule).run env shard (steps schedule n) := by
  simp [steps,List.replicate_succ,step,h]

variable (env shard) (schedule : Nat → Bool)

/-- A monitoring that does not wait for itself ends, and the loop goes back to its head. -/
theorem monitoring_ends (p : Run Unit) (h : s.exited = false) (hl : s.loop = .monitoring p)
    (hp : (SpreadArb.runner env).Along (Unblocked shard) p s.runner) :
    ∃ n, s.run env shard (steps schedule n) =
      { s with loop := .head, runner := ((SpreadArb.runner env).run p s.runner).2 } := by
  induction p generalizing s with
  | ret u =>
    refine ⟨1,?_⟩
    rw [run_steps h]
    simp [scanningLoopStep,hl,steps,Machine.run]
  | call op next ih =>
    have hstep : s.scanningLoopStep env shard schedule = { s with
        runner := ((SpreadArb.runner env).serve op s.runner).2
        loop := .monitoring (next ((SpreadArb.runner env).serve op s.runner).1) } := by
      simp [scanningLoopStep,hl,hp.1]
    obtain ⟨n,hn⟩ := ih _ (s := s.scanningLoopStep env shard schedule) (by simp [hstep,h])
      (by rw [hstep]) (by rw [hstep]; exact hp.2)
    refine ⟨n+1,?_⟩
    rw [run_steps h,hn,hstep]
    rfl

/-- So does an entry with the monitoring after it. -/
theorem executing_ends (p : Run Unit) (h : s.exited = false) (hl : s.loop = .executing p)
    (hp : (SpreadArb.runner env).Along (Unblocked shard) (p.bind (fun _ => monitorTurn schedule))
      s.runner) :
    ∃ n, s.run env shard (steps schedule n) =
      { s with
        loop := .head
        runner := ((SpreadArb.runner env).run (p.bind (fun _ => monitorTurn schedule))
          s.runner).2 } := by
  induction p generalizing s with
  | ret u =>
    have hstep : s.scanningLoopStep env shard schedule =
        { s with loop := .monitoring (monitorTurn schedule) } := by
      simp [scanningLoopStep,hl]
    obtain ⟨n,hn⟩ := monitoring_ends env shard schedule
      (s := s.scanningLoopStep env shard schedule) (monitorTurn schedule) (by simp [hstep,h])
      (by rw [hstep]) (by rw [hstep]; exact hp)
    refine ⟨n+1,?_⟩
    rw [run_steps h,hn,hstep]
    rfl
  | call op next ih =>
    obtain ⟨hop,hnext⟩ := hp
    have hstep : s.scanningLoopStep env shard schedule = { s with
        runner := ((SpreadArb.runner env).serve op s.runner).2
        loop := .executing (next ((SpreadArb.runner env).serve op s.runner).1) } := by
      simp [scanningLoopStep,hl,hop]
    obtain ⟨n,hn⟩ := ih _ (s := s.scanningLoopStep env shard schedule) (by simp [hstep,h])
      (by rw [hstep]) (by rw [hstep]; exact hnext)
    refine ⟨n+1,?_⟩
    rw [run_steps h,hn,hstep]
    rfl

end Turns

/-- The shutdown was requested and the process is still there. -/
structure Asked (s : Service) : Prop where
  requested : s.shutdownRequested = true
  alive : s.exited = false

section Continuations

variable (env shard)

/-- A turn that is under way and does not wait for itself can come to its end. -/
theorem reaches_head (h : Asked s) (hw : ¬ s.WaitsForItself env shard) :
    ∃ acts, Asked (s.run env shard acts) ∧ (s.run env shard acts).loop = .head := by
  cases hl : s.loop with
  | head => exact ⟨[],h,hl⟩
  | monitoring p =>
    have hp : (SpreadArb.runner env).Along (Unblocked shard) p s.runner := by
      by_contra hp
      exact hw (.inr ⟨p,hl,hp⟩)
    obtain ⟨n,hn⟩ := monitoring_ends env shard (fun _ => true) p h.alive hl hp
    refine ⟨steps (fun _ => true) n,?_⟩
    rw [hn]
    exact ⟨⟨h.requested,h.alive⟩,rfl⟩
  | executing p =>
    obtain ⟨schedule,hp⟩ : ∃ schedule, (SpreadArb.runner env).Along (Unblocked shard)
        (p >>= fun _ => monitorTurn schedule) s.runner := by
      by_contra hp
      exact hw (.inl ⟨p,hl,not_exists.mp hp⟩)
    obtain ⟨n,hn⟩ := executing_ends env shard schedule p h.alive hl hp
    refine ⟨steps schedule n,?_⟩
    rw [hn]
    exact ⟨⟨h.requested,h.alive⟩,rfl⟩

/-- A push of the detector ends. -/
theorem detector_ends (p : QueueCall ArbitrageOpportunity Unit) (h : s.exited = false)
    (hd : s.detector = p) :
    ∃ acts queue, s.run env shard acts = { s with detector := .ret (), queue := queue } := by
  induction p generalizing s with
  | ret u => exact ⟨[],s.queue,by rw [← hd]; rfl⟩
  | call op next ih =>
    have hstep : s.step env shard .detector = { s with
        queue := ((DropQueue.machine 1).serve op s.queue).2
        detector := next ((DropQueue.machine 1).serve op s.queue).1 } := by
      simp [step,h,detectorStep,hd]
    obtain ⟨acts,queue,hacts⟩ := ih _ (s := s.step env shard .detector) (by simp [hstep,h])
      (by rw [hstep])
    refine ⟨.detector :: acts,queue,?_⟩
    rw [run_cons,hacts,hstep]

/-- After the first attempt of a push the queue is not empty. -/
theorem push_fills (queue : DropQueue ArbitrageOpportunity) (opportunity : ArbitrageOpportunity) :
    ((DropQueue.machine 1).serve (.push opportunity false) queue).2.items ≠ [] := by
  simp only [DropQueue.machine]
  split
  · simp
  · intro hnil
    have := queue.capacity.pos
    simp_all

/-- An opportunity can come at any time. -/
theorem queue_fills (opportunity : ArbitrageOpportunity) (h : s.exited = false) :
    ∃ acts queue detector, queue.items ≠ [] ∧
      s.run env shard acts = { s with queue := queue, detector := detector } := by
  obtain ⟨acts,queue,hacts⟩ := detector_ends env shard s.detector h rfl
  refine ⟨acts ++ [.detect opportunity,.detector,.detector],?_⟩
  rw [run_append,hacts]
  simp only [run_cons,run_nil,step,h,detect,detectorStep,OpportunityProducer.push]
  exact ⟨_,_,push_fills _ opportunity,rfl⟩

variable {env shard}

/-- A turn that begins after the request starts the first opportunity of the queue. -/
theorem head_starts (h : Asked s) (hl : s.loop = .head) (hq : s.queue.items ≠ []) :
    (s.step env shard (.strategy fun _ => true)).lateStarts = s.lateStarts + 1 := by
  obtain ⟨e,items,hitems⟩ := List.exists_cons_of_ne_nil hq
  have hstarted : (s.step env shard (.strategy fun _ => true)).started =
      s.started ++ [⟨e.item,true⟩] := by
    obtain ⟨requested,alive⟩ := h
    obtain ⟨runner,queue,detector,loop,shutdownRequested,exited,started⟩ := s
    obtain ⟨capacity,queued,pushes,enqueues,drops,pops,accepted,removed⟩ := queue
    subst requested alive hl hitems
    rfl
  simp [lateStarts,hstarted]

/-- Once a shutdown has been requested, no continuation starts a further entry exactly if the
process has exited or the turn under way never ends, as it waits for a lock of its own: else the
loop goes on to take opportunities from the queue. -/
theorem starts_no_more_iff (env : Surroundings) (shard : TradeId → Nat) (world : World)
    (startingCapital : ℚ) (capacity : ℕ+) (acts : List ServiceAct)
    (h : (run env shard (.new world startingCapital capacity) acts).shutdownRequested = true) :
    StartsNoMore env shard (run env shard (.new world startingCapital capacity) acts) ↔
      (run env shard (.new world startingCapital capacity) acts).exited = true ∨
      (run env shard (.new world startingCapital capacity) acts).WaitsForItself env shard := by
  generalize run env shard (.new world startingCapital capacity) acts = s at h
  constructor
  · intro hstops
    by_contra hgoes
    obtain ⟨halive,hfree⟩ := not_or.mp hgoes
    obtain ⟨acts,hasked,hl⟩ := reaches_head env shard ⟨h,by simpa using halive⟩ hfree
    obtain ⟨more,queue,detector,hq,hmore⟩ :=
      queue_fills env shard Funding.bitcoin hasked.alive
    have hstart : ((s.run env shard (acts ++ more)).run env shard
        [.strategy fun _ => true]).lateStarts =
        (s.run env shard (acts ++ more)).lateStarts + 1 := by
      rw [run_append,hmore]
      exact head_starts ⟨hasked.requested,hasked.alive⟩ hl hq
    rw [← run_append,hstops,hstops] at hstart
    omega
  · intro hends acts
    rcases hends with hexited | hwaits
    · rw [run_exited hexited]
    · rw [lateStarts,lateStarts,waiting_run hwaits]

/-- The request before which the loop stands. -/
def nextRequest : LoopAt → Option RunnerOp
  | .executing (.call op _) | .monitoring (.call op _) => some op
  | _ => none

/-- That request waits for a lock of its own task. -/
def blocked (shard : TradeId → Nat) (s : Service) : Bool :=
  (nextRequest s.loop).any (fun op => ¬ Unblocked shard s.runner op)

theorem waits_of_blocked (h : blocked shard s = true) : s.WaitsForItself env shard := by
  unfold blocked at h
  unfold WaitsForItself
  generalize s.loop = l at h
  cases l with
  | head => cases h
  | executing rest =>
    cases rest with
    | ret u => cases h
    | call op next => exact .inl ⟨_,rfl,fun _ hn => of_decide_eq_true h hn.1⟩
  | monitoring rest =>
    cases rest with
    | ret u => cases h
    | call op next => exact .inr ⟨_,rfl,fun hn => of_decide_eq_true h hn.1⟩

instance : (l : LoopAt) → Decidable (l = .head)
  | .head => .isTrue rfl
  | .executing _ | .monitoring _ => .isFalse nofun

theorem not_waits (h : s.loop = .head) : ¬ s.WaitsForItself env shard := by
  simp [WaitsForItself,h]

def fourShards (id : TradeId) : Nat := id % 4

/-- A shutdown is requested while this opportunity is handled, and the strategy goes on. -/
def askedAtWork (opportunity : ArbitrageOpportunity) (before after : Nat) : List ServiceAct :=
  [.detect opportunity,.detector,.detector] ++ steps (fun i => i % 2 = 0) before ++
    [.requestShutdown] ++ steps (fun i => i % 2 = 0) after

/-- The exit orders fill at once, and the task blocks. -/
def filledExits : Service :=
  run smooth fourShards (.new .empty 1010 1) (askedAtWork onePercent 30 60)

def paper : Surroundings := { smooth with backendName := "Paper" }

/-- The trade stays open, and the loop comes round. -/
def openTrade : Service :=
  run paper fourShards (.new .empty 1010 1)
    (askedAtWork { onePercent with fundingDelta8h := 2/10000 } 30 8)

/-- The request comes in the middle of a turn. In one run the turn never ends and nothing starts any
more, though the process is there; in the other the loop goes on. -/
theorem asked_at_work :
    (filledExits.shutdownRequested = true ∧ filledExits.exited = false ∧
      StartsNoMore smooth fourShards filledExits) ∧
    openTrade.shutdownRequested = true ∧
      openTrade.runner.trades.map (fun t => (t.symbol,t.status)) = [("BTCUSDT",.active)] ∧
      ¬ StartsNoMore paper fourShards openTrade := by
  refine ⟨⟨by decide +kernel,by decide +kernel,?_⟩,by decide +kernel,by decide +kernel,?_⟩
  · have hblocked : blocked fourShards filledExits = true := by decide +kernel
    have hwaits : filledExits.WaitsForItself smooth fourShards := waits_of_blocked hblocked
    exact (starts_no_more_iff smooth fourShards .empty 1010 1 (askedAtWork onePercent 30 60)
      (by decide +kernel)).mpr (.inr hwaits)
  · intro hstops
    have halive : openTrade.exited = false := by decide +kernel
    have hhead : openTrade.loop = .head := by decide +kernel
    have hasked : openTrade.shutdownRequested = true := by decide +kernel
    have hends : openTrade.exited = true ∨ openTrade.WaitsForItself paper fourShards :=
      (starts_no_more_iff paper fourShards .empty 1010 1 (askedAtWork
        { onePercent with fundingDelta8h := 2/10000 } 30 8) hasked).mp hstops
    rcases hends with hexited | hwaits
    · rw [halive] at hexited
      cases hexited
    · exact not_waits hhead hwaits

/-- An opportunity that comes after the request is taken up in the next turn. -/
theorem entry_after_request :
    ¬StartsNoMore Funding.negativeFunding fourShards
      (run Funding.negativeFunding fourShards (.new .empty 1000 1) [.requestShutdown]) := by
  intro h
  have hlate : (run Funding.negativeFunding fourShards
      (run Funding.negativeFunding fourShards (.new .empty 1000 1) [.requestShutdown])
      ([.detect Funding.bitcoin,.detector,.detector] ++ steps (fun _ => true) 1)).lateStarts = 1 :=
    rfl
  rw [h] at hlate
  exact absurd hlate (by decide)

end Continuations

end SpreadArb.Proofs.Shutdown
