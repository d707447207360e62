import SpreadArb.LatencyTracker
import SpreadArb.Interact.Steps
import SpreadArb.Interact.Pool
import Mathlib

namespace SpreadArb.Proofs.Latency
open Interact LatencyStats Recording

section Step

/-- The call has left the loop that updates the maximum. -/
def Settled : RecordPc → Prop
  | .fetchAdd | .loadMax | .exchange _ => False
  | _ => True

/-- A call in the loop is larger than the maximum it has seen, and one behind the loop is not larger
than the maximum. -/
structure Tracked (s : LatencyStats) (c : RecordCall) : Prop where
  racing : ∀ m, c.pc = .exchange m → m < c.latencyNs
  settled : Settled c.pc → c.latencyNs ≤ s.maxNs

/-- What a step of a call does to the maximum and to the count. -/
structure Stepped (s s' : LatencyStats) (c : RecordCall) (pc : RecordPc) : Prop where
  grown : s.maxNs ≤ s'.maxNs
  source : s'.maxNs = s.maxNs ∨ s'.maxNs = c.latencyNs
  tracked : Tracked s' { c with pc }
  counted : s'.count = if c.pc = .fetchAdd then s.count + 1 else s.count
  begun : pc ≠ .fetchAdd

variable {s s' : LatencyStats} {c : RecordCall}

theorem tracked_new (latencyNs : UInt64) : Tracked s ⟨latencyNs,.fetchAdd⟩ :=
  ⟨nofun,nofun⟩

/-- A larger maximum does no harm to the other calls. -/
theorem Tracked.mono (h : Tracked s c) (hle : s.maxNs ≤ s'.maxNs) : Tracked s' c :=
  ⟨h.racing,fun hs => UInt64.le_trans (h.settled hs) hle⟩

theorem tracked_whileLarger (latencyNs : UInt64) :
    Tracked s ⟨latencyNs,whileLarger latencyNs s.maxNs⟩ := by
  unfold whileLarger
  by_cases hlarger : latencyNs > s.maxNs
  · simp only [hlarger,↓reduceIte]
    refine ⟨fun m hm => ?_,nofun⟩
    cases hm
    exact hlarger
  · simp only [hlarger,↓reduceIte]
    exact ⟨nofun,fun _ => UInt64.not_lt.mp hlarger⟩

/-- A step behind the loop leaves the maximum and the count alone. -/
theorem stepped_of_settled {pc : RecordPc} (h : Tracked s c) (hs : Settled c.pc) (hs' : Settled pc)
    (hmax : s'.maxNs = s.maxNs) (hcount : s'.count = s.count) : Stepped s s' c pc := by
  have hbegun : ∀ pc, Settled pc → pc ≠ .fetchAdd := by
    intro pc hp he
    rw [he] at hp
    exact hp
  constructor
  case grown => rw [hmax]; exact UInt64.le_refl _
  case source => exact .inl hmax
  case tracked =>
    refine ⟨fun m hm => ?_,fun _ => ?_⟩
    · simp only at hm
      rw [hm] at hs'
      exact hs'.elim
    · rw [hmax]
      exact h.settled hs
  case counted => rw [if_neg (hbegun _ hs),hcount]
  case begun => exact hbegun _ hs'

theorem recordStep_stepped (h : Tracked s c) (spurious : Bool) :
    Stepped s (s.recordStep c.latencyNs spurious c.pc).2 c
      (s.recordStep c.latencyNs spurious c.pc).1 := by
  obtain ⟨latencyNs,pc⟩ := c
  have hwhile : Stepped s s ⟨latencyNs,.loadMax⟩ (whileLarger latencyNs s.maxNs) := by
    refine ⟨UInt64.le_refl _,.inl rfl,tracked_whileLarger latencyNs,rfl,?_⟩
    unfold whileLarger
    split_ifs <;> simp
  cases pc with
  | fetchAdd => exact ⟨UInt64.le_refl _,.inl rfl,⟨nofun,nofun⟩,rfl,nofun⟩
  | loadMax => exact hwhile
  | exchange currentMax =>
    simp only [recordStep]
    split_ifs with hexpected
    · have hmax : s.maxNs = currentMax := by simp_all
      have hless : s.maxNs < latencyNs := hmax ▸ h.racing currentMax rfl
      exact ⟨UInt64.le_of_lt hless,.inr rfl,⟨nofun,fun _ => UInt64.le_refl _⟩,rfl,nofun⟩
    · exact ⟨hwhile.grown,hwhile.source,hwhile.tracked,rfl,hwhile.begun⟩
  | loadP50 | loadP95 | storeP95 _ | loadP99 | storeP99 _ | returned =>
    exact stepped_of_settled h trivial trivial rfl rfl
  | storeP50 currentP50 =>
    refine stepped_of_settled h trivial ?_ rfl rfl
    simp only [recordStep]
    split_ifs <;> trivial
  | compareP95 =>
    refine stepped_of_settled h trivial ?_ rfl rfl
    simp only [recordStep]
    split_ifs <;> trivial

end Step

section Run

/-- How many calls have been counted. -/
def counted (calls : List RecordCall) : Nat := calls.countP (fun c => c.pc ≠ .fetchAdd)

structure Sound (s : Recording) : Prop where
  bounded : s.stats.maxNs.toNat ≤ s.largest
  tracked : ∀ c ∈ s.calls, Tracked s.stats c
  counted : s.stats.count = UInt64.ofNat (counted s.calls)

variable {s : Recording} {calls : List RecordCall} {c : RecordCall}

theorem le_largest (hc : c ∈ s.calls) : c.latencyNs.toNat ≤ s.largest :=
  List.le_max_of_le (List.mem_map.mpr ⟨c,hc,rfl⟩) (Nat.le_refl _)

theorem largest_le {n : Nat} (h : ∀ c ∈ s.calls, c.latencyNs.toNat ≤ n) : s.largest ≤ n := by
  apply List.max_le_of_forall_le (s.calls.map (fun c => c.latencyNs.toNat))
  intro x hx
  obtain ⟨c,hc,rfl⟩ := List.mem_map.mp hx
  exact h c hc

/-- A step changes no latency. -/
theorem largest_set {stats : LatencyStats} {n : Nat} {pc : RecordPc} (hc : s.calls[n]? = some c) :
    (⟨stats,s.calls.set n { c with pc }⟩ : Recording).largest = s.largest := by
  have hsame : (s.calls.set n { c with pc }).map (fun c => c.latencyNs.toNat) =
      s.calls.map (fun c => c.latencyNs.toNat) := by
    rw [List.map_set]
    apply Pool.ghost_same
    simp [hc]
  simp only [Recording.largest,hsame]

/-- The step counts the call if it was its first one. -/
theorem counted_set {n : Nat} {pc : RecordPc} (hc : calls[n]? = some c) (hpc : pc ≠ .fetchAdd) :
    counted (calls.set n { c with pc }) = if c.pc = .fetchAdd then counted calls + 1
      else counted calls := by
  obtain ⟨hn,hget⟩ := List.getElem?_eq_some_iff.mp hc
  unfold counted
  rw [List.countP_set hn,hget]
  by_cases hfirst : c.pc = .fetchAdd
  · simp [hfirst,hpc]
  · have hpositive : 0 < calls.countP (fun c => c.pc ≠ .fetchAdd) :=
      List.countP_pos_iff.mpr ⟨c,hget ▸ List.getElem_mem hn,by simpa using hfirst⟩
    simp only [hfirst,hpc,ne_eq,not_false_eq_true,decide_true,↓reduceIte] at hpositive ⊢
    omega

theorem sound_act (h : Sound s) (a : RecordAct) : Sound (s.act a) := by
  cases a with
  | start latencyNs =>
    constructor
    case bounded =>
      apply Nat.le_trans h.bounded
      apply largest_le
      intro c hc
      exact le_largest (s := s.act (.start latencyNs)) (List.mem_append_left _ hc)
    case tracked =>
      intro c hc
      rcases List.mem_append.mp hc with hc | hc
      · exact h.tracked c hc
      · rw [List.mem_singleton.mp hc]
        exact tracked_new latencyNs
    case counted =>
      have hnot : counted (s.calls ++ [⟨latencyNs,.fetchAdd⟩]) = counted s.calls := by
        simp [counted]
      simp only [act,hnot]
      exact h.counted
  | step n spurious =>
    simp only [act]
    cases hc : s.calls[n]? with
    | none => exact h
    | some c =>
      have hmem : c ∈ s.calls := List.mem_of_getElem? hc
      have hstep := recordStep_stepped (h.tracked c hmem) spurious
      constructor
      case bounded =>
        rw [largest_set hc]
        rcases hstep.source with hsame | hnew
        · simp only [hsame]
          exact h.bounded
        · simp only [hnew]
          exact le_largest hmem
      case tracked =>
        intro c' hc'
        rcases List.mem_or_eq_of_mem_set hc' with hold | rfl
        · exact (h.tracked c' hold).mono hstep.grown
        · exact hstep.tracked
      case counted =>
        simp only [counted_set hc hstep.begun,hstep.counted,h.counted]
        split_ifs
        · simp
        · rfl

theorem sound_run (acts : List RecordAct) : Sound (run acts) :=
  Steps.run_invariant (I := Sound) ⟨by simp [LatencyStats.new],by simp,rfl⟩
    (fun _ a h => sound_act h a) acts

/-- No step of a sound state lowers the maximum. -/
theorem grown_act (h : Sound s) (a : RecordAct) : s.stats.maxNs ≤ (s.act a).stats.maxNs := by
  cases a with
  | start latencyNs => exact UInt64.le_refl _
  | step n spurious =>
    simp only [act]
    cases hc : s.calls[n]? with
    | none => exact UInt64.le_refl _
    | some c => exact (recordStep_stepped (h.tracked c (List.mem_of_getElem? hc)) spurious).grown

theorem grown_run (acts more : List RecordAct) :
    (run acts).stats.maxNs ≤ (run (acts ++ more)).stats.maxNs := by
  induction more using List.reverseRecOn with
  | nil =>
    rw [List.append_nil]
    exact UInt64.le_refl _
  | append_singleton more a ih =>
    have hlast : run (acts ++ (more ++ [a])) = (run (acts ++ more)).act a := by
      simp [run]
    rw [hlast]
    exact UInt64.le_trans ih (grown_act (sound_run _) a)

theorem largest_of_finished (h : Sound s) (hf : s.Finished) : s.largest ≤ s.stats.maxNs.toNat := by
  apply largest_le
  intro c hc
  apply UInt64.le_iff_toNat_le.mp
  apply (h.tracked c hc).settled
  rw [hf c hc]
  trivial

theorem count_of_finished (h : Sound s) (hf : s.Finished) :
    s.stats.count.toNat = s.calls.length % 2^64 := by
  have hall : counted s.calls = s.calls.length := by
    rw [counted,List.countP_eq_length]
    intro c hc
    simp [hf c hc]
  rw [h.counted,hall,UInt64.toNat_ofNat']

end Run

section Alone

variable {latencyNs : UInt64} {s : LatencyStats} {pc : RecordPc}

/-- A step of a call that no other one comes between. -/
def aloneStep (latencyNs : UInt64) (now : RecordPc × LatencyStats) (failed : Bool) :
    RecordPc × LatencyStats :=
  now.2.recordStep latencyNs failed now.1

def alone (latencyNs : UInt64) (s : LatencyStats) (spurious : List Bool) :
    RecordPc × LatencyStats :=
  spurious.foldl (aloneStep latencyNs) (.fetchAdd,s)

/-- What the rest of such a call comes to. -/
def finish (latencyNs : UInt64) (s : LatencyStats) : RecordPc → LatencyStats
  | .fetchAdd => s.record latencyNs
  | .loadMax | .exchange _ => { s with count := s.count - 1 }.record latencyNs
  | .loadP50 => afterP50 s.p50Ns s
  | .storeP50 currentP50 => afterP50 currentP50 s
  | .loadP95 => afterP95 s.p95Ns s
  | .storeP95 currentP95 => afterP95 currentP95 s
  | .compareP95 => afterCompare s
  | .loadP99 => { s with p99Ns := newP99 s.p99Ns latencyNs }
  | .storeP99 currentP99 => { s with p99Ns := newP99 currentP99 latencyNs }
  | .returned => s
where
  afterCompare (s : LatencyStats) : LatencyStats :=
    if latencyNs > s.p95Ns then { s with p99Ns := newP99 s.p99Ns latencyNs } else s
  afterP95 (currentP95 : UInt64) (s : LatencyStats) : LatencyStats :=
    afterCompare { s with p95Ns := newP95 currentP95 latencyNs }
  afterP50 (currentP50 : UInt64) (s : LatencyStats) : LatencyStats :=
    let s := { s with p50Ns := newP50 currentP50 latencyNs }
    if latencyNs > currentP50 then afterP95 s.p95Ns s else afterCompare s

/-- The maximum read is the one that is there. -/
def Current (latencyNs : UInt64) (s : LatencyStats) (pc : RecordPc) : Prop :=
  ∀ m, pc = .exchange m → s.maxNs = m ∧ latencyNs > m

theorem current_of_settled (h : Settled pc) : Current latencyNs s pc := by
  intro m hm
  rw [hm] at h
  exact h.elim

theorem finish_whileLarger : Current latencyNs s (whileLarger latencyNs s.maxNs) ∧
    finish latencyNs s (whileLarger latencyNs s.maxNs) =
      { s with count := s.count - 1 }.record latencyNs := by
  unfold whileLarger
  by_cases hlarger : latencyNs > s.maxNs
  · simp only [hlarger,↓reduceIte]
    refine ⟨fun m hm => ?_,rfl⟩
    cases hm
    exact ⟨rfl,hlarger⟩
  · simp only [hlarger,↓reduceIte]
    refine ⟨current_of_settled trivial,?_⟩
    by_cases hp50 : latencyNs > s.p50Ns
    all_goals simp [finish,finish.afterP50,finish.afterP95,finish.afterCompare,record,hlarger,hp50]

theorem finish_step (h : Current latencyNs s pc) (spurious : Bool) :
    Current latencyNs (s.recordStep latencyNs spurious pc).2
      (s.recordStep latencyNs spurious pc).1 ∧
    finish latencyNs (s.recordStep latencyNs spurious pc).2 (s.recordStep latencyNs spurious pc).1 =
      finish latencyNs s pc := by
  cases pc with
  | fetchAdd => exact ⟨by simp [recordStep,Current],by simp [recordStep,finish]⟩
  | loadMax => exact finish_whileLarger
  | exchange currentMax =>
    obtain ⟨hmax,hlarger⟩ := h currentMax rfl
    simp only [recordStep]
    split_ifs
    · refine ⟨current_of_settled trivial,?_⟩
      rw [← hmax] at hlarger
      by_cases hp50 : latencyNs > s.p50Ns
      all_goals simp [finish,finish.afterP50,finish.afterP95,finish.afterCompare,record,
        hlarger,hp50]
    · exact finish_whileLarger
  | loadP50 | loadP95 | storeP95 _ | loadP99 | storeP99 _ | returned =>
    exact ⟨current_of_settled trivial,rfl⟩
  | storeP50 currentP50 =>
    simp only [recordStep]
    split_ifs with hlarger
    · exact ⟨current_of_settled trivial,by simp [finish,finish.afterP50,hlarger]⟩
    · exact ⟨current_of_settled trivial,by simp [finish,finish.afterP50,hlarger]⟩
  | compareP95 =>
    simp only [recordStep]
    split_ifs with hlarger
    · exact ⟨current_of_settled trivial,by simp [finish,finish.afterCompare,hlarger]⟩
    · exact ⟨current_of_settled trivial,by simp [finish,finish.afterCompare,hlarger]⟩

/-- A call that runs alone and returns has done what `record` does, whichever exchanges failed. -/
theorem alone_records {spurious : List Bool} (h : (alone latencyNs s spurious).1 = .returned) :
    (alone latencyNs s spurious).2 = s.record latencyNs := by
  have hrun : Current latencyNs (alone latencyNs s spurious).2 (alone latencyNs s spurious).1 ∧
      finish latencyNs (alone latencyNs s spurious).2 (alone latencyNs s spurious).1 =
        s.record latencyNs := by
    unfold alone
    apply Steps.run_invariant (I := fun now : RecordPc × LatencyStats =>
      Current latencyNs now.2 now.1 ∧ finish latencyNs now.2 now.1 = s.record latencyNs)
    · exact ⟨by simp [Current],rfl⟩
    · intro now failed hnow
      obtain ⟨hcurrent,hfinish⟩ := finish_step hnow.1 failed
      exact ⟨hcurrent,hfinish.trans hnow.2⟩
  rw [h] at hrun
  exact hrun.2

end Alone

section Idle

/-- The acts of a call that records nothing new, as the call with this number. -/
def idleCall (n : Nat) : List RecordAct := .start 0 :: List.replicate 5 (.step n false)

/-- Calls one after the other, none of them with a latency. -/
def idleCalls (n : Nat) : List RecordAct := (List.range n).flatMap idleCall

/-- The statistics of calls that took no time. -/
def idleStats (count : UInt64) : LatencyStats := ⟨0,0,0,0,count⟩

theorem newP50_zero : newP50 0 0 = 0 := by decide +kernel

theorem run_idleCalls (n : Nat) : ∃ count,
    run (idleCalls n) = ⟨idleStats count,List.replicate n ⟨0,.returned⟩⟩ := by
  induction n with
  | zero => exact ⟨0,rfl⟩
  | succ n ih =>
    obtain ⟨count,hbefore⟩ := ih
    refine ⟨count + 1,?_⟩
    have hsplit : run (idleCalls (n+1)) = (idleCall n).foldl act (run (idleCalls n)) := by
      simp [run,idleCalls,List.range_succ]
    rw [hsplit,hbefore]
    simp [idleCall,act,List.replicate_succ',recordStep,whileLarger,idleStats,newP50_zero]

end Idle

/-- The maximum never falls and never exceeds the latencies of the calls that have started. When all
calls have returned it is the largest of them, and the count is their number, in 64 bits. -/
theorem max_and_count_right (acts : List RecordAct) :
    (∀ more, (run acts).stats.maxNs ≤ (run (acts ++ more)).stats.maxNs) ∧
    (run acts).stats.maxNs.toNat ≤ (run acts).largest ∧
    ((run acts).Finished → (run acts).stats.maxNs.toNat = (run acts).largest ∧
      (run acts).stats.count.toNat = (run acts).calls.length % 2^64 ∧
      ((run acts).calls.length < 2^64 →
        (run acts).stats.count.toNat = (run acts).calls.length)) := by
  have hsound := sound_run acts
  refine ⟨grown_run acts,hsound.bounded,fun hf => ?_⟩
  have hcount := count_of_finished hsound hf
  refine ⟨Nat.le_antisymm hsound.bounded (largest_of_finished hsound hf),hcount,fun hfits => ?_⟩
  rw [hcount,Nat.mod_eq_of_lt hfits]

/-- After so many calls that the counter has come round, it says that there was none. -/
theorem counter_comes_round :
    (run (idleCalls (2^64))).Finished ∧ (run (idleCalls (2^64))).calls.length = 2^64 ∧
    (run (idleCalls (2^64))).stats.count = 0 := by
  obtain ⟨count,hrun⟩ := run_idleCalls (2^64)
  have hsound := sound_run (idleCalls (2^64))
  generalize run (idleCalls (2^64)) = s at hrun hsound
  have hlength : s.calls.length = 2^64 := by rw [hrun,List.length_replicate]
  have hfinished : s.Finished := by
    intro c hc
    rw [hrun] at hc
    rw [List.eq_of_mem_replicate hc]
  refine ⟨hfinished,hlength,?_⟩
  have hcount := count_of_finished hsound hfinished
  rw [hlength,Nat.mod_self] at hcount
  exact UInt64.toNat_inj.mp hcount

end SpreadArb.Proofs.Latency
