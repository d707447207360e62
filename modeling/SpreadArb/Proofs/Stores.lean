import SpreadArb.Pipeline
import SpreadArb.Proofs.Quotes

namespace SpreadArb.Proofs.Stores
open Numeric

/-- The newest update of an id in a log. -/
def newest (log : List Quote) (id : Nat) : Option Quote := log.find? (fun u => u.symbolId = id)

/-- The stores agree on every id with a slot, and show the newest update pushed for it. -/
def Agree (s : Pipeline) : Prop :=
  ∀ id < maxSymbols, s.detector.getBid id = s.runner.getBid id ∧
    s.detector.getAsk id = s.runner.getAsk id ∧
    ∀ u, newest s.pushed id = some u →
      s.detector.getBid id = some u.bid ∧ s.detector.getAsk id = some u.ask

/-- The last update of the id in the log has the prices of this one. -/
def Matches (log : List Quote) (id : Nat) (u : Quote) : Prop :=
  ∃ v, newest log id = some v ∧ v.bid = u.bid ∧ v.ask = u.ask

/-- For every id with a slot, both consumers have last popped the prices last pushed. -/
def BothServed (s : Pipeline) : Prop :=
  ∀ id < maxSymbols, ∀ u, newest s.pushed id = some u → Matches s.detected id u ∧
    Matches s.taken id u

/-- The store that comes of a log. -/
def storeOf : List Quote → MarketDataStore
  | [] => .new
  | u :: log => (storeOf log).update u.toMarketUpdate

theorem newest_mem {log : List Quote} {id : Nat} {u : Quote} (h : newest log id = some u) :
    u ∈ log ∧ u.symbolId = id :=
  ⟨List.mem_of_find?_eq_some h,by simpa using List.find?_some h⟩

theorem newest_of_mem {log : List Quote} {u : Quote} (h : u ∈ log) :
    ∃ v, newest log u.symbolId = some v := by
  cases hn : newest log u.symbolId with
  | some v => exact ⟨v,rfl⟩
  | none =>
    have := List.find?_eq_none.mp hn u h
    simp at this

theorem newest_cons (u : Quote) (log : List Quote) (id : Nat) :
    newest (u :: log) id = if u.symbolId = id then some u else newest log id := by
  unfold newest
  rw [List.find?_cons]
  by_cases h : u.symbolId = id <;> simp [h]

/-- A slot shows the newest update of its id, or nothing. -/
theorem storeOf_slots (log : List Quote) {id : Nat} (hid : id < maxSymbols) :
    (storeOf log).slots id =
      ((newest log id).map (fun u => ⟨u.bid,u.ask,u.timestampUs,u.symbolId⟩)).getD .zero := by
  induction log with
  | nil => rfl
  | cons u log ih =>
    rw [newest_cons]
    by_cases h : u.symbolId = id
    · subst h
      rw [if_pos rfl]
      exact (Quotes.slots_update hid).1
    · rw [if_neg h,← ih]
      exact Quotes.slots_other (fun he => h he.symm)

/-- The slots in use reach up to the highest id popped. -/
theorem storeOf_count (log : List Quote) (id : Nat) :
    id < (storeOf log).count ↔ ∃ u ∈ log, u.symbolId < maxSymbols ∧ id ≤ u.symbolId := by
  induction log with
  | nil => simp [storeOf,MarketDataStore.new]
  | cons u log ih =>
    have hstep : id < (storeOf (u :: log)).count ↔
        id < (storeOf log).count ∨ (u.symbolId < maxSymbols ∧ id ≤ u.symbolId) := by
      change id < ((storeOf log).update u.toMarketUpdate).count ↔ _
      unfold MarketDataStore.update
      by_cases h : u.symbolId < maxSymbols
      · rw [if_pos h]
        dsimp only
        split <;> omega
      · rw [if_neg h]
        simp [h]
    rw [hstep,ih]
    simp only [List.mem_cons,exists_eq_or_imp]
    exact or_comm

theorem getBid_newest {log : List Quote} {id : Nat} (hid : id < maxSymbols) {u : Quote}
    (h : newest log id = some u) :
    (storeOf log).getBid id = some u.bid ∧ (storeOf log).getAsk id = some u.ask := by
  obtain ⟨hm,he⟩ := newest_mem h
  have hc : id < (storeOf log).count := (storeOf_count log id).mpr ⟨u,hm,he ▸ hid,he.ge⟩
  unfold MarketDataStore.getBid MarketDataStore.getAsk
  rw [if_pos hc,if_pos hc,storeOf_slots log hid,h]
  exact ⟨rfl,rfl⟩

/-- Without an update of its id, a slot shows no positive bid. -/
theorem getBid_none {log : List Quote} {id : Nat} (hid : id < maxSymbols) (h : newest log id = none)
    {bid : F64} (hb : (storeOf log).getBid id = some bid) : bid = .fin 0 := by
  unfold MarketDataStore.getBid at hb
  split at hb
  · rw [storeOf_slots log hid,h] at hb
    exact (Option.some.inj hb).symm
  · cases hb

/-- What the logs say about the stores and the queue. -/
structure Logged (s : Pipeline) : Prop where
  detector : s.detector = storeOf s.detected
  runner : s.runner = storeOf s.taken
  queue : ∀ u ∈ s.queue, u ∈ s.pushed
  detected : ∀ u ∈ s.detected, u ∈ s.pushed
  taken : ∀ u ∈ s.taken, u ∈ s.pushed

theorem logged_new : Logged .new :=
  ⟨rfl,rfl,fun _ h => (nomatch h),fun _ h => (nomatch h),fun _ h => (nomatch h)⟩

theorem logged_step (wiring : Wiring) {s : Pipeline} (h : Logged s) (a : PipelineStep) :
    Logged (s.step wiring a) := by
  cases a with
  | push u =>
    refine ⟨h.detector,h.runner,fun v hv => ?_,fun v hv => ?_,fun v hv => ?_⟩
    · rcases Quotes.mem_pushBounded hv with hv | rfl
      · exact List.mem_cons_of_mem _ (h.queue v hv)
      · exact List.mem_cons_self
    · exact List.mem_cons_of_mem _ (h.detected v hv)
    · exact List.mem_cons_of_mem _ (h.taken v hv)
  | detectorPop =>
    unfold Pipeline.step
    dsimp only
    split
    · exact h
    · next u queue hq =>
      refine ⟨?_,h.runner,fun v hv => ?_,fun v hv => ?_,h.taken⟩
      · dsimp only
        rw [h.detector]
        rfl
      · exact h.queue v (hq ▸ List.mem_cons_of_mem _ hv)
      · rcases List.mem_cons.mp hv with rfl | hv
        · exact h.queue v (hq ▸ List.mem_cons_self)
        · exact h.detected v hv
  | runnerPop =>
    unfold Pipeline.step
    dsimp only
    split
    · next u queue hq =>
      refine ⟨h.detector,?_,fun v hv => ?_,h.detected,fun v hv => ?_⟩
      · dsimp only
        rw [h.runner]
        rfl
      · exact h.queue v (hq ▸ List.mem_cons_of_mem _ hv)
      · rcases List.mem_cons.mp hv with rfl | hv
        · exact h.queue v (hq ▸ List.mem_cons_self)
        · exact h.taken v hv
    · exact h

theorem logged_run (wiring : Wiring) (steps : List PipelineStep) {s : Pipeline} (h : Logged s) :
    Logged (s.run wiring steps) := by
  induction steps generalizing s with
  | nil => exact h
  | cons a steps ih => exact ih (logged_step wiring h a)

section Served

variable {s : Pipeline}

/-- A consumer that shows the price of an update has popped that price. -/
theorem matches_of_shown {log : List Quote} {id : Nat} (hid : id < maxSymbols) {u : Quote}
    (hb : (storeOf log).getBid id = some u.bid) (ha : (storeOf log).getAsk id = some u.ask) :
    Matches log id u := by
  cases hn : newest log id with
  | none =>
    have hzero := getBid_none hid hn hb
    have hpos := u.bid_pos
    rw [hzero] at hpos
    exact absurd hpos (by decide)
  | some v =>
    obtain ⟨hb',ha'⟩ := getBid_newest hid hn
    exact ⟨v,hn,Option.some.inj (hb'.symm.trans hb),Option.some.inj (ha'.symm.trans ha)⟩

theorem shown_of_matches {log : List Quote} {id : Nat} (hid : id < maxSymbols) {u : Quote}
    (h : Matches log id u) :
    (storeOf log).getBid id = some u.bid ∧ (storeOf log).getAsk id = some u.ask := by
  obtain ⟨v,hv,hb,ha⟩ := h
  rw [← hb,← ha]
  exact getBid_newest hid hv

/-- Every id that one consumer has popped was popped by the other one too. -/
theorem count_transfer {log log' : List Quote}
    (h : ∀ u ∈ log, u.symbolId < maxSymbols → ∃ v, newest log' u.symbolId = some v) {id : Nat}
    (hc : id < (storeOf log).count) : id < (storeOf log').count := by
  obtain ⟨u,hm,hlt,hle⟩ := (storeOf_count log id).mp hc
  obtain ⟨v,hv⟩ := h u hm hlt
  obtain ⟨hm',he⟩ := newest_mem hv
  exact (storeOf_count log' id).mpr ⟨v,hm',he ▸ hlt,he ▸ hle⟩

theorem agree_of_served (h : Logged s) (hs : BothServed s) : Agree s := by
  have hserved : ∀ u ∈ s.pushed, u.symbolId < maxSymbols →
      (∃ v, newest s.detected u.symbolId = some v) ∧ ∃ v, newest s.taken u.symbolId = some v := by
    intro u hu hlt
    obtain ⟨v,hv⟩ := newest_of_mem hu
    obtain ⟨⟨d,hd,_⟩,r,hr,_⟩ := hs _ hlt v hv
    exact ⟨⟨d,hd⟩,r,hr⟩
  intro id hid
  rw [h.detector,h.runner]
  cases hn : newest s.pushed id with
  | some u =>
    obtain ⟨hd,hr⟩ := hs id hid u hn
    obtain ⟨hb,ha⟩ := shown_of_matches hid hd
    obtain ⟨hb',ha'⟩ := shown_of_matches hid hr
    refine ⟨hb.trans hb'.symm,ha.trans ha'.symm,fun v hv => ?_⟩
    cases hv
    exact ⟨hb,ha⟩
  | none =>
    -- both slots are empty, and the stores reach equally far
    have hnone : ∀ log : List Quote, (∀ u ∈ log, u ∈ s.pushed) → newest log id = none := by
      intro log hlog
      cases hl : newest log id with
      | none => rfl
      | some u =>
        obtain ⟨hm,he⟩ := newest_mem hl
        obtain ⟨v,hv⟩ := newest_of_mem (hlog u hm)
        rw [he,hn] at hv
        cases hv
    have hcount : id < (storeOf s.detected).count ↔ id < (storeOf s.taken).count :=
      ⟨count_transfer (fun u hu hlt => (hserved u (h.detected u hu) hlt).2),
        count_transfer (fun u hu hlt => (hserved u (h.taken u hu) hlt).1)⟩
    have hslots : (storeOf s.detected).slots id = (storeOf s.taken).slots id := by
      rw [storeOf_slots _ hid,storeOf_slots _ hid,hnone _ h.detected,hnone _ h.taken]
    refine ⟨?_,?_,fun u hu => (nomatch hu)⟩
    · unfold MarketDataStore.getBid
      simp only [hcount,hslots]
    · unfold MarketDataStore.getAsk
      simp only [hcount,hslots]

theorem served_of_agree (h : Logged s) (ha : Agree s) : BothServed s := by
  intro id hid u hu
  obtain ⟨hb,hk,hnew⟩ := ha id hid
  obtain ⟨hbid,hask⟩ := hnew u hu
  rw [hbid] at hb
  rw [hask] at hk
  rw [h.detector] at hbid hask
  rw [h.runner] at hb hk
  exact ⟨matches_of_shown hid hbid hask,matches_of_shown hid hb.symm hk.symm⟩

end Served

/-- Without a consumer the runner pops nothing. -/
theorem taken_nil (steps : List PipelineStep) {s : Pipeline} (h : s.taken = []) :
    (s.run .detectorOnly steps).taken = [] := by
  induction steps generalizing s with
  | nil => exact h
  | cons a steps ih =>
    refine ih ?_
    cases a with
    | push u => exact h
    | detectorPop =>
      unfold Pipeline.step
      dsimp only
      split
      · exact h
      · exact h
    | runnerPop => exact h

/-- Both consumers can be served only where no slot is asked for, if one of them never pops. -/
theorem served_iff_unpushed {s : Pipeline} (h : s.taken = []) :
    BothServed s ↔ ∀ u ∈ s.pushed, maxSymbols ≤ u.symbolId := by
  constructor
  · intro hs u hu
    by_contra hlt
    obtain ⟨v,hv⟩ := newest_of_mem hu
    obtain ⟨_,r,hr,_⟩ := hs _ (by omega) v hv
    rw [h] at hr
    cases hr
  · intro hu id hid u hn
    obtain ⟨hm,he⟩ := newest_mem hn
    have := hu u hm
    omega

/-- When the stores of a run agree: with one consumer, while no id with a slot was pushed;
with two, while both have popped the prices last pushed. -/
def Wiring.Served : Wiring → Pipeline → Prop
  | .detectorOnly, s => ∀ u ∈ s.pushed, maxSymbols ≤ u.symbolId
  | .both, s => BothServed s

/-- In every run, whenever the queue is empty, the two stores agree on the newest quotes if
and only if the wiring has served both of them. -/
theorem stores_agree_iff (wiring : Wiring) (steps : List PipelineStep)
    (_ : (Pipeline.new.run wiring steps).queue = []) :
    Agree (Pipeline.new.run wiring steps) ↔
      Wiring.Served wiring (Pipeline.new.run wiring steps) := by
  have h := logged_run wiring steps logged_new
  have hiff : Agree (Pipeline.new.run wiring steps) ↔ BothServed (Pipeline.new.run wiring steps) :=
    ⟨served_of_agree h,agree_of_served h⟩
  cases wiring with
  | detectorOnly => exact hiff.trans (served_iff_unpushed (taken_nil steps rfl))
  | both => exact hiff

/-- A quote of the first symbol. -/
def firstQuote : Quote := ⟨⟨1,.fin 100,.fin 101,7⟩,by decide⟩

/-- The quote comes twice and each consumer pops one of the two. -/
theorem repeated_quote_served :
    (Pipeline.new.run .both [.push firstQuote,.push firstQuote,.detectorPop,.runnerPop]).queue =
      [] ∧
    Agree (Pipeline.new.run .both [.push firstQuote,.push firstQuote,.detectorPop,.runnerPop]) := by
  refine ⟨rfl,(stores_agree_iff .both _ rfl).mpr ?_⟩
  intro id _ u hu
  have hm := (newest_mem hu).1
  have he := (newest_mem hu).2
  have hu' : u = firstQuote := by
    rcases List.mem_cons.mp hm with rfl | hm
    · rfl
    · exact List.mem_singleton.mp hm
  subst hu'
  subst he
  exact ⟨⟨firstQuote,rfl,rfl,rfl⟩,firstQuote,rfl,rfl,rfl⟩

/-- One quote, popped by the detector: the queue is empty and the runner has no price. -/
theorem popped_quote_missed :
    (Pipeline.new.run .both [.push firstQuote,.detectorPop]).queue = [] ∧
    (Pipeline.new.run .both [.push firstQuote,.detectorPop]).detector.getBid 1 = some (.fin 100) ∧
    (Pipeline.new.run .both [.push firstQuote,.detectorPop]).runner.getBid 1 = none ∧
    ¬ Agree (Pipeline.new.run .both [.push firstQuote,.detectorPop]) := by
  refine ⟨rfl,rfl,rfl,fun h => ?_⟩
  obtain ⟨hb,_⟩ := h 1 (by decide)
  cases hb

end SpreadArb.Proofs.Stores
