import SpreadArb.Market

namespace SpreadArb.Proofs.StoreMap
open Numeric

/-- What a call does to a map from the ids to their updates. -/
def note (m : Nat → Option MarketUpdate) : StoreCall → Nat → Option MarketUpdate
  | .update u => fun id => if id = u.symbolId then some u else m id
  | .clear => fun _ => none

/-- The latest update of each id since the last clear. -/
def latest (calls : List StoreCall) : Nat → Option MarketUpdate := calls.foldl note (fun _ => none)

/-- The ids that have an update are the first ones. -/
def Gapless (m : Nat → Option MarketUpdate) : Prop := ∀ i j, i < j → (m j).isSome → (m i).isSome

/-- The store shows this map and nothing else. -/
structure Represents (d : MarketDataStore) (m : Nat → Option MarketUpdate) : Prop where
  bid : ∀ id, d.getBid id = (m id).map MarketUpdate.bid
  ask : ∀ id, d.getAsk id = (m id).map MarketUpdate.ask
  timestamp : ∀ id, d.getTimestamp id = (m id).map MarketUpdate.timestampUs
  once : (d.iterSpreads.map Prod.fst).Nodup
  spreads : ∀ id spread, (id,spread) ∈ d.iterSpreads ↔ (m id).isSome ∧ spread = d.getSpreadBps id

/-- The observers of an id answer alike. -/
structure SameView (d d' : MarketDataStore) (id : Nat) : Prop where
  bid : d'.getBid id = d.getBid id
  ask : d'.getAsk id = d.getAsk id
  timestamp : d'.getTimestamp id = d.getTimestamp id
  spread : d'.getSpreadBps id = d.getSpreadBps id

section Slots

/-- The slot of an update. -/
def slotOf (u : MarketUpdate) : Slot := ⟨u.bid,u.ask,u.timestampUs,u.symbolId⟩

/-- How the store keeps a map: the slots below the mark are in use, whether they were written or
not. -/
structure Holds (d : MarketDataStore) (m : Nat → Option MarketUpdate) : Prop where
  mark : ∀ id, id < d.count ↔ ∃ j, id ≤ j ∧ j < maxSymbols ∧ (m j).isSome
  slot : ∀ id < maxSymbols, d.slots id = ((m id).map slotOf).getD .zero
  key : ∀ id u, m id = some u → u.symbolId = id

variable {d : MarketDataStore} {m : Nat → Option MarketUpdate}

theorem holds_new : Holds .new (fun _ => none) where
  mark id := by simp [MarketDataStore.new]
  slot _ _ := rfl
  key _ _ h := nomatch h

theorem holds_update (h : Holds d m) (u : MarketUpdate) :
    Holds (d.update u) (note m (.update u)) := by
  have hkey : ∀ id v, note m (.update u) id = some v → v.symbolId = id := by
    intro id v hv
    simp only [note] at hv
    split at hv
    · next he =>
      cases hv
      exact he.symm
    · exact h.key id v hv
  unfold MarketDataStore.update
  by_cases hu : u.symbolId < maxSymbols
  · rw [if_pos hu]
    refine ⟨?_,?_,hkey⟩
    · intro id
      have hmark := h.mark id
      have hcount : id < (if u.symbolId ≥ d.count then u.symbolId+1 else d.count) ↔
          id ≤ u.symbolId ∨ id < d.count := by
        split <;> omega
      rw [hcount,hmark]
      constructor
      · rintro (hle | ⟨j,hj,hlt,hsome⟩)
        · exact ⟨u.symbolId,hle,hu,by simp [note]⟩
        · refine ⟨j,hj,hlt,?_⟩
          simp only [note]
          split
          · rfl
          · exact hsome
      · rintro ⟨j,hj,hlt,hsome⟩
        simp only [note] at hsome
        split at hsome
        · next he => exact .inl (he ▸ hj)
        · exact .inr ⟨j,hj,hlt,hsome⟩
    · intro id hid
      have hslot := h.slot id hid
      simp only [note]
      split
      · rfl
      · exact hslot
  · rw [if_neg hu]
    refine ⟨?_,?_,hkey⟩
    · intro id
      rw [h.mark id]
      apply exists_congr
      intro j
      by_cases hj : j < maxSymbols
      · have hne : j ≠ u.symbolId := by omega
        simp [note,hne]
      · simp [hj]
    · intro id hid
      have hne : id ≠ u.symbolId := by omega
      simpa [note,hne] using h.slot id hid

theorem holds_call (h : Holds d m) (c : StoreCall) : Holds (d.call c) (note m c) := by
  cases c with
  | update u => exact holds_update h u
  | clear => exact holds_new

theorem holds_after (calls : List StoreCall) : Holds (.after calls) (latest calls) := by
  have hrun : ∀ (calls : List StoreCall) {d m}, Holds d m →
      Holds (calls.foldl MarketDataStore.call d) (calls.foldl note m) := by
    intro calls
    induction calls with
    | nil => exact fun h => h
    | cons c calls ih => exact fun h => ih (holds_call h c)
  exact hrun calls holds_new

end Slots

section Views

variable {d : MarketDataStore} {m : Nat → Option MarketUpdate}

theorem Holds.count_le (h : Holds d m) {id : Nat} (hid : id < d.count) : id < maxSymbols := by
  obtain ⟨j,hj,hlt,_⟩ := (h.mark id).mp hid
  omega

/-- Without a gap the mark tells the ids that have an update. -/
theorem Holds.mark_gapless (h : Holds d m) (hfits : ∀ id, (m id).isSome → id < maxSymbols)
    (hg : Gapless m) (id : Nat) : id < d.count ↔ (m id).isSome := by
  rw [h.mark id]
  constructor
  · rintro ⟨j,hj,hlt,hsome⟩
    rcases Nat.eq_or_lt_of_le hj with he | hlt'
    · exact he ▸ hsome
    · exact hg id j hlt' hsome
  · intro hsome
    exact ⟨id,le_rfl,hfits id hsome,hsome⟩

/-- An observer that reads a field of the slots below the mark. -/
theorem Holds.observe {α : Type} (h : Holds d m) (hmark : ∀ id, id < d.count ↔ (m id).isSome)
    {read : Slot → α} {field : MarketUpdate → α} (hread : ∀ u, read (slotOf u) = field u)
    (id : Nat) : (if id < d.count then some (read (d.slots id)) else none) = (m id).map field := by
  by_cases hid : id < d.count
  · obtain ⟨u,hu⟩ := Option.isSome_iff_exists.mp ((hmark id).mp hid)
    simp [hid,h.slot id (h.count_le hid),hu,hread]
  · have hnone : m id = none := by simpa using fun hsome => hid ((hmark id).mpr hsome)
    simp [hid,hnone]

theorem represents_gapless (h : Holds d m) (hmark : ∀ id, id < d.count ↔ (m id).isSome) :
    Represents d m := by
  have hkey : ∀ idx < d.count, (d.slots idx).symbolId = idx := by
    intro idx hidx
    obtain ⟨u,hu⟩ := Option.isSome_iff_exists.mp ((hmark idx).mp hidx)
    simp [h.slot idx (h.count_le hidx),hu,slotOf,h.key idx u hu]
  have hspread : ∀ idx < d.count, (if F64.lt (.fin 0) (d.slots idx).bid then
      ((d.slots idx).ask - (d.slots idx).bid) / (d.slots idx).bid * .fin 10000
        else .fin 0) = d.getSpreadBps idx := by
    intro idx hidx
    simp [MarketDataStore.getSpreadBps,hidx]
  constructor
  · exact h.observe hmark (fun _ => rfl)
  · exact h.observe hmark (fun _ => rfl)
  · exact h.observe hmark (fun _ => rfl)
  · have hids : d.iterSpreads.map Prod.fst = List.range d.count := by
      unfold MarketDataStore.iterSpreads
      rw [List.map_map]
      calc _ = (List.range d.count).map id :=
            List.map_congr_left (fun idx hidx => hkey idx (List.mem_range.mp hidx))
        _ = List.range d.count := List.map_id _
    rw [hids]
    exact List.nodup_range
  · intro id spread
    rw [← hmark id]
    unfold MarketDataStore.iterSpreads
    simp only [List.mem_map,List.mem_range,Prod.mk.injEq]
    constructor
    · rintro ⟨idx,hidx,hid,rfl⟩
      rw [hkey idx hidx] at hid
      subst hid
      exact ⟨hidx,hspread idx hidx⟩
    · rintro ⟨hid,rfl⟩
      exact ⟨id,hid,hkey id hid,hspread id hid⟩

/-- The map is shown as it is exactly when its ids leave no gap. -/
theorem represents_iff (h : Holds d m) (hfits : ∀ id, (m id).isSome → id < maxSymbols) :
    Represents d m ↔ Gapless m := by
  constructor
  · intro hr i j hij hj
    have hmark : i < d.count := (h.mark i).mpr ⟨j,hij.le,hfits j hj,hj⟩
    have hbid := hr.bid i
    rw [MarketDataStore.getBid,if_pos hmark] at hbid
    obtain ⟨u,hu,_⟩ := Option.map_eq_some_iff.mp hbid.symm
    simp [hu]
  · intro hg
    exact represents_gapless h (h.mark_gapless hfits hg)

/-- An update shows at another id exactly when it moves the mark past an id above it. -/
theorem sameView_iff (d : MarketDataStore) {u : MarketUpdate} (hu : u.symbolId < maxSymbols) :
    (∀ id, id ≠ u.symbolId → SameView d (d.update u) id) ↔ ∀ id < u.symbolId, id < d.count := by
  have hcount : (d.update u).count = if u.symbolId ≥ d.count then u.symbolId+1 else d.count := by
    simp [MarketDataStore.update,hu]
  constructor
  · intro hview id hid
    by_contra hout
    have hbid := (hview id hid.ne).bid
    have hin : id < (d.update u).count := by
      rw [hcount]
      split <;> omega
    rw [MarketDataStore.getBid,MarketDataStore.getBid,if_pos hin,if_neg hout] at hbid
    cases hbid
  · intro hbelow id hne
    have hslot : (d.update u).slots id = d.slots id := by simp [MarketDataStore.update,hu,hne]
    have hmark : id < (d.update u).count ↔ id < d.count := by
      have hlow := hbelow id
      rw [hcount]
      split <;> omega
    constructor
    · simp only [MarketDataStore.getBid,hslot,hmark]
    · simp only [MarketDataStore.getAsk,hslot,hmark]
    · simp only [MarketDataStore.getTimestamp,hslot,hmark]
    · simp only [MarketDataStore.getSpreadBps,hslot,hmark]

end Views

section Histories

/-- An update of an id that has a slot. -/
def Fits : StoreCall → Prop
  | .update u => u.symbolId < maxSymbols
  | .clear => True

theorem latest_fits {calls : List StoreCall} (h : ∀ c ∈ calls, Fits c) (id : Nat)
    (hid : (latest calls id).isSome) : id < maxSymbols := by
  have hrun : ∀ (calls : List StoreCall) (m : Nat → Option MarketUpdate), (∀ c ∈ calls, Fits c) →
      (∀ id, (m id).isSome → id < maxSymbols) → ∀ id, (calls.foldl note m id).isSome →
        id < maxSymbols := by
    intro calls
    induction calls with
    | nil => exact fun m _ hm => hm
    | cons c calls ih =>
      intro m hcalls hm
      apply ih _ (fun c' hc' => hcalls c' (List.mem_cons_of_mem _ hc'))
      intro i hi
      cases c with
      | clear => cases hi
      | update u =>
        simp only [note] at hi
        split at hi
        · next he => exact he ▸ hcalls _ List.mem_cons_self
        · exact hm i hi
  exact hrun calls _ h (fun _ hsome => absurd hsome (by simp)) id hid

/-- The store is the map of the latest updates exactly when the updated ids leave no gap, and an
update leaves the other ids alone exactly when no id below it is above all of them. -/
theorem store_is_map_iff (calls : List StoreCall) (h : ∀ c ∈ calls, Fits c) :
    (Represents (.after calls) (latest calls) ↔ Gapless (latest calls)) ∧
    ∀ u : MarketUpdate, u.symbolId < maxSymbols →
      ((∀ id, id ≠ u.symbolId →
        SameView (.after calls) (MarketDataStore.update (.after calls) u) id) ↔
        ∀ id < u.symbolId, ∃ j, id ≤ j ∧ (latest calls j).isSome) := by
  have hholds := holds_after calls
  refine ⟨represents_iff hholds (latest_fits h),?_⟩
  intro u hu
  rw [sameView_iff _ hu]
  apply forall₂_congr
  intro id _
  rw [hholds.mark id]
  constructor
  · rintro ⟨j,hj,_,hsome⟩
    exact ⟨j,hj,hsome⟩
  · rintro ⟨j,hj,hsome⟩
    exact ⟨j,hj,latest_fits h j hsome,hsome⟩

def quote (symbolId : Nat) (bid ask : ℚ) (timestampUs : Nat) : StoreCall :=
  .update ⟨symbolId,.fin bid,.fin ask,timestampUs⟩

/-- Two neighbouring ids from zero on. -/
theorem first_ids_are_map :
    Represents (.after [quote 0 100 101 5,quote 1 50 51 6,quote 0 102 103 7])
    (latest [quote 0 100 101 5,quote 1 50 51 6,quote 0 102 103 7]) := by
  refine (store_is_map_iff _ ?_).1.mpr ?_
  · intro c hc
    simp only [List.mem_cons,List.not_mem_nil,or_false] at hc
    rcases hc with rfl | rfl | rfl <;> simp [Fits,quote,maxSymbols]
  · intro i j hij hj
    simp only [latest,List.foldl,note,quote] at hj ⊢
    split at hj
    · omega
    · split at hj
      · have hi : i = 0 := by omega
        simp [hi]
      · cases hj

/-- An update of id 1 alone, the first that the symbol map gives out: id 0 gets a quote that nobody
sent. -/
theorem skipped_id_shows_quote :
    ¬∀ calls : List StoreCall, (∀ c ∈ calls, Fits c) →
      Represents (.after calls) (latest calls) := by
  intro h
  have hbid := (h [quote 1 100 101 5] (by simp [Fits,quote,maxSymbols])).bid 0
  simp [latest,note,quote,MarketDataStore.after,MarketDataStore.call,MarketDataStore.update,
    MarketDataStore.getBid,MarketDataStore.new,maxSymbols] at hbid

end Histories

section Ages

/-- What `is_stale` is to answer: nothing is known of the id, or the latest update is older than the
threshold. -/
def stale (m : Nat → Option MarketUpdate) (id now threshold : Nat) : Bool :=
  match m id with
  | none => true
  | some u => (now : ℤ) - u.timestampUs > threshold

/-- The call does not underflow, and both builds give the answer. -/
def AnswersStale (d : MarketDataStore) (m : Nat → Option MarketUpdate)
    (id now threshold : Nat) : Prop :=
  d.isStale id now threshold = some (stale m id now threshold) ∧
    d.isStaleWrapping id now threshold = stale m id now threshold

/-- The update is not from the future, or it has no slot and is too old anyway; an id without one is
above all updated ids, or the clock is past the threshold. -/
def InTime (m : Nat → Option MarketUpdate) (id now threshold : Nat) : Prop :=
  match m id with
  | some u => if id < maxSymbols then u.timestampUs ≤ now else u.timestampUs + threshold < now
  | none => threshold < now ∨ ∀ j, id < j → j < maxSymbols → m j = none

variable {d : MarketDataStore} {m : Nat → Option MarketUpdate} {id now threshold : Nat}

/-- A slot below the mark. -/
theorem answersStale_slot (hid : id < d.count) (hnow : now < 2 ^ 64) :
    AnswersStale d m id now threshold ↔ (d.slots id).timestampUs ≤ now ∧
      decide (now - (d.slots id).timestampUs > threshold) = stale m id now threshold := by
  unfold AnswersStale MarketDataStore.isStale MarketDataStore.isStaleWrapping
  rw [if_pos hid,if_pos hid]
  dsimp only
  split
  · next hle =>
    have hwrap : (now + 2 ^ 64 - (d.slots id).timestampUs) % 2 ^ 64 =
        now - (d.slots id).timestampUs := by omega
    rw [hwrap,Option.some.injEq]
    simp [hle]
  · next hgt => simp [hgt]

theorem answersStale_missing (hid : ¬id < d.count) :
    AnswersStale d m id now threshold ↔ stale m id now threshold = true := by
  unfold AnswersStale MarketDataStore.isStale MarketDataStore.isStaleWrapping
  rw [if_neg hid,if_neg hid,Option.some.injEq,and_self,eq_comm]

/-- `is_stale` answers right exactly in these cases. -/
theorem is_stale_right_iff (calls : List StoreCall) (id now threshold : Nat) (hnow : now < 2 ^ 64) :
    AnswersStale (.after calls) (latest calls) id now threshold ↔
      InTime (latest calls) id now threshold := by
  have h := holds_after calls
  have hmark := h.mark id
  cases hm : latest calls id with
  | some u =>
    have hstale : stale (latest calls) id now threshold =
        decide ((now : ℤ) - u.timestampUs > threshold) := by
      simp [stale,hm]
    by_cases hid : id < maxSymbols
    · have hcount : id < (MarketDataStore.after calls).count :=
        hmark.mpr ⟨id,le_rfl,hid,by simp [hm]⟩
      have hslot : ((MarketDataStore.after calls).slots id).timestampUs = u.timestampUs := by
        simp [h.slot id hid,hm,slotOf]
      rw [answersStale_slot hcount hnow,hslot,hstale]
      simp only [InTime,hm,if_pos hid,decide_eq_decide]
      omega
    · have hcount : ¬id < (MarketDataStore.after calls).count := fun hlt => hid (h.count_le hlt)
      rw [answersStale_missing hcount,hstale]
      simp only [InTime,hm,if_neg hid,decide_eq_true_eq]
      omega
  | none =>
    have hstale : stale (latest calls) id now threshold = true := by simp [stale,hm]
    by_cases hcount : id < (MarketDataStore.after calls).count
    · have hslot : ((MarketDataStore.after calls).slots id).timestampUs = 0 := by
        simp [h.slot id (h.count_le hcount),hm,Slot.zero]
      obtain ⟨j,hj,hlt,hsome⟩ := hmark.mp hcount
      have hlater : ¬∀ j, id < j → j < maxSymbols → latest calls j = none := by
        intro hnone
        have hne : id ≠ j := by
          intro he
          rw [← he,hm] at hsome
          cases hsome
        simp [hnone j (by omega) hlt] at hsome
      rw [answersStale_slot hcount hnow,hslot,hstale]
      simp [InTime,hm,hlater]
    · have hlater : ∀ j, id < j → j < maxSymbols → latest calls j = none := by
        intro j hj hlt
        by_contra hsome
        exact hcount (hmark.mpr ⟨j,hj.le,hlt,Option.isSome_iff_ne_none.mpr hsome⟩)
      rw [answersStale_missing hcount,hstale]
      simp only [InTime,hm,true_iff]
      exact .inr hlater

/-- A quote of two seconds ago against a threshold of one. -/
theorem old_quote_is_stale :
    AnswersStale (.after [quote 0 100 101 1000000]) (latest [quote 0 100 101 1000000])
    0 3000000 1000000 :=
  (is_stale_right_iff _ 0 3000000 1000000 (by decide)).mpr
    (by simp [InTime,latest,note,quote,maxSymbols])

/-- A quote that is one microsecond ahead of the reader's clock: a panic, or stale in a release
build. -/
theorem early_quote_underflows :
    ¬∀ (calls : List StoreCall) (id now threshold : Nat), now < 2 ^ 64 →
      AnswersStale (.after calls) (latest calls) id now threshold := by
  intro h
  have hright := (h [quote 0 100 101 6] 0 5 1000 (by decide)).1
  simp [MarketDataStore.after,MarketDataStore.call,MarketDataStore.update,MarketDataStore.isStale,
    MarketDataStore.new,quote,maxSymbols] at hright

end Ages

end SpreadArb.Proofs.StoreMap
