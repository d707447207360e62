import SpreadArb.Subscriptions
import SpreadArb.Proofs.Workers

namespace SpreadArb.Proofs.Subscriptions
open SpreadArb.Subscriptions SpreadArb.Proofs.Workers WsWorker Interact

variable {bits : Nat}

section Pieces

theorem slices_flatten (size : Nat) (items : List α) : (slices size items).flatten = items := by
  fun_induction slices size items with
  | case1 => rfl
  | case2 a items ih => simp [ih]

/-- What the loop of `chunk_vec` returns, by induction on what is left. -/
theorem chunkLoop_some {size idx : Nat} {items : List α} {chunks out : List (List α)}
    (hsize : 0 < size) (h : chunkLoop bits items size hsize idx chunks = some out) :
    ∃ rest, out = chunks ++ rest ∧ Cuts size (items.drop idx) rest := by
  induction hleft : items.length - idx using Nat.strong_induction_on generalizing idx chunks with
  | _ left ih =>
    rw [chunkLoop] at h
    split at h
    · next hlt =>
      split at h
      · obtain ⟨rest,rfl,hcuts⟩ :=
          ih (items.length - min (idx + size) items.length) (by omega) h rfl
        exact ⟨items.extract idx (min (idx + size) items.length) :: rest,by simp,
          cuts_cons hsize hlt hcuts⟩
      · cases h
    · next hend =>
      cases h
      refine ⟨[],by simp,?_⟩
      rw [List.drop_of_length_le (by omega)]
      exact cuts_nil

theorem chunkVec_some {size : Nat} {items : List α} {chunks : List (List α)} (hsize : 0 < size)
    (h : chunkVec bits items size = some chunks) : Cuts size items chunks := by
  rw [chunkVec,dif_pos hsize] at h
  obtain ⟨rest,rfl,hcuts⟩ := chunkLoop_some hsize h
  exact hcuts

theorem sortDedup_nodup (names : List String) : (sortDedup names).Nodup :=
  (fetchPerpCoins_nodup names).1

end Pieces

section Topics

theorem count_topicsOf (channel c instrument : String) (instruments : List String) :
    (topicsOf c instruments).count ⟨channel,some instrument⟩ =
      if channel = c then instruments.count instrument else 0 := by
  by_cases hc : channel = c
  · subst hc
    have hinjective : Function.Injective (fun i : String => (⟨channel,some i⟩ : Topic)) :=
      fun _ _ h => by cases h; rfl
    rw [if_pos rfl,topicsOf]
    exact List.count_map_of_injective instruments _ hinjective instrument
  · rw [if_neg hc,List.count_eq_zero]
    intro hin
    obtain ⟨i,_,hi⟩ := List.mem_map.mp hin
    cases hi
    exact hc rfl

/-- Messages that ask for the instruments piece by piece, each piece over all channels. -/
theorem count_pieces {pieces : List α} (instruments : α → List String)
    {messages : α → List Subscribe} {channels : List String} (hchannels : channels.Nodup)
    (hmessages : ∀ p, (messages p).flatMap Subscribe.topics =
    channels.flatMap (fun c => topicsOf c (instruments p))) (channel instrument : String) :
    ((pieces.flatMap messages).flatMap Subscribe.topics).count ⟨channel,some instrument⟩ =
      if channel ∈ channels then (pieces.flatMap instruments).count instrument else 0 := by
  have hpiece : ∀ p, (channels.flatMap (fun c => topicsOf c (instruments p))).count ⟨channel,
      some instrument⟩ =
      if channel ∈ channels then (instruments p).count instrument else 0 := by
    intro p
    clear hmessages
    induction channels with
    | nil => simp
    | cons c channels ih =>
      obtain ⟨hnot,hrest⟩ := List.nodup_cons.mp hchannels
      rw [List.flatMap_cons,List.count_append,count_topicsOf,ih hrest]
      by_cases hc : channel = c
      · subst hc
        simp [hnot]
      · simp [hc]
  induction pieces with
  | nil => simp
  | cons p pieces ih =>
    rw [List.flatMap_cons,List.flatMap_append,List.count_append,hmessages,hpiece,ih,
      List.flatMap_cons,List.count_append]
    by_cases hc : channel ∈ channels <;> simp [hc]

/-- The workers of a connector ask for what their batches hold. -/
theorem count_batches {opening : List String → SessionPlan} {channels : List String}
    {channel instrument : String}
    (hopening : ∀ batch, (opening batch).topics.count ⟨channel,some instrument⟩ =
    if channel ∈ channels then batch.count instrument else 0) {size : Nat} (hsize : 0 < size)
    {instruments : List String} {openings : List SessionPlan}
    (h : (chunkVec bits instruments size).map (·.map opening) = some openings) :
    (openings.flatMap SessionPlan.topics).count ⟨channel,some instrument⟩ =
      if channel ∈ channels then instruments.count instrument else 0 := by
  obtain ⟨batches,hbatches,rfl⟩ := Option.map_eq_some_iff.mp h
  rw [← (chunkVec_some hsize hbatches).joined]
  clear hbatches h
  induction batches with
  | nil => simp
  | cons batch batches ih =>
    rw [List.map_cons,List.flatMap_cons,List.count_append,hopening,ih,List.flatten_cons,
      List.count_append]
    by_cases hc : channel ∈ channels <;> simp [hc]

variable {channel instrument : String} {instruments : List String}

/-- The messages of a session that goes through slices of its instruments. -/
theorem count_slices {messages : List String → List Subscribe} {channels : List String}
    (hchannels : channels.Nodup)
    (hmessages : ∀ chunk, (messages chunk).flatMap Subscribe.topics =
    channels.flatMap (fun c => topicsOf c chunk)) (size : Nat) (batch : List String) :
    (((slices size batch).flatMap messages).flatMap Subscribe.topics).count ⟨channel,
      some instrument⟩ =
      if channel ∈ channels then batch.count instrument else 0 := by
  rw [count_pieces id hchannels hmessages,List.flatMap_id,slices_flatten]

/-- The messages of a session that goes through its instruments one by one. -/
theorem count_singles {messages : String → List Subscribe} {channels : List String}
    (hchannels : channels.Nodup)
    (hmessages : ∀ i, (messages i).flatMap Subscribe.topics =
    channels.flatMap (fun c => topicsOf c [i])) (batch : List String) :
    ((batch.flatMap messages).flatMap Subscribe.topics).count ⟨channel,some instrument⟩ =
      if channel ∈ channels then batch.count instrument else 0 := by
  rw [count_pieces (fun i => [i]) hchannels hmessages,List.flatMap_singleton']

/-- The sessions of a connector ask once for every channel of every instrument. -/
theorem count_openings {listing : Listing} {openings : List SessionPlan}
    (h : listing.openings bits instruments = some openings) :
    (openings.flatMap SessionPlan.topics).count ⟨channel,some instrument⟩ =
      if channel ∈ listing.channels then instruments.count instrument else 0 := by
  cases listing with
  | bybit pages =>
    obtain ⟨batches,hbatches,rfl⟩ := Option.map_eq_some_iff.mp h
    have hjoined := (chunkVec_some (by decide) hbatches).joined
    have htopics : (batches.map bybitOpening).flatMap SessionPlan.topics = batches.flatten := by
      clear hbatches hjoined h
      induction batches with
      | nil => rfl
      | cons batch batches ih =>
        have hbatch : (bybitOpening batch).topics = batch := by
          simp [SessionPlan.topics,bybitOpening,List.flatMap_map,List.flatMap_id',slices_flatten]
        rw [List.map_cons,List.flatMap_cons,List.flatten_cons,ih,hbatch]
    rw [htopics,hjoined,List.count_append,count_topicsOf,count_topicsOf]
    by_cases ht : channel = "tickers"
    · simp [Listing.channels,ht]
    · by_cases hf : channel = "funding" <;> simp [Listing.channels,ht,hf]
  | bitget resp =>
    refine count_batches (fun batch => ?_) (by decide) h
    exact count_slices (by simp [Listing.channels]) (by simp [Listing.channels]) 20 batch
  | kucoin resp =>
    refine count_batches (fun batch => ?_) (by decide) h
    have hslices : (((slices 20 batch).flatMap (fun chunk =>
        [⟨topicsOf "/contractMarket/tickerV2" chunk,50⟩,
        ⟨topicsOf "/contractMarket/level2" chunk,50⟩,
          ⟨topicsOf "/contract/instrument" chunk,50⟩])).flatMap
          Subscribe.topics).count ⟨channel,some instrument⟩ =
        if channel ∈ (Listing.kucoin resp).channels then batch.count instrument else 0 :=
      count_slices (by simp [Listing.channels]) (by simp [Listing.channels]) 20 batch
    rw [SessionPlan.topics,kucoinOpening,List.flatMap_append,List.count_append,hslices]
    simp
  | okx resp =>
    refine count_batches (fun batch => ?_) (by decide) h
    exact count_slices (by simp [Listing.channels]) (by simp [Listing.channels]) 25 batch
  | hyperliquid names =>
    refine count_batches (fun batch => ?_) (by decide) h
    exact count_singles (by simp [Listing.channels]) (by simp [Listing.channels]) batch
  | paradex results =>
    refine count_batches (fun batch => ?_) (by decide) h
    exact count_singles (by simp [Listing.channels]) (by simp [Listing.channels]) batch

end Topics

section Runs

/-- What a new worker has, and turns keep, every worker has after a run. -/
theorem run_workers {I : WsWorker → Prop} (hnew : ∀ opening, I (.new opening))
    (hturn : ∀ now w going, I w → I (w.turn now going)) (openings : List SessionPlan)
    (acts : List CrewAct) : ∀ w ∈ (Crew.run openings acts).workers, I w := by
  refine @Steps.run_invariant Crew CrewAct Crew.step (fun crew =>
    ∀ w ∈ crew.workers, I w) _ ?_ ?_ acts
  · intro w hw
    obtain ⟨opening,_,rfl⟩ := List.mem_map.mp hw
    exact hnew opening
  intro crew act hkept
  cases act with
  | pass ns => exact hkept
  | worker workerId going =>
    intro w hw
    obtain ⟨i,hi⟩ := List.mem_iff_getElem?.mp hw
    simp only [Crew.step,List.getElem?_modify,Option.map_eq_map,Option.map_eq_some_iff] at hi
    obtain ⟨old,hold,rfl⟩ := hi
    have hmem := hkept old (List.mem_of_getElem? hold)
    split
    · unfold WsWorker.step
      split
      · exact hmem
      · exact hturn crew.now old going hmem
    · exact hmem

/-- A worker asks for its own topics, in their order. -/
def Asked (w : WsWorker) : Prop :=
  match w.phase with
  | .connecting => w.subscribed = []
  | .subscribing messages =>
    ∃ sent, w.opening = sent ++ messages ∧ w.subscribed = sent.flatMap Subscribe.topics
  | .reading => w.subscribed = w.opening.topics

theorem asked_hangUp (w : WsWorker) (failed : Bool) (now : Nat) : Asked (w.hangUp failed now) :=
  rfl

theorem asked_turn {w : WsWorker} (h : Asked w) (now : Nat) (going : Going) :
    Asked (w.turn now going) := by
  unfold WsWorker.turn
  split
  case h_1 hphase =>
    rw [Asked,hphase] at h
    cases going with
    | well => exact ⟨[],rfl,h⟩
    | closed => exact asked_hangUp w true now
    | failed => exact asked_hangUp w true now
  case h_2 hphase =>
    rw [Asked,hphase] at h
    obtain ⟨sent,hmessages,hsubscribed⟩ := h
    change w.subscribed = w.opening.topics
    rw [hsubscribed,SessionPlan.topics,hmessages,List.append_nil]
  case h_3 message messages hphase =>
    rw [Asked,hphase] at h
    obtain ⟨sent,hmessages,hsubscribed⟩ := h
    cases going with
    | well =>
      refine ⟨sent ++ [message],?_,?_⟩
      · simpa using hmessages
      · simp [hsubscribed]
    | closed => exact asked_hangUp w true now
    | failed => exact asked_hangUp w true now
  case h_4 hphase =>
    cases going with
    | well => exact h
    | closed => exact asked_hangUp w false now
    | failed => exact asked_hangUp w true now

theorem opening_turn (w : WsWorker) (now : Nat) (going : Going) :
    (w.turn now going).opening = w.opening := by
  unfold WsWorker.turn
  split <;> cases going <;> rfl

/-- The workers keep their sessions. -/
theorem run_openings (openings : List SessionPlan) (acts : List CrewAct) :
    (Crew.run openings acts).workers.map WsWorker.opening = openings := by
  refine @Steps.run_invariant Crew CrewAct Crew.step
    (fun crew => crew.workers.map WsWorker.opening = openings) _ ?_ ?_ acts
  · simp [Crew.new,WsWorker.new,Function.comp_def]
  · intro crew act hopenings
    cases act with
    | pass ns => exact hopenings
    | worker workerId going =>
      rw [← hopenings]
      apply List.ext_getElem?
      intro i
      simp only [Crew.step,List.getElem?_map,List.getElem?_modify]
      cases crew.workers[i]? with
      | none => rfl
      | some w =>
        by_cases hi : workerId = i
        · simp only [hi,if_true,Option.map_eq_map,Option.map_some,Option.some.injEq,WsWorker.step]
          split
          · rfl
          · exact opening_turn w crew.now going
        · simp [hi]

theorem run_asked (openings : List SessionPlan) (acts : List CrewAct) :
    ∀ w ∈ (Crew.run openings acts).workers, Asked w :=
  run_workers (fun _ => rfl) (fun now _ going h => asked_turn h now going) openings acts

end Runs

section Streams

variable {w : WsWorker} {topic : Topic}

/-- No worker is sent more than its session asks for. -/
theorem Asked.count_le (h : Asked w) : w.subscribed.count topic ≤ w.opening.topics.count topic := by
  cases hphase : w.phase with
  | subscribing messages =>
    rw [Asked,hphase] at h
    obtain ⟨sent,hmessages,hsubscribed⟩ := h
    rw [hsubscribed,SessionPlan.topics,hmessages,List.flatMap_append]
    exact (List.sublist_append_left _ _).count_le topic
  | reading =>
    rw [Asked,hphase] at h
    rw [h]
  | connecting =>
    rw [Asked,hphase] at h
    simp [h]

/-- What the exchange sends to all workers is at most what their sessions ask for, and as much when
they all read. -/
theorem streams_le (openings : List SessionPlan) (acts : List CrewAct) :
    (Crew.run openings acts).streams topic ≤ (openings.flatMap SessionPlan.topics).count topic ∧
      ((∀ w ∈ (Crew.run openings acts).workers, w.phase = .reading) →
        (Crew.run openings acts).streams topic =
          (openings.flatMap SessionPlan.topics).count topic) := by
  have hasked : ∀ w ∈ (Crew.run openings acts).workers, Asked w := run_asked openings acts
  have hopenings : (Crew.run openings acts).workers.map WsWorker.opening = openings :=
    run_openings openings acts
  have hall : (openings.flatMap SessionPlan.topics).count topic =
      ((Crew.run openings acts).workers.map (fun w => w.opening.topics.count topic)).sum := by
    rw [List.count_flatMap]
    conv_lhs => rw [← hopenings]
    rw [List.map_map]
    rfl
  rw [hall,Crew.streams]
  refine ⟨List.sum_le_sum (fun w hw => (hasked w hw).count_le),?_⟩
  intro hreading
  congr 1
  apply List.map_congr_left
  intro w hw
  have hw' := hasked w hw
  rw [Asked,hreading w hw] at hw'
  rw [hw']

end Streams

theorem instruments_nodup {listing : Listing} {instruments : List String}
    (h : listing.instruments = some instruments) : instruments.Nodup := by
  cases listing with
  | bybit pages =>
    obtain ⟨names,_,rfl⟩ := Option.map_eq_some_iff.mp h
    exact sortDedup_nodup _
  | bitget resp =>
    simp only [Listing.instruments,fetchBitgetSymbols] at h
    split at h
    · cases h
    · cases h
      exact sortDedup_nodup _
  | kucoin resp =>
    simp only [Listing.instruments,fetchValidContractSymbols] at h
    split at h
    · cases h
    · cases h
      exact sortDedup_nodup _
  | okx resp =>
    simp only [Listing.instruments,fetchValidUsdtSwapInstruments] at h
    split at h
    · cases h
    · cases h
      exact sortDedup_nodup _
  | hyperliquid names =>
    cases h
    exact sortDedup_nodup _
  | paradex results =>
    cases h
    exact sortDedup_nodup _

/-- Over any run of a connector's workers, a channel of an instrument comes over one connection at
most, over one when all of them read, and nothing else comes that is of an instrument. -/
theorem one_stream_an_instrument {listing : Listing} {instruments : List String}
    {openings : List SessionPlan} (hinstruments : listing.instruments = some instruments)
    (hopenings : listing.openings bits instruments = some openings) (acts : List CrewAct)
    (channel instrument : String) :
    (Crew.run openings acts).streams ⟨channel,some instrument⟩ ≤
        (if channel ∈ listing.channels ∧ instrument ∈ instruments then 1 else 0) ∧
      ((∀ w ∈ (Crew.run openings acts).workers, w.phase = .reading) →
        (Crew.run openings acts).streams ⟨channel,some instrument⟩ =
          if channel ∈ listing.channels ∧ instrument ∈ instruments then 1 else 0) := by
  have hcount : (openings.flatMap SessionPlan.topics).count ⟨channel,some instrument⟩ =
      if channel ∈ listing.channels ∧ instrument ∈ instruments then 1 else 0 := by
    rw [count_openings hopenings]
    by_cases hc : channel ∈ listing.channels
    · by_cases hi : instrument ∈ instruments
      · simp [hc,hi,List.count_eq_one_of_mem (instruments_nodup hinstruments) hi]
      · simp [hi,List.count_eq_zero.mpr hi]
    · simp [hc]
  rw [← hcount]
  exact streams_le openings acts

def paradexMarkets : List String :=
  ["AAVE-USD-PERP","ADA-USD-PERP","ARB-USD-PERP","AVAX-USD-PERP","BNB-USD-PERP","BTC-USD-PERP",
    "DOGE-USD-PERP","DOT-USD-PERP","ETH-USD-PERP","LINK-USD-PERP","LTC-USD-PERP","NEAR-USD-PERP",
    "OP-USD-PERP","SEI-USD-PERP","SOL-USD-PERP","SUI-USD-PERP","XRP-USD-PERP"]

/-- Two workers of Paradex. The connection of the first one fails once, after two messages. -/
def paradexActs : List CrewAct :=
  [.worker 0 .well,.worker 0 .well,.worker 0 .well,.pass (ms 30),.worker 0 .failed] ++
    (List.replicate 32 [.worker 0 .well,.worker 1 .well,.pass (ms 30)]).flatten

theorem markets_streamed :
    (Crew.run [paradexOpening (paradexMarkets.take 15),paradexOpening (paradexMarkets.drop 15)]
      paradexActs).streams ⟨"bbo",some "SUI-USD-PERP"⟩ = 1 := by
  have hinstruments : (Listing.paradex (paradexMarkets.map (⟨·,"PERP","USD"⟩))).instruments =
      some paradexMarkets := by
    have hsorted : paradexMarkets.mergeSort (fun a b => a ≤ b) = paradexMarkets :=
      List.mergeSort_of_pairwise (by decide)
    have hnames : fetchPerpMarkets (paradexMarkets.map (⟨·,"PERP","USD"⟩)) =
        sortDedup paradexMarkets := by
      simp [fetchPerpMarkets,List.filter_map,Function.comp_def]
    rw [Listing.instruments,hnames,sortDedup,hsorted]
    decide
  have hopenings : (Listing.paradex (paradexMarkets.map (⟨·,"PERP","USD"⟩))).openings 64
      paradexMarkets =
      some [paradexOpening (paradexMarkets.take 15),paradexOpening (paradexMarkets.drop 15)] := by
    simp [Listing.openings,chunkVec,chunkLoop,paradexMarkets]
  have hreading : ∀ w ∈ (Crew.run [paradexOpening (paradexMarkets.take 15),
      paradexOpening (paradexMarkets.drop 15)] paradexActs).workers, w.phase = .reading := by
    decide +kernel
  have hone := (one_stream_an_instrument hinstruments hopenings paradexActs "bbo" "SUI-USD-PERP").2
      hreading
  simpa [Listing.channels,paradexMarkets] using hone

end SpreadArb.Proofs.Subscriptions
