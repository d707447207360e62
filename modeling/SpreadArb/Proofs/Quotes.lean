import SpreadArb.Feed
import SpreadArb.Proofs.Detection

namespace SpreadArb.Proofs.Quotes
open Numeric Detector Detection

section Prices

theorem ofRat_ne_nan (q : ℚ) : F64.ofRat q ≠ .nan := by
  unfold F64.ofRat
  split_ifs <;> exact F64.noConfusion

theorem parseNumber_ne_nan (cs : List Char) : F64.parseNumber cs ≠ some .nan := by
  intro h
  unfold F64.parseNumber at h
  dsimp only at h
  split at h <;>
  · split at h
    · cases h
    · obtain ⟨e,_,he⟩ := Option.map_eq_some_iff.mp h
      exact ofRat_ne_nan _ he

/-- Only the word itself reads as no number. -/
theorem parseUnsigned_nan {cs : List Char} (h : F64.parseUnsigned cs = some .nan) :
    cs.map Char.toLower = ['n','a','n'] := by
  unfold F64.parseUnsigned at h
  dsimp only at h
  split at h
  · cases h
  · split at h
    · next hn => exact hn
    · exact absurd h (parseNumber_ne_nan cs)

theorem neg_eq_nan {x : F64} (h : x.neg = .nan) : x = .nan := by
  cases x <;> first | rfl | cases h

/-- A letter that is an `n` in lower case starts no price. -/
theorem scanPrice_n {c : Char} (h : c.toLower = 'n') (cs : List Char) (r d : Nat) (f : Bool) :
    scanPrice (c :: cs) r d f = .invalid := by
  have hdot : c ≠ '.' := by
    rintro rfl
    exact absurd h (by decide)
  have he : c ≠ 'e' := by
    rintro rfl
    exact absurd h (by decide)
  have hE : c ≠ 'E' := by
    rintro rfl
    exact absurd h (by decide)
  have hdigit : c.isDigit = false := by
    by_contra hd
    have hd : c.isDigit = true := by simpa using hd
    have hup : ¬ (c.val ≥ 'A'.val ∧ c.val ≤ 'Z'.val) := by
      simp only [Char.isDigit,Bool.and_eq_true,decide_eq_true_eq] at hd
      intro hA
      have h1 := UInt32.le_iff_toNat_le.mp hd.2
      have h2 := UInt32.le_iff_toNat_le.mp hA.1
      have h3 : ('9' : Char).val.toNat = 57 := rfl
      have h4 : ('A' : Char).val.toNat = 65 := rfl
      omega
    have hc : c = 'n' := by
      rw [← h]
      unfold Char.toLower
      rw [dif_neg hup]
    rw [hc] at hd
    exact absurd hd (by decide)
  simp [scanPrice,hdot,he,hE,hdigit]

/-- What the standard parser takes for no number is a sign and that word at most. -/
theorem parse_nan {cs : List Char} (h : F64.parse cs = some .nan) :
    ∃ sign word, cs = sign ++ word ∧ (sign = [] ∨ sign = ['-'] ∨ sign = ['+']) ∧
      word.map Char.toLower = ['n','a','n'] := by
  unfold F64.parse at h
  split at h
  · next ds =>
    obtain ⟨x,hx,hn⟩ := Option.map_eq_some_iff.mp h
    rw [neg_eq_nan hn] at hx
    exact ⟨['-'],ds,rfl,.inr (.inl rfl),parseUnsigned_nan hx⟩
  · next ds => exact ⟨['+'],ds,rfl,.inr (.inr rfl),parseUnsigned_nan h⟩
  · exact ⟨[],cs,rfl,.inl rfl,parseUnsigned_nan h⟩

/-- No price is read as no number: the word for it is short, and stops the fast loop. -/
theorem parsePriceFast_ne_nan (cs : List Char) : parsePriceFast cs ≠ some .nan := by
  intro h
  have hstd : F64.parse cs = some .nan := by
    unfold parsePriceFast at h
    split at h
    · exact h
    · split at h
      · cases h
      · exact h
      · cases h
  obtain ⟨sign,word,rfl,hsign,hword⟩ := parse_nan hstd
  obtain ⟨c,cs,rfl⟩ : ∃ c cs, word = c :: cs := by
    cases word with
    | nil => cases hword
    | cons c cs => exact ⟨c,cs,rfl⟩
  have hlen : (c :: cs).length = 3 := by
    have := congrArg List.length hword
    simpa using this
  have hn : c.toLower = 'n' := by
    simp only [List.map_cons,List.cons.injEq] at hword
    exact hword.1
  have hsmall : ((sign ++ c :: cs).map Char.utf8Size).sum ≤ 32 := by
    have hle : ((sign ++ c :: cs).map Char.utf8Size).sum ≤
        ((sign ++ c :: cs).map Char.utf8Size).length • 4 :=
      List.sum_le_card_nsmul _ 4 (fun n hn => by
        obtain ⟨d,_,rfl⟩ := List.mem_map.mp hn
        exact Char.utf8Size_le_four d)
    have hs : sign.length ≤ 1 := by
      rcases hsign with rfl | rfl | rfl <;> decide
    simp only [List.length_map,List.length_append,smul_eq_mul] at hle
    omega
  unfold parsePriceFast at h
  have hcond : (decide (sign ++ c :: cs = []) ||
      decide (((sign ++ c :: cs).map Char.utf8Size).sum > 32)) = false := by
    simp only [Bool.or_eq_false_iff,decide_eq_false_iff_not]
    exact ⟨by simp,not_lt.mpr hsmall⟩
  rw [if_neg (by rw [hcond]; exact Bool.false_ne_true)] at h
  have hscan : scanPrice (splitSign (sign ++ c :: cs)).2 0 0 false = .invalid := by
    rcases hsign with rfl | rfl | rfl
    · have hsplit : splitSign (c :: cs) = (false,c :: cs) := by
        unfold splitSign
        split
        · next he =>
          rw [(List.cons.inj he).1] at hn
          exact absurd hn (by decide)
        · rfl
      rw [List.nil_append,hsplit]
      exact scanPrice_n hn cs 0 0 false
    · exact scanPrice_n hn cs 0 0 false
    · rfl
  rw [hscan] at h
  cases h

theorem parsePriceSimd_ne_nan {s : String} {x : F64}
    (h : parsePriceSimd s = some x) : x ≠ .nan := by
  unfold parsePriceSimd at h
  split at h
  · cases h
  · rintro rfl
    exact parsePriceFast_ne_nan _ h

/-- A quote that gets through has its prices in order. -/
theorem parseQuote_sound {lib : Library} {exchange value : String} {bid ask : F64}
    (h : parseQuote lib exchange value = some (bid,ask)) :
    F64.lt (.fin 0) bid = true ∧ bid.lt ask = true := by
  unfold parseQuote at h
  simp only [Option.bind_eq_bind,Option.bind_eq_some_iff] at h
  obtain ⟨json,_,bidStr,_,askStr,_,b,hb,a,ha,h⟩ := h
  split at h
  · cases h
  · next hc =>
    cases h
    simp only [Bool.or_eq_true,not_or,Bool.not_eq_true] at hc
    have hbn := parsePriceSimd_ne_nan hb
    have han := parsePriceSimd_ne_nan ha
    obtain ⟨⟨h1,_⟩,h3⟩ := hc
    rw [F64.le_eq_not_lt hbn (by simp)] at h1
    rw [F64.le_eq_not_lt han hbn] at h3
    exact ⟨by simpa using h1,by simpa using h3⟩

end Prices

section Ids

/-- The two directions of the map agree, and no id is ahead of the counter. -/
structure Sound (m : SymbolMap) : Prop where
  back : ∀ p i, m.toId p = some i → m.fromId i = some p
  below : ∀ p i, m.toId p = some i → i < m.nextId

theorem sound_empty : Sound .empty := ⟨fun _ _ h => (nomatch h),fun _ _ h => (nomatch h)⟩

/-- While the counter fits into 32 bits, a new pair gets an id of its own. -/
theorem sound_insert {m : SymbolMap} (h : Sound m) {pair : Pair} (hb : m.nextId < 2 ^ 32) :
    Sound (m.insert pair) := by
  have hid : m.nextId % 2 ^ 32 = m.nextId := Nat.mod_eq_of_lt hb
  constructor
  · intro p i hp
    simp only [SymbolMap.insert,hid] at hp ⊢
    split at hp
    · next he =>
      cases hp
      rw [if_pos rfl,he]
    · rw [if_neg (h.below p i hp).ne]
      exact h.back p i hp
  · intro p i hp
    simp only [SymbolMap.insert,hid] at hp ⊢
    split at hp
    · cases hp
      exact Nat.lt_succ_self _
    · exact (h.below p i hp).trans (Nat.lt_succ_self _)

theorem sound_getOrInsert {m : SymbolMap} (h : Sound m) {exchange symbol : String}
    (hb : (m.getOrInsert exchange symbol).2.nextId ≤ 2 ^ 32) :
    Sound (m.getOrInsert exchange symbol).2 := by
  cases hk : m.toId (exchange,symbol) with
  | some i =>
    rw [getOrInsert_known hk]
    exact h
  | none =>
    rw [getOrInsert_new hk] at hb ⊢
    exact sound_insert h hb

theorem sound_register {m : SymbolMap} (h : Sound m) (pairs : List Pair)
    (hb : (m.register pairs).nextId ≤ 2 ^ 32) : Sound (m.register pairs) := by
  induction pairs generalizing m with
  | nil => exact h
  | cons p pairs ih =>
    refine ih (sound_getOrInsert h ?_) hb
    exact (register_extends pairs _).nextId.trans hb

/-- A pair outside the list stays unknown. -/
theorem register_unknown {m : SymbolMap} {p : Pair} (h : m.toId p = none) {pairs : List Pair}
    (hp : p ∉ pairs) : (m.register pairs).toId p = none := by
  induction pairs generalizing m with
  | nil => exact h
  | cons q pairs ih =>
    simp only [List.mem_cons,not_or] at hp
    refine ih ?_ hp.2
    cases hk : m.toId (q.1,q.2) with
    | some i =>
      rw [getOrInsert_known hk]
      exact h
    | none =>
      rw [getOrInsert_new hk]
      simp [SymbolMap.insert,hp.1,h]

/-- New pairs get one id each. -/
theorem register_nextId {m : SymbolMap} {pairs : List Pair} (h : ∀ p ∈ pairs, m.toId p = none)
    (hn : pairs.Nodup) : (m.register pairs).nextId = m.nextId + pairs.length := by
  induction pairs generalizing m with
  | nil => rfl
  | cons q pairs ih =>
    obtain ⟨hq,hrest⟩ := List.nodup_cons.mp hn
    have hnew : m.toId (q.1,q.2) = none := h q List.mem_cons_self
    unfold SymbolMap.register
    rw [getOrInsert_new hnew,ih (fun p hp => ?_) hrest]
    · simp only [SymbolMap.insert,List.length_cons]
      omega
    · have hne : p ≠ q := fun he => hq (he ▸ hp)
      simp [SymbolMap.insert,hne,h p (List.mem_cons_of_mem _ hp)]

theorem sound_new : Sound .new := sound_register sound_empty _ (by decide +kernel)

theorem sound_injective {m : SymbolMap} (h : Sound m) {p q : Pair} {i : Nat}
    (hp : m.toId p = some i) (hq : m.toId q = some i) : p = q :=
  Option.some.inj ((h.back p i hp).symm.trans (h.back q i hq))

end Ids

section Parsing

variable {lib : Library} {m : SymbolMap} {key value : String} {us : Nat}

/-- All that `parse_to_market_update` can do. -/
theorem parse_cases (lib : Library) (m : SymbolMap) (key value : String) (us : Nat) :
    parseToMarketUpdate lib m key value us = (none,m) ∨
    ∃ exchange symbol bid ask, keyPair lib key = some (exchange,symbol) ∧
      parseQuote lib exchange value = some (bid,ask) ∧
      parseToMarketUpdate lib m key value us =
        (some ⟨(m.getOrInsert exchange symbol).1,bid,ask,us⟩,
          (m.getOrInsert exchange symbol).2) := by
  unfold parseToMarketUpdate
  cases hk : keyPair lib key with
  | none => exact .inl rfl
  | some pair =>
    obtain ⟨exchange,symbol⟩ := pair
    cases hq : parseQuote lib exchange value with
    | none =>
      left
      simp [hq]
    | some p =>
      right
      exact ⟨exchange,symbol,p.1,p.2,rfl,hq,by simp [hq]⟩

/-- An accepted message is known under its key, and a refused one leaves the map alone. -/
theorem parse_maps (h : Sound m) (hb : (parseToMarketUpdate lib m key value us).2.nextId ≤ 2 ^ 32) :
    (∀ u, (parseToMarketUpdate lib m key value us).1 = some u →
      ∃ pair, keyPair lib key = some pair ∧
        (parseToMarketUpdate lib m key value us).2.get u.symbolId = some pair) ∧
    ((parseToMarketUpdate lib m key value us).1 = none →
      (parseToMarketUpdate lib m key value us).2 = m) := by
  rcases parse_cases lib m key value us with
    he | ⟨exchange,symbol,bid,ask,hk,_,he⟩
  · rw [he]
    exact ⟨fun u hu => (nomatch hu),fun _ => rfl⟩
  · rw [he] at hb ⊢
    refine ⟨fun u hu => ?_,fun hn => (nomatch hn)⟩
    cases hu
    exact ⟨(exchange,symbol),hk,
      (sound_getOrInsert h hb).back _ _ (getOrInsert_registers m exchange symbol)⟩

end Parsing

section Feed

/-- A slot that nothing was written to, or one with its prices in order and an ask with `A`. -/
def SlotSound (A : F64 → Prop) (slot : Slot) : Prop :=
  slot = .zero ∨ (F64.lt (.fin 0) slot.bid = true ∧ slot.bid.lt slot.ask = true ∧ A slot.ask)

/-- The newest update of a pair that the detector has taken. -/
def latest (processed : List Tagged) (pair : Pair) : Option MarketUpdate :=
  (processed.find? (fun t => t.pair = pair)).map Tagged.update

/-- An update in the feed: its id is the one of its pair, and its prices are in order. -/
structure Genuine (A : F64 → Prop) (m : SymbolMap) (t : Tagged) : Prop where
  id_eq : m.toId t.pair = some t.update.symbolId
  bid_pos : F64.lt (.fin 0) t.update.bid = true
  ordered : t.update.bid.lt t.update.ask = true
  ask : A t.update.ask

theorem Genuine.extend {A : F64 → Prop} {m m' : SymbolMap} (h : Extends m m') {t : Tagged}
    (ht : Genuine A m t) : Genuine A m' t := { ht with id_eq := h.toId _ _ ht.id_eq }

/-- What the feed keeps, for a property `A` of the asks that come in. -/
structure Kept (A : F64 → Prop) (s : Feed) : Prop where
  sound : Sound s.map
  queue : ∀ t ∈ s.queue, Genuine A s.map t
  slots : ∀ i, SlotSound A (s.store.slots i)
  count : s.store.count ≤ maxSymbols
  processed : ∀ t ∈ s.processed, Genuine A s.map t
  stored : ∀ pair u, latest s.processed pair = some u → u.symbolId < maxSymbols →
    s.store.slots u.symbolId = ⟨u.bid,u.ask,u.timestampUs,u.symbolId⟩ ∧ u.symbolId < s.store.count

variable {A : F64 → Prop} {lib : Library}

theorem kept_fresh {m : SymbolMap} (h : Sound m) : Kept A ⟨m,[],.new,[],[]⟩ where
  sound := h
  queue _ ht := (nomatch ht)
  slots _ := .inl rfl
  count := Nat.zero_le _
  processed _ ht := (nomatch ht)
  stored _ _ hu := (nomatch hu)

theorem kept_new : Kept A .new := kept_fresh sound_new

/-- The feed with another map that knows no less. -/
theorem kept_map {s : Feed} (h : Kept A s) {m : SymbolMap} (hm : Sound m) (he : Extends s.map m)
    (passes : List (List Opportunity)) : Kept A { s with map := m, passes } where
  sound := hm
  queue t ht := (h.queue t ht).extend he
  slots := h.slots
  count := h.count
  processed t ht := (h.processed t ht).extend he
  stored := h.stored

theorem mem_pushBounded {α : Type} {capacity : Nat} {queue : List α} {a b : α}
    (h : b ∈ pushBounded capacity queue a) : b ∈ queue ∨ b = a := by
  unfold pushBounded at h
  split at h
  · simpa using h
  · rcases List.mem_append.mp h with h | h
    · exact .inl (List.mem_of_mem_drop h)
    · exact .inr (by simpa using h)

/-- The asks of a message have `A`. -/
def Brings (A : F64 → Prop) (lib : Library) : FeedStep → Prop
  | .message key value _ => ∀ pair bid ask, keyPair lib key = some pair →
    parseQuote lib pair.1 value = some (bid,ask) → A ask
  | _ => True

theorem kept_bridge {s : Feed} (h : Kept A s) {key value : String} {us : Nat}
    (hA : Brings A lib (.message key value us))
    (hb : (s.bridge lib key value us).map.nextId ≤ 2 ^ 32) :
    Kept A (s.bridge lib key value us) := by
  unfold Feed.bridge at hb ⊢
  rcases parse_cases lib s.map key value us with
    he | ⟨exchange,symbol,bid,ask,hk,hq,he⟩
  · rw [he]
    cases keyPair lib key <;> exact kept_map h h.sound (.refl _) s.passes
  · rw [he,hk] at hb ⊢
    have hext := getOrInsert_extends s.map exchange symbol
    have hmap := kept_map h (sound_getOrInsert h.sound hb) hext s.passes
    obtain ⟨hpos,hlt⟩ := parseQuote_sound hq
    refine { hmap with queue := fun t ht => ?_ }
    rcases mem_pushBounded ht with ht | rfl
    · exact hmap.queue t ht
    · exact ⟨getOrInsert_registers s.map exchange symbol,hpos,hlt,hA _ _ _ hk hq⟩

/-- The store takes an update. -/
theorem slots_update {d : MarketDataStore} {u : MarketUpdate} (h : u.symbolId < maxSymbols) :
    (d.update u).slots u.symbolId = ⟨u.bid,u.ask,u.timestampUs,u.symbolId⟩ ∧
      u.symbolId < (d.update u).count := by
  unfold MarketDataStore.update
  rw [if_pos h]
  refine ⟨if_pos rfl,?_⟩
  dsimp only
  split <;> omega

theorem slots_other {d : MarketDataStore} {u : MarketUpdate} {i : Nat} (h : i ≠ u.symbolId) :
    (d.update u).slots i = d.slots i := by
  unfold MarketDataStore.update
  split
  · exact if_neg h
  · rfl

theorem count_mono (d : MarketDataStore) (u : MarketUpdate) : d.count ≤ (d.update u).count := by
  unfold MarketDataStore.update
  split
  · dsimp only
    split <;> omega
  · exact le_rfl

theorem count_le {d : MarketDataStore} (h : d.count ≤ maxSymbols) (u : MarketUpdate) :
    (d.update u).count ≤ maxSymbols := by
  unfold MarketDataStore.update
  split
  · dsimp only
    split <;> omega
  · exact h

/-- The detector takes the oldest update of the queue. -/
theorem kept_take {s : Feed} (h : Kept A s) {u : Tagged} {queue : List Tagged}
    (hq : s.queue = u :: queue) :
    Kept A { s with queue, store := s.store.update u.update, processed := u :: s.processed } where
  sound := h.sound
  queue t ht := h.queue t (hq ▸ List.mem_cons_of_mem _ ht)
  slots i := by
    have hu := h.queue u (hq ▸ List.mem_cons_self)
    by_cases hi : i = u.update.symbolId
    · subst hi
      by_cases hlt : u.update.symbolId < maxSymbols
      · rw [(slots_update hlt).1]
        exact .inr ⟨hu.bid_pos,hu.ordered,hu.ask⟩
      · have hsame : s.store.update u.update = s.store := if_neg hlt
        rw [hsame]
        exact h.slots _
    · rw [slots_other hi]
      exact h.slots i
  count := count_le h.count _
  processed t ht := by
    rcases List.mem_cons.mp ht with rfl | ht
    · exact h.queue t (hq ▸ List.mem_cons_self)
    · exact h.processed t ht
  stored pair v hv hlt := by
    have hu := h.queue u (hq ▸ List.mem_cons_self)
    unfold latest at hv
    rw [List.find?_cons] at hv
    split at hv
    · cases hv
      exact slots_update hlt
    · next hp =>
      -- an older update of another pair, and so of another id
      obtain ⟨hs,hc⟩ := h.stored pair v hv hlt
      obtain ⟨t,ht,rfl⟩ := Option.map_eq_some_iff.mp hv
      have hpair : t.pair = pair := by simpa using List.find?_some ht
      have hgen := h.processed t (List.mem_of_find?_eq_some ht)
      have hne : t.update.symbolId ≠ u.update.symbolId := by
        intro he
        have := sound_injective h.sound hgen.id_eq (he ▸ hu.id_eq)
        simp only [decide_eq_false_iff_not] at hp
        exact hp (this ▸ hpair)
      refine ⟨?_,hc.trans_le (count_mono _ _)⟩
      dsimp only
      rw [slots_other hne]
      exact hs

theorem detectorTurn_map (s : Feed) (secs : String → String → Nat) :
    Extends s.map (s.detectorTurn secs).map := by
  unfold Feed.detectorTurn
  split
  · exact .refl _
  · dsimp only
    split
    · exact .refl _
    · rw [detect_eq]
      exact register_extends _ _

theorem register_nextId_le (m : SymbolMap) (pairs : List Pair) :
    (m.register pairs).nextId ≤ m.nextId + pairs.length := by
  induction pairs generalizing m with
  | nil => exact le_rfl
  | cons p pairs ih =>
    have hstep : (m.getOrInsert p.1 p.2).2.nextId ≤ m.nextId+1 := by
      cases hk : m.toId (p.1,p.2) with
      | some i =>
        rw [getOrInsert_known hk]
        exact Nat.le_succ _
      | none =>
        rw [getOrInsert_new hk]
        exact le_rfl
    have hrest := ih (m.getOrInsert p.1 p.2).2
    simp only [SymbolMap.register,List.length_cons]
    omega

/-- A pass hands out eight ids at most. -/
theorem detectorTurn_nextId (s : Feed) (secs : String → String → Nat) :
    (s.detectorTurn secs).map.nextId ≤ s.map.nextId + 8 := by
  unfold Feed.detectorTurn
  split
  · exact Nat.le_add_right _ _
  · dsimp only
    split
    · exact Nat.le_add_right _ _
    · rw [detect_eq]
      exact register_nextId_le _ _

theorem kept_detectorTurn {s : Feed} (h : Kept A s) {secs : String → String → Nat}
    (hb : (s.detectorTurn secs).map.nextId ≤ 2 ^ 32) : Kept A (s.detectorTurn secs) := by
  unfold Feed.detectorTurn at hb ⊢
  split at hb
  · exact h
  · next u queue hq =>
    have htake := kept_take h hq
    dsimp only at hb ⊢
    split at hb
    · exact htake
    · next exchange symbol hn =>
      rw [detect_eq] at hb ⊢
      exact kept_map htake (sound_register h.sound _ hb) (register_extends _ _) _

theorem step_extends (s : Feed) (a : FeedStep) : Extends s.map (s.step lib a).map := by
  cases a with
  | message key value us =>
    change Extends s.map (s.bridge lib key value us).map
    unfold Feed.bridge
    rcases parse_cases lib s.map key value us with
      he | ⟨exchange,symbol,bid,ask,hk,hq,he⟩
    · rw [he]
      cases keyPair lib key <;> exact .refl _
    · rw [he,hk]
      exact getOrInsert_extends _ _ _
  | detect secs => exact detectorTurn_map s secs
  | lookup exchange symbol => exact getOrInsert_extends _ _ _

theorem run_extends (steps : List FeedStep) (s : Feed) : Extends s.map (s.run lib steps).map := by
  induction steps generalizing s with
  | nil => exact .refl _
  | cons a steps ih => exact (step_extends s a).trans (ih _)

theorem run_append (a b : List FeedStep) (s : Feed) :
    s.run lib (a ++ b) = (s.run lib a).run lib b := by
  induction a generalizing s with
  | nil => rfl
  | cons x a ih => exact ih _

theorem run_lookups (pairs : List Pair) (s : Feed) :
    s.run lib (pairs.map (fun p => .lookup p.1 p.2)) = { s with map := s.map.register pairs } := by
  induction pairs generalizing s with
  | nil => rfl
  | cons p pairs ih => exact ih _

theorem run_after_lookups (m : SymbolMap) (pairs : List Pair) (steps : List FeedStep) :
    (⟨m,[],.new,[],[]⟩ : Feed).run lib (pairs.map (fun p => .lookup p.1 p.2) ++ steps) =
      (⟨m.register pairs,[],.new,[],[]⟩ : Feed).run lib steps := by
  rw [run_append,run_lookups]

theorem kept_step {s : Feed} (h : Kept A s) {a : FeedStep} (hA : Brings A lib a)
    (hb : (s.step lib a).map.nextId ≤ 2 ^ 32) : Kept A (s.step lib a) := by
  cases a with
  | message key value us => exact kept_bridge h hA hb
  | detect secs => exact kept_detectorTurn h hb
  | lookup exchange symbol =>
    exact kept_map h (sound_getOrInsert h.sound hb) (getOrInsert_extends _ _ _) s.passes

theorem kept_run (steps : List FeedStep) {s : Feed} (h : Kept A s)
    (hA : ∀ a ∈ steps, Brings A lib a) (hb : (s.run lib steps).map.nextId ≤ 2 ^ 32) :
    Kept A (s.run lib steps) := by
  induction steps generalizing s with
  | nil => exact h
  | cons a steps ih =>
    have hstep : (s.step lib a).map.nextId ≤ 2 ^ 32 := (run_extends steps _).nextId.trans hb
    exact ih (kept_step h (hA a List.mem_cons_self) hstep)
      (fun b hm => hA b (List.mem_cons_of_mem _ hm)) hb

end Feed

/-- What `get_prices` answers for a pair with an update that was taken. -/
theorem kept_found {s : Feed} (hk : Kept (fun _ => True) s) {pair : Pair} {u : MarketUpdate}
    (hu : latest s.processed pair = some u) :
    (getPrices s.map s.store pair.1 pair.2).1 = some (u.bid,u.ask) ↔ u.symbolId < maxSymbols := by
  obtain ⟨t,ht,rfl⟩ := Option.map_eq_some_iff.mp hu
  have hpair : t.pair = pair := by simpa using List.find?_some ht
  have hgen := hk.processed t (List.mem_of_find?_eq_some ht)
  have hid : s.map.toId (pair.1,pair.2) = some t.update.symbolId := by
    rw [← hgen.id_eq,hpair]
  rw [(getPrices_known s.store pair.2 hid).2]
  constructor
  · rintro ⟨hq,_,_⟩
    unfold quote at hq
    rw [hid] at hq
    by_contra hge
    have hnone : s.store.getBid t.update.symbolId = none :=
      if_neg (not_lt.mpr (hk.count.trans (not_lt.mp hge)))
    simp [hnone] at hq
  · intro hlt
    obtain ⟨hslot,hcount⟩ := hk.stored pair t.update hu hlt
    have hbid : s.store.getBid t.update.symbolId = some t.update.bid := by
      unfold MarketDataStore.getBid
      rw [if_pos hcount,hslot]
    have hask : s.store.getAsk t.update.symbolId = some t.update.ask := by
      unfold MarketDataStore.getAsk
      rw [if_pos hcount,hslot]
    refine ⟨?_,lt_not_le hgen.bid_pos,lt_not_le ?_⟩
    · unfold quote
      rw [hid]
      simp [hbid,hask]
    · have h1 := hgen.bid_pos
      have h2 := hgen.ordered
      cases hb : t.update.bid <;> cases ha : t.update.ask <;> simp_all [F64.lt]
      linarith

theorem brings_true (lib : Library) (a : FeedStep) : Brings (fun _ => True) lib a := by
  cases a <;> simp [Brings]

/-- What the store shows for a pair is the newest quote of it that the detector has taken,
if and only if the pair has an id with a slot. -/
theorem accepted_quote_found_iff (lib : Library) (steps : List FeedStep)
    (hb : (Feed.new.run lib steps).map.nextId ≤ 2 ^ 32) (pair : Pair) (u : MarketUpdate)
    (hu : latest (Feed.new.run lib steps).processed pair = some u) :
    let s := Feed.new.run lib steps
    (getPrices s.map s.store pair.1 pair.2).1 = some (u.bid,u.ask) ↔ u.symbolId < maxSymbols :=
  kept_found (kept_run steps kept_new (fun a _ => brings_true lib a) hb) hu

section Directions

variable (store : MarketDataStore) (symbol : String) (secs : String → String → Nat)

/-- No two opportunities of a pass are the reverse of each other. -/
def OneDirection (pass : List Opportunity) : Prop :=
  ∀ o ∈ pass, ∀ o' ∈ pass, ¬ (o'.longExchange = o.shortExchange ∧ o'.shortExchange = o.longExchange)

instance (pass : List Opportunity) : Decidable (OneDirection pass) :=
  inferInstanceAs (Decidable (∀ o ∈ pass, ∀ o' ∈ pass,
    ¬ (o'.longExchange = o.shortExchange ∧ o'.shortExchange = o.longExchange)))

/-- Both prices of an offer come from one slot, so they are in order. -/
theorem offered_ordered {m : SymbolMap} {exchange : String} {bid ask : F64}
    (hslots : ∀ i, SlotSound (fun x => x.isFinite = true) (store.slots i))
    (h : Offered store symbol m exchange bid ask) :
    ∃ x y : ℚ, bid = .fin x ∧ ask = .fin y ∧ 0 < x ∧ x < y := by
  have hq := h.quoted
  unfold quote at hq
  split at hq
  · cases hq
  · next i _ =>
    split at hq
    · next b a hb ha =>
      cases hq
      unfold MarketDataStore.getBid at hb
      unfold MarketDataStore.getAsk at ha
      split at hb
      · next hi =>
        rw [if_pos hi] at ha
        cases hb
        cases ha
        rcases hslots i with hz | ⟨hpos,hlt,hfin⟩
        · have := h.bid_pos
          rw [hz] at this
          exact absurd this (by decide)
        · cases hy : (store.slots i).ask with
          | fin y =>
            cases hx : (store.slots i).bid with
            | fin x =>
              rw [hx] at hpos
              rw [hx,hy] at hlt
              exact ⟨x,y,rfl,rfl,by simpa using hpos,by simpa using hlt⟩
            | inf => rw [hx,hy] at hlt; cases hlt
            | negInf => rw [hx] at hpos; cases hpos
            | nan => rw [hx] at hpos; cases hpos
          | inf => rw [hy] at hfin; cases hfin
          | negInf => rw [hy] at hfin; cases hfin
          | nan => rw [hy] at hfin; cases hfin
      · cases hb
    · cases hq

/-- A direction that passes sells above the price it buys at. -/
theorem passes_sells_above {long short : String} {y x : ℚ} (hy : 0 < y)
    (h : Passes symbol long short (.fin y) (.fin x)) : y < x := by
  by_contra hle
  have hdiff : F64.le (.fin x - .fin y) (.fin 0) = true := by
    rw [F64.fin_sub,← F64.round_zero]
    exact F64.round_mono (by linarith)
  have hquot : F64.le ((.fin x - .fin y) / .fin y) (.fin 0) = true := by
    have := F64.div_mono hdiff hy
    rwa [F64.fin_div hy.ne',zero_div,F64.round_zero] at this
  have hspread : F64.le (spread (.fin y) (.fin x)) (.fin 0) = true := by
    have := F64.mul_mono hquot (c := 10000) (by norm_num)
    rwa [F64.fin_mul,zero_mul,F64.round_zero] at this
  have hwide := h.wide
  rw [F64.le_trans hspread (by decide)] at hwide
  cases hwide

/-- Quotes in order with finite asks do not let both directions pass. -/
theorem detect_oneDirection {m : SymbolMap} {updated : String}
    (hslots : ∀ i, SlotSound (fun x => x.isFinite = true) (store.slots i)) :
    OneDirection (detectOpportunitiesForSymbol store symbol secs m updated).1 := by
  rintro o ho o' ho' ⟨hl,hs⟩
  obtain ⟨long,short,b,ask,bid,a,h1,h2,_,hpass,rfl⟩ := (mem_detect store symbol secs _ _).mp ho
  obtain ⟨long',short',b',ask',bid',a',h1',h2',_,hpass',rfl⟩ :=
    (mem_detect store symbol secs _ _).mp ho'
  cases (show long' = short from hl)
  cases (show short' = long from hs)
  cases (h2.quoted.symm.trans h1'.quoted)
  cases (h1.quoted.symm.trans h2'.quoted)
  obtain ⟨x,y,rfl,rfl,hx,hxy⟩ := offered_ordered store symbol hslots h1
  obtain ⟨z,w,rfl,rfl,hz,hzw⟩ := offered_ordered store symbol hslots h2
  have h3 := passes_sells_above symbol (hx.trans hxy) hpass
  have h4 := passes_sells_above symbol (hz.trans hzw) hpass'
  linarith

end Directions

theorem oneDirection_run {lib : Library} (steps : List FeedStep) {s : Feed}
    (h : Kept (fun x => x.isFinite = true) s)
    (hA : ∀ a ∈ steps, Brings (fun x => x.isFinite = true) lib a)
    (hb : (s.run lib steps).map.nextId ≤ 2 ^ 32) (hp : ∀ pass ∈ s.passes, OneDirection pass) :
    ∀ pass ∈ (s.run lib steps).passes, OneDirection pass := by
  induction steps generalizing s with
  | nil => exact hp
  | cons a steps ih =>
    have hstep : (s.step lib a).map.nextId ≤ 2 ^ 32 := (run_extends steps _).nextId.trans hb
    refine ih (kept_step h (hA a List.mem_cons_self) hstep)
      (fun b hm => hA b (List.mem_cons_of_mem _ hm)) hb ?_
    cases a with
    | message key value us =>
      change ∀ pass ∈ (s.bridge lib key value us).passes, _
      unfold Feed.bridge
      split <;> exact hp
    | lookup exchange symbol => exact hp
    | detect secs =>
      change ∀ pass ∈ (s.detectorTurn secs).passes, _
      unfold Feed.detectorTurn
      split
      · exact hp
      · next u queue hq =>
        dsimp only
        split
        · exact hp
        · intro pass hm
          rcases List.mem_cons.mp hm with rfl | hm
          · exact detect_oneDirection _ _ _ (kept_take h hq).slots
          · exact hp pass hm

/-- Whatever comes in, the slots hold quotes in order and the ids name their keys; and with
finite asks no pass publishes a direction and its reverse. -/
theorem feed_stays_sound (lib : Library) (steps : List FeedStep)
    (hfin : ∀ a ∈ steps, Brings (fun x => x.isFinite = true) lib a)
    (hb : (Feed.new.run lib steps).map.nextId ≤ 2 ^ 32) :
    let s := Feed.new.run lib steps
    (∀ i, SlotSound (fun _ => True) (s.store.slots i)) ∧
    (∀ key value us, (parseToMarketUpdate lib s.map key value us).2.nextId ≤ 2 ^ 32 →
      (∀ u, (parseToMarketUpdate lib s.map key value us).1 = some u →
        ∃ pair, keyPair lib key = some pair ∧
          (parseToMarketUpdate lib s.map key value us).2.get u.symbolId = some pair) ∧
      ((parseToMarketUpdate lib s.map key value us).1 = none →
        (parseToMarketUpdate lib s.map key value us).2 = s.map)) ∧
    ∀ pass ∈ s.passes, OneDirection pass := by
  intro s
  have hk : Kept (fun x => x.isFinite = true) s := kept_run steps kept_new hfin hb
  refine ⟨fun i => ?_,fun key value us hn => parse_maps hk.sound hn,?_⟩
  · exact (hk.slots i).imp_right (fun h => ⟨h.1,h.2.1,trivial⟩)
  · exact oneDirection_run steps kept_new hfin hb (fun pass hm => (nomatch hm))

section Scenes

/-- The text of an object with these fields. -/
def inBraces (fields : String) : String := ("".push '{' ++ fields).push '}'

/-- A ticker of bybit and of okx, as text and as the value it stands for. -/
def bybitTicker (bid ask : String) : String × Json :=
  (inBraces ("\"data\":" ++
      inBraces ("\"bid1Price\":\"" ++ bid ++ "\",\"ask1Price\":\"" ++ ask ++ "\"")),
    .obj [("data",.obj [("bid1Price",.str bid),("ask1Price",.str ask)])])

def okxTicker (bid ask : String) : String × Json :=
  (inBraces ("\"data\":[" ++
      inBraces ("\"bidPx\":\"" ++ bid ++ "\",\"askPx\":\"" ++ ask ++ "\"") ++ "]"),
    .obj [("data",.arr [.obj [("bidPx",.str bid),("askPx",.str ask)]])])

/-- A library that reads these texts. -/
def reading (texts : List (String × Json)) : Library := ⟨fun s => texts.lookup s,String.toUpper⟩

def bybitMessage (ticker : String × Json) : FeedStep :=
  .message "bybit:linear:tickers:BTCUSDT" ticker.1 0

def okxMessage (ticker : String × Json) : FeedStep :=
  .message "okx:usdt:tickers:BTC-USDT-SWAP" ticker.1 0

/-- A quote of a common symbol is found. -/
theorem common_quote_found :
    let lib := reading [bybitTicker "100" "101"]
    let steps := [bybitMessage (bybitTicker "100" "101"),.detect (fun _ _ => 0)]
    let s := Feed.new.run lib steps
    ∃ u, latest s.processed ("bybit","BTCUSDT") = some u ∧ u.symbolId = 1 ∧
      ((getPrices s.map s.store "bybit" "BTCUSDT").1 = some (u.bid,u.ask) ↔
        u.symbolId < maxSymbols) := by
  intro lib steps s
  have hu : (latest s.processed ("bybit","BTCUSDT")).map (fun u => u.symbolId) = some 1 := by
    decide +kernel
  obtain ⟨u,hl,hid⟩ := Option.map_eq_some_iff.mp hu
  exact ⟨u,hl,hid,accepted_quote_found_iff lib steps (by decide +kernel) ("bybit","BTCUSDT") u hl⟩

/-- Once the slots are taken, a quote of a new pair is accepted and taken, and not found. -/
theorem new_pair_lost {lib : Library} {m : SymbolMap} (hm : Sound m) (hfull : maxSymbols ≤ m.nextId)
    (hb : m.nextId + 9 ≤ 2 ^ 32) {exchange symbol key value : String} {bid ask : F64}
    (hnew : m.toId (exchange,symbol) = none) (hk : keyPair lib key = some (exchange,symbol))
    (hq : parseQuote lib exchange value = some (bid,ask)) (secs : String → String → Nat) :
    let s := (⟨m,[],.new,[],[]⟩ : Feed).run lib [.message key value 0,.detect secs]
    latest s.processed (exchange,symbol) = some ⟨m.nextId,bid,ask,0⟩ ∧
      (getPrices s.map s.store exchange symbol).1 ≠ some (bid,ask) := by
  intro s
  have hparse : parseToMarketUpdate lib m key value 0 =
      (some ⟨m.nextId,bid,ask,0⟩,m.insert (exchange,symbol)) := by
    unfold parseToMarketUpdate
    simp only [hk,hq,getOrInsert_new hnew]
    rw [Nat.mod_eq_of_lt (show m.nextId < 2 ^ 32 by omega)]
  have hbridge : (⟨m,[],.new,[],[]⟩ : Feed).bridge lib key value 0 =
      ⟨m.insert (exchange,symbol),[⟨(exchange,symbol),⟨m.nextId,bid,ask,0⟩⟩],.new,[],[]⟩ := by
    unfold Feed.bridge
    dsimp only
    rw [hk,hparse]
    rfl
  have hs : s = (⟨m.insert (exchange,symbol),[⟨(exchange,symbol),⟨m.nextId,bid,ask,0⟩⟩],
      .new,[],[]⟩ :
      Feed).detectorTurn secs := congrArg (fun f : Feed => f.detectorTurn secs) hbridge
  have hlatest : latest s.processed (exchange,symbol) = some ⟨m.nextId,bid,ask,0⟩ := by
    have hprocessed : s.processed = [⟨(exchange,symbol),⟨m.nextId,bid,ask,0⟩⟩] := by
      rw [hs]
      unfold Feed.detectorTurn
      dsimp only
      split <;> rfl
    rw [hprocessed]
    simp [latest]
  have hnext : s.map.nextId ≤ 2 ^ 32 := by
    rw [hs]
    have hle := detectorTurn_nextId (⟨m.insert (exchange,symbol),
      [⟨(exchange,symbol),⟨m.nextId,bid,ask,0⟩⟩],.new,[],[]⟩ : Feed) secs
    refine hle.trans ?_
    change m.nextId+1+8 ≤ 2 ^ 32
    omega
  have hkept := kept_run [.message key value 0,.detect secs] (kept_fresh hm)
    (fun a _ => brings_true lib a) hnext
  refine ⟨hlatest,fun hfound => ?_⟩
  exact absurd ((kept_found hkept hlatest).mp hfound) (not_lt.mpr hfull)

/-- Two hundred symbols that the runner has looked up on an exchange that is not one of the
common ones. -/
def lookedUp : List Pair := (List.range 200).map (fun n => ("binance",.ofList (.replicate n 'A')))

theorem lookedUp_nodup : lookedUp.Nodup := by
  refine List.nodup_range.map (fun a b hab => ?_)
  have hlen := congrArg (fun p : Pair => p.2.toList.length) hab
  simpa using hlen

theorem new_unknown {exchange symbol : String} (h : exchange ∉ SymbolMap.commonExchanges ∨
    symbol ∉ SymbolMap.commonSymbols) : SymbolMap.new.toId (exchange,symbol) = none := by
  unfold SymbolMap.new
  refine register_unknown rfl (fun hm => ?_)
  obtain ⟨e,he,hm⟩ := List.mem_flatMap.mp hm
  obtain ⟨c,hc,hp⟩ := List.mem_map.mp hm
  obtain ⟨rfl,rfl⟩ := Prod.mk.inj hp
  exact h.elim (fun h => h he) (fun h => h hc)

/-- Then a quote of a new pair is lost. -/
theorem late_quote_lost :
    let lib := reading [bybitTicker "100" "101"]
    let s := Feed.new.run lib (lookedUp.map (fun p => .lookup p.1 p.2) ++
      [.message "bybit:linear:tickers:NEWUSDT" (bybitTicker "100" "101").1 0,
        .detect (fun _ _ => 0)])
    latest s.processed ("bybit","NEWUSDT") = some ⟨261,.fin 100,.fin 101,0⟩ ∧
      (getPrices s.map s.store "bybit" "NEWUSDT").1 ≠ some (.fin 100,.fin 101) := by
  intro lib s
  have hnext : (SymbolMap.new.register lookedUp).nextId = 261 := by
    rw [register_nextId (fun p hp => ?_) lookedUp_nodup,lookedUp,List.length_map,List.length_range]
    · decide +kernel
    · obtain ⟨n,_,rfl⟩ := List.mem_map.mp hp
      exact new_unknown (.inl (by decide))
  have hnone : (SymbolMap.new.register lookedUp).toId ("bybit","NEWUSDT") = none := by
    refine register_unknown (new_unknown (.inr (by decide))) (fun hm => ?_)
    obtain ⟨n,_,hn⟩ := List.mem_map.mp hm
    exact absurd (Prod.mk.inj hn).1 (by decide)
  have hsound : Sound (SymbolMap.new.register lookedUp) :=
    sound_register sound_new _ (by rw [hnext]; decide)
  have hlost := new_pair_lost hsound (by rw [hnext]; decide) (by rw [hnext]; decide) hnone
    (show keyPair lib "bybit:linear:tickers:NEWUSDT" = some ("bybit","NEWUSDT") by decide +kernel)
    (show parseQuote lib "bybit" (bybitTicker "100" "101").1 = some (.fin 100,.fin 101) by
      decide +kernel) (fun _ _ => 0)
  rw [hnext] at hlost
  have hrun : s = (⟨SymbolMap.new.register lookedUp,[],.new,[],[]⟩ : Feed).run lib
      [.message "bybit:linear:tickers:NEWUSDT" (bybitTicker "100" "101").1 0,
        .detect (fun _ _ => 0)] := by
    exact run_after_lookups .new lookedUp _
  rw [hrun]
  exact hlost

/-- Two quotes that cross publish one direction. -/
theorem crossed_quotes_one_direction :
    let lib := reading [bybitTicker "100" "101",okxTicker "103" "104"]
    let steps := [bybitMessage (bybitTicker "100" "101"),okxMessage (okxTicker "103" "104"),
      .detect (fun _ _ => 0),.detect (fun _ _ => 0)]
    let s := Feed.new.run lib steps
    s.passes.map List.length = [1,0] ∧ ∀ pass ∈ s.passes, OneDirection pass := by
  intro lib steps s
  refine ⟨by decide +kernel,(feed_stays_sound lib steps (fun a ha => ?_) (by decide +kernel)).2.2⟩
  have hquote : ∀ p ∈ [("bybit:linear:tickers:BTCUSDT",(bybitTicker "100" "101").1),
      ("okx:usdt:tickers:BTC-USDT-SWAP",(okxTicker "103" "104").1)],
      ((keyPair lib p.1).bind (fun pair => parseQuote lib pair.1 p.2)).map (fun q => q.2.isFinite) =
        some true := by
    decide +kernel
  have hbring : ∀ key value us,
      (key,value) ∈ [("bybit:linear:tickers:BTCUSDT",(bybitTicker "100" "101").1),
      ("okx:usdt:tickers:BTC-USDT-SWAP",(okxTicker "103" "104").1)] →
      Brings (fun x => x.isFinite = true) lib (.message key value us) := by
    intro key value us hm pair bid ask hk hq
    have hfin := hquote (key,value) hm
    simpa [hk,hq] using hfin
  simp only [steps,List.mem_cons,List.not_mem_nil,or_false] at ha
  rcases ha with rfl | rfl | rfl | rfl
  · exact hbring _ _ _ (by simp)
  · exact hbring _ _ _ (by simp)
  · trivial
  · trivial

/-- An ask beyond the range of doubles lets a direction and its reverse through. -/
theorem infinite_ask_both_directions :
    let lib := reading [bybitTicker "100" "1e400",okxTicker "90" "91"]
    let s := Feed.new.run lib [bybitMessage (bybitTicker "100" "1e400"),
        okxMessage (okxTicker "90" "91"),.detect (fun _ _ => 0),.detect (fun _ _ => 0)]
    s.passes.map (fun pass => pass.map (fun o => (o.longExchange,o.shortExchange))) =
        [[("bybit","okx"),("okx","bybit")],[]] ∧
      ¬ ∀ pass ∈ s.passes, OneDirection pass := by
  decide +kernel

end Scenes

end SpreadArb.Proofs.Quotes
