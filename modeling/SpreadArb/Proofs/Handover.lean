import SpreadArb.Persistence
import Mathlib.Data.List.Nodup
import Mathlib.Data.List.Perm.Basic
import Mathlib.Data.List.Range

namespace SpreadArb.Proofs.Handover
open Interact Persistence

theorem perm_pulled {α : Type} (a b d : List α) (x : α) :
    (a ++ b ++ (d ++ [x])).Perm (a ++ x :: b ++ d) := by
  have hlast : (b ++ (d ++ [x])).Perm (x :: (b ++ d)) := by
    rw [← List.append_assoc]
    exact List.perm_append_singleton x (b ++ d)
  simpa only [List.append_assoc,List.cons_append] using hlast.append_left a

/-- The items that the bridge has taken from the channel and that were not dropped. -/
def line (s : Persistence) : List Message := s.kept ++ s.bridge.hand

/-- The item that a drop is due for. -/
def due : BridgeAt → List Message
  | .dropping item => [item]
  | _ => []

/-- The bridge is the only producer, so that its second push finds room. -/
structure Accounts (s : Persistence) : Prop where
  sublist : (line s).Sublist s.sent
  perm : (line s ++ s.dropped.map Drop.item).Perm s.sent
  numbered : s.sent.map Message.number = List.range s.sent.length
  fits : s.queue.length ≤ s.capacity
  room : ∀ m, s.bridge = .retrying m → s.queue.length < s.capacity
  drops : (s.dropped.map Drop.rejected ++ due s.bridge).Sublist s.rejected

theorem new_accounts (capacity : ℕ+) : Accounts (new capacity) where
  sublist := by simp [line,kept,new,BridgeAt.hand]
  perm := by simp [line,kept,new,BridgeAt.hand]
  numbered := rfl
  fits := by simp [new]
  room := by simp [new]
  drops := by simp [new,due]

/-- A turn that leaves the bridge alone and moves items only within the line. -/
theorem Accounts.moved {s t : Persistence} (h : Accounts s) (hline : t.kept = s.kept)
    (hbridge : t.bridge = s.bridge) (hsent : t.sent = s.sent) (hcap : t.capacity = s.capacity)
    (hq : t.queue.length ≤ s.queue.length) (hdrop : t.dropped = s.dropped)
    (hrej : t.rejected = s.rejected) : Accounts t where
  sublist := by simpa only [line,hline,hbridge,hsent] using h.sublist
  perm := by simpa only [line,hline,hbridge,hsent,hdrop] using h.perm
  numbered := by simpa only [hsent] using h.numbered
  fits := by
    rw [hcap]
    exact hq.trans h.fits
  room := fun m hm => by
    rw [hcap]
    exact lt_of_le_of_lt hq (h.room m (hbridge ▸ hm))
  drops := by simpa only [hdrop,hrej,hbridge] using h.drops

theorem receive_accounts {s : Persistence} (h : Accounts s) (key value : String) :
    Accounts (s.receive key value) := by
  unfold Persistence.receive
  split
  case h_2 => exact h
  case h_1 hb =>
    have hline : line s = s.kept := by simp [line,hb,BridgeAt.hand]
    obtain ⟨hsub,hperm,hnum,hfits,-,hdrops⟩ := h
    rw [hline] at hsub hperm
    constructor
    case sublist => exact hsub.append (List.Sublist.refl _)
    case perm =>
      have := hperm.append_right [⟨s.sent.length,key,value⟩]
      refine .trans ?_ this
      simp only [line,BridgeAt.hand,List.append_assoc]
      exact (List.perm_append_comm).append_left _
    case numbered => simp [List.range_succ,hnum]
    case fits => exact hfits
    case room => simp
    case drops => simpa [due,hb] using hdrops

/-- The item in hand goes to the end of the queue. -/
theorem stored_accounts {s : Persistence} {item : Message} (h : Accounts s)
    (hhand : s.bridge.hand = [item]) (hroom : s.queue.length < s.capacity) :
    Accounts { s with queue := s.queue ++ [item], bridge := .receiving } := by
  obtain ⟨hsub,hperm,hnum,-,-,hdrops⟩ := h
  have hline : line { s with queue := s.queue ++ [item], bridge := .receiving } = line s := by
    unfold line kept
    rw [hhand]
    simp [BridgeAt.hand]
  constructor
  case sublist => rwa [hline]
  case perm => rwa [hline]
  case numbered => exact hnum
  case fits => simpa [Nat.succ_le_iff] using hroom
  case room => simp
  case drops =>
    have hrest := (List.sublist_append_left _ _).trans hdrops
    simpa [due] using hrest

theorem redisBridge_accounts {s : Persistence} (h : Accounts s) : Accounts s.redisBridge := by
  unfold redisBridge
  split
  case h_1 => exact h
  case h_2 item hb =>
    split
    case isTrue hroom => exact stored_accounts h (by simp [hb,BridgeAt.hand]) hroom
    case isFalse =>
      obtain ⟨hsub,hperm,hnum,hfits,-,hdrops⟩ := h
      simp only [line,hb,BridgeAt.hand] at hsub hperm
      constructor
      case sublist => exact hsub
      case perm => exact hperm
      case numbered => exact hnum
      case fits => exact hfits
      case room => simp
      case drops =>
        simp only [due,hb,List.append_nil] at hdrops ⊢
        exact hdrops.append (List.Sublist.refl _)
  case h_3 item hb =>
    obtain ⟨hsub,hperm,hnum,hfits,-,hdrops⟩ := h
    simp only [line,kept,hb,BridgeAt.hand,due] at hsub hperm hdrops
    split
    case h_1 hq =>
      constructor
      case sublist => exact hsub
      case perm => exact hperm
      case numbered => exact hnum
      case fits => exact hfits
      case room => simp [hq]
      case drops => 
        have hrest := (List.sublist_append_left _ _).trans hdrops
        simpa [due] using hrest
    case h_2 oldest queue hq =>
      rw [hq] at hsub hperm hfits
      constructor
      case sublist =>
        refine .trans ?_ hsub
        simp [line,kept,BridgeAt.hand]
      case perm =>
        refine .trans ?_ hperm
        simpa [line,kept,BridgeAt.hand] using
          perm_pulled (s.flushed.flatten ++ s.buffer) (queue ++ [item])
            (s.dropped.map Drop.item) oldest
      case numbered => exact hnum
      case fits => exact (Nat.le_succ _).trans hfits
      case room => exact fun _ _ => Nat.lt_of_succ_le hfits
      case drops => simpa [due] using hdrops
  case h_4 item hb =>
    rw [if_pos (h.room item hb)]
    exact stored_accounts h (by simp [hb,BridgeAt.hand]) (h.room item hb)

/-- A flush keeps the line, whether it succeeds or not. -/
@[simp] theorem flushRedisBuffer_kept (ok : Bool) (s : Persistence) :
    (flushRedisBuffer ok s).kept = s.kept := by
  cases ok <;> simp [flushRedisBuffer,kept]

@[simp] theorem flushRedisBuffer_bridge (ok : Bool) (s : Persistence) :
    (flushRedisBuffer ok s).bridge = s.bridge := by
  cases ok <;> rfl

@[simp] theorem flushRedisBuffer_queue (ok : Bool) (s : Persistence) :
    (flushRedisBuffer ok s).queue = s.queue := by
  cases ok <;> rfl

theorem flushRedisBuffer_accounts {s : Persistence} (h : Accounts s) (ok : Bool) :
    Accounts (flushRedisBuffer ok s) := by
  apply h.moved (flushRedisBuffer_kept ok s) <;> cases ok <;> simp [flushRedisBuffer]

/-- The writer takes the oldest item of the queue. -/
theorem taken_accounts {s : Persistence} {item : Message} {queue : List Message} (h : Accounts s)
    (hq : s.queue = item :: queue) (at' : WriterAt) :
    Accounts { s with queue := queue, buffer := s.buffer ++ [item], writer := at' } := by
  apply h.moved <;> simp [kept,hq]

theorem moved_accounts {s : Persistence} (h : Accounts s) (at' : WriterAt) :
    Accounts { s with writer := at' } :=
  h.moved rfl rfl rfl rfl le_rfl rfl rfl

theorem redisWriterThread_accounts {s : Persistence} (h : Accounts s) (ok : Bool) :
    Accounts (s.redisWriterThread ok) := by
  unfold redisWriterThread
  split
  case h_1 | h_2 => exact moved_accounts h _
  case h_3 =>
    split
    case h_1 hq => exact taken_accounts h hq _
    case h_2 => exact moved_accounts h _
  case h_4 | h_5 | h_7 => exact moved_accounts (flushRedisBuffer_accounts h ok) _
  case h_6 =>
    split
    case isTrue =>
      split
      case h_1 hq => exact taken_accounts h hq _
      case h_2 => exact moved_accounts h _
    case isFalse => exact moved_accounts h _
  case h_8 => exact h

theorem step_accounts {s : Persistence} (h : Accounts s) (turn : Turn) :
    Accounts (s.step turn) := by
  cases turn with
  | receive key value => exact receive_accounts h key value
  | bridge => exact redisBridge_accounts h
  | writer ok => exact redisWriterThread_accounts h ok
  | requestShutdown => exact h.moved rfl rfl rfl rfl le_rfl rfl rfl

theorem run_accounts (capacity : ℕ+) (turns : List Turn) : Accounts (run capacity turns) :=
  Steps.run_invariant (new_accounts capacity) (fun _ turn h => step_accounts h turn) turns

theorem Accounts.nodup {s : Persistence} (h : Accounts s) :
    (line s ++ s.dropped.map Drop.item).Nodup := by
  have hsent : s.sent.Nodup := List.Nodup.of_map Message.number (h.numbered ▸ List.nodup_range)
  exact h.perm.nodup_iff.mpr hsent

theorem Accounts.inOrder {s : Persistence} (h : Accounts s) : s.InOrder where
  sublist := (List.sublist_append_left _ _).trans h.sublist
  nodup := by
    have hsub := (List.sublist_append_left s.kept s.bridge.hand).trans h.sublist
    exact (hsub.map Message.number).nodup (h.numbered ▸ List.nodup_range)
  missing := by
    intro m hm hkept
    have hall : m ∈ line s ++ s.dropped.map Drop.item := h.perm.mem_iff.mpr hm
    simp only [line,List.mem_append,hkept,false_or,List.mem_map] at hall
    rcases hall with hhand | ⟨d,hd,hitem⟩
    · exact .inl hhand
    · have hrejected : d.rejected ∈ s.dropped.map Drop.rejected := List.mem_map_of_mem hd
      exact .inr ⟨d,hd,hitem,h.drops.subset (List.mem_append_left _ hrejected)⟩

/-- What is not flushed and not dropped. -/
def left (s : Persistence) : List Message := s.buffer ++ s.queue ++ s.bridge.hand

theorem Accounts.delivered_iff {s : Persistence} (h : Accounts s) : s.Delivered ↔ left s = [] := by
  have hline : line s = s.flushed.flatten ++ left s := by simp [line,kept,left]
  have hnodup := h.nodup
  have hperm := h.perm
  rw [hline,List.append_assoc] at hnodup hperm
  constructor
  · intro hall
    rw [List.eq_nil_iff_forall_not_mem]
    intro m hm
    have hsent : m ∈ s.sent := hperm.mem_iff.mp (by simp [hm])
    obtain ⟨-,hrest,hflushed⟩ := List.nodup_append.mp hnodup
    obtain ⟨-,-,hdropped⟩ := List.nodup_append.mp hrest
    rcases hall m hsent with hf | hd
    · exact hflushed m hf m (List.mem_append_left _ hm) rfl
    · exact hdropped m hm m hd rfl
  · intro hnil m hm
    have hmem := hperm.mem_iff.mpr hm
    simpa only [hnil,List.nil_append,List.mem_append] using hmem

/-- Without a shutdown the writer is in its loop, or has given up at the start. -/
structure Calm (s : Persistence) : Prop where
  empty : s.writer = .connecting → s.buffer = []
  looping : s.Looping → s.buffer.length ≤ redisFlushMaxItems
  early : s.shutdownRequested = false → s.Looping ∨ s.writer = .exited ∧ s.buffer = []

theorem Calm.bounded {s : Persistence} (h : Calm s) : s.Bounded := by
  rintro (hearly | hloop)
  · rcases h.early hearly with hloop | ⟨-,hempty⟩
    · exact h.looping hloop
    · simp [hempty]
  · exact h.looping hloop

theorem Calm.same {s t : Persistence} (h : Calm s) (hw : t.writer = s.writer)
    (hb : t.buffer = s.buffer) (hs : t.shutdownRequested = s.shutdownRequested) : Calm t where
  empty := by simpa only [hw,hb] using h.empty
  looping := by simpa only [Looping,hw,hb] using h.looping
  early := by simpa only [Looping,hw,hb,hs] using h.early

/-- The writer goes on in its loop with a buffer that is not too long. -/
theorem calm_loop {s : Persistence}
    (hw : s.writer = .checking ∨ s.writer = .filling ∨ s.writer = .flushing)
    (hb : s.buffer.length ≤ redisFlushMaxItems) : Calm s where
  empty := by rcases hw with hw | hw | hw <;> simp [hw]
  looping := fun _ => hb
  early := fun _ => .inl (.inr hw)

/-- A shutdown has been requested, and the writer is in its drain or has exited. -/
theorem calm_drain {s : Persistence} (hs : s.shutdownRequested = true) (hw : ¬s.Looping) :
    Calm s where
  empty := fun h => absurd (.inl h) hw
  looping := fun h => absurd h hw
  early := by simp [hs]

theorem Calm.requested {s : Persistence} (h : Calm s) (hw : ¬s.Looping) (he : s.writer ≠ .exited) :
    s.shutdownRequested = true := by
  by_contra hs
  rcases h.early (by simpa using hs) with hl | ⟨hexit,-⟩
  · exact hw hl
  · exact he hexit

theorem redisWriterThread_calm {s : Persistence} (h : Calm s) (ok : Bool) :
    Calm (s.redisWriterThread ok) := by
  unfold redisWriterThread
  split
  case h_1 hw =>
    have hb := h.empty hw
    cases ok with
    | true => exact calm_loop (.inl rfl) (by simp [hb])
    | false => exact ⟨by simp,by simp [Looping],fun _ => .inr ⟨rfl,hb⟩⟩
  case h_2 hw =>
    have hb := h.looping (by simp [Looping,hw])
    split
    case isTrue hs => exact calm_drain hs (by simp [Looping])
    case isFalse => exact calm_loop (.inr (.inl rfl)) hb
  case h_3 hw =>
    have hs := h.requested (by simp [Looping,hw]) (by simp [hw])
    split
    case h_1 => exact calm_drain hs (by simp only [Looping]; split <;> simp)
    case h_2 => exact calm_drain hs (by simp only [Looping]; split <;> simp)
  case h_4 hw | h_5 hw =>
    have hs := h.requested (by simp [Looping,hw]) (by simp [hw])
    cases ok <;> exact calm_drain hs (by simp [Looping])
  case h_6 hw =>
    have hb := h.looping (by simp [Looping,hw])
    split
    case isTrue hlt =>
      split
      case h_1 => exact calm_loop (.inr (.inl hw)) (by simpa [Nat.succ_le_iff] using hlt)
      case h_2 => exact calm_loop (by simp only; split <;> simp) hb
    case isFalse => exact calm_loop (by simp only; split <;> simp) hb
  case h_7 hw =>
    have hb := h.looping (by simp [Looping,hw])
    cases ok with
    | true => exact calm_loop (.inl rfl) (by simp [flushRedisBuffer])
    | false => exact calm_loop (.inl rfl) hb
  case h_8 => exact h

@[simp] theorem receive_writer (s : Persistence) (key value : String) :
    (s.receive key value).writer = s.writer := by
  unfold Persistence.receive
  split <;> rfl

@[simp] theorem receive_buffer (s : Persistence) (key value : String) :
    (s.receive key value).buffer = s.buffer := by
  unfold Persistence.receive
  split <;> rfl

theorem receive_shutdown (s : Persistence) (key value : String) :
    (s.receive key value).shutdownRequested = s.shutdownRequested := by
  unfold Persistence.receive
  split <;> rfl

/-- The bridge leaves the writer alone. -/
theorem redisBridge_same (s : Persistence) :
    s.redisBridge.writer = s.writer ∧ s.redisBridge.buffer = s.buffer ∧
    s.redisBridge.shutdownRequested = s.shutdownRequested ∧ s.redisBridge.sent = s.sent := by
  unfold redisBridge
  split
  case h_1 => simp
  case h_2 | h_4 => split <;> simp
  case h_3 => split <;> simp

theorem step_calm {s : Persistence} (h : Calm s) (turn : Turn) : Calm (s.step turn) := by
  cases turn with
  | receive key value => exact h.same (receive_writer ..) (receive_buffer ..) (receive_shutdown ..)
  | bridge =>
    obtain ⟨hw,hb,hs,-⟩ := redisBridge_same s
    exact h.same hw hb hs
  | writer ok => exact redisWriterThread_calm h ok
  | requestShutdown => exact ⟨h.empty,h.looping,by simp [Persistence.step]⟩

theorem new_calm (capacity : ℕ+) : Calm (new capacity) where
  empty := fun _ => rfl
  looping := fun _ => Nat.zero_le _
  early := fun _ => .inl (.inl rfl)

theorem run_calm (capacity : ℕ+) (turns : List Turn) : Calm (run capacity turns) :=
  Steps.run_invariant (new_calm capacity) (fun _ turn h => step_calm h turn) turns

/-- What can still be taken from the bridge's side. -/
def pending (s : Persistence) : List Message := s.queue ++ s.bridge.hand

/-- A bridge that has an item keeps one, since its second push finds room. -/
theorem redisBridge_pending {s : Persistence} (h : Accounts s) :
    pending s.redisBridge = [] ↔ pending s = [] := by
  unfold redisBridge
  split
  case h_1 => rfl
  case h_2 item hb => split <;> simp [pending,hb,BridgeAt.hand]
  case h_3 item hb => split <;> simp [pending,hb,BridgeAt.hand]
  case h_4 item hb =>
    rw [if_pos (h.room item hb)]
    simp [pending,hb,BridgeAt.hand]

theorem receive_pending (s : Persistence) (key value : String) :
    pending (s.receive key value) ≠ [] := by
  unfold Persistence.receive
  split
  case h_1 => simp [pending,BridgeAt.hand]
  case h_2 hb =>
    cases hs : s.bridge with
    | receiving => exact absurd hs hb
    | pushing item | dropping item | retrying item => simp [pending,hs,BridgeAt.hand]

/-- `b` says that all turns so far were as they should be. They cannot have been otherwise before
the writer has looked at the queue for the last time. -/
structure Tail (b : Prop) (s : Persistence) : Prop where
  connecting : s.writer = .connecting → (s.sent = [] ↔ pending s = [])
  early : ¬s.Leaving → b
  last : s.writer = .lastFlushing → s.buffer ≠ [] ∧ (b ↔ pending s = [])
  exited : s.writer = .exited → (b ↔ s.buffer = [] ∧ pending s = [])

theorem Tail.iff {b c : Prop} {s : Persistence} (h : Tail b s) (hbc : b ↔ c) : Tail c s := by
  have : b = c := propext hbc
  exact this ▸ h

/-- The writer stays in its loop or its drain. -/
theorem tail_on {b : Prop} {s : Persistence} (hc : s.writer ≠ .connecting) (hl : ¬s.Leaving)
    (hb : b) : Tail b s where
  connecting := fun h => absurd h hc
  early := fun _ => hb
  last := fun h => absurd (.inl h) hl
  exited := fun h => absurd (.inr h) hl

theorem tail_exited {b : Prop} {s : Persistence} (hw : s.writer = .exited)
    (h : b ↔ s.buffer = [] ∧ pending s = []) : Tail b s where
  connecting := by simp [hw]
  early := fun hl => absurd (.inr hw) hl
  last := by simp [hw]
  exited := fun _ => h

theorem receive_tail {b : Prop} {s : Persistence} (h : Tail b s) (key value : String) :
    Tail (b ∧ ¬s.Leaving) (s.receive key value) := by
  have hp := receive_pending s key value
  constructor
  case connecting =>
    rw [receive_writer]
    intro hw
    unfold Persistence.receive
    split
    case h_1 => simp [pending,BridgeAt.hand]
    case h_2 => exact h.connecting hw
  case early =>
    intro hl
    have hl : ¬s.Leaving := by simpa only [Leaving,receive_writer] using hl
    exact ⟨h.early hl,hl⟩
  case last =>
    rw [receive_writer,receive_buffer]
    intro hw
    exact ⟨(h.last hw).1,by simp [Leaving,hw],fun he => absurd he hp⟩
  case exited =>
    rw [receive_writer,receive_buffer]
    intro hw
    exact ⟨by simp [Leaving,hw],fun he => absurd he.2 hp⟩

theorem redisBridge_tail {b : Prop} {s : Persistence} (ha : Accounts s) (h : Tail b s) :
    Tail b s.redisBridge := by
  obtain ⟨hw,hb,-,hsent⟩ := redisBridge_same s
  have hp := redisBridge_pending ha
  constructor
  case connecting => simpa only [hw,hsent,hp] using h.connecting
  case early => simpa only [Leaving,hw] using h.early
  case last => simpa only [hw,hb,hp] using h.last
  case exited => simpa only [hw,hb,hp] using h.exited

theorem redisWriterThread_tail {b : Prop} {s : Persistence} (hcalm : Calm s) (h : Tail b s)
    (ok : Bool) : Tail (b ∧ s.Handover (.writer ok)) (s.redisWriterThread ok) := by
  cases hw : s.writer with
  | connecting =>
    have hb := h.early (by simp [Leaving,hw])
    have hsent := h.connecting hw
    cases ok with
    | true =>
      exact tail_on (by simp [redisWriterThread,hw]) (by simp [redisWriterThread,hw,Leaving])
        (by simp [Handover,hw,hb])
    | false =>
      refine tail_exited (by simp [redisWriterThread,hw]) ?_
      have hpending : pending (s.redisWriterThread false) = pending s := by
        simp [redisWriterThread,hw,pending]
      rw [hpending,← hsent]
      simp [redisWriterThread,hw,hb,Handover,hcalm.empty hw]
  | checking =>
    have hb := h.early (by simp [Leaving,hw])
    refine tail_on ?_ ?_ (by simp [Handover,hw,hb])
    · simp only [redisWriterThread,hw]
      split <;> simp
    · simp only [redisWriterThread,hw,Leaving]
      split <;> simp
  | draining =>
    have hb := h.early (by simp [Leaving,hw])
    cases hq : s.queue with
    | cons item queue =>
      refine tail_on ?_ ?_ (by simp [Handover,hw,hq,hb])
      · simp only [redisWriterThread,hw,hq]
        split <;> simp
      · simp only [redisWriterThread,hw,hq,Leaving]
        split <;> simp
    | nil =>
      -- the writer leaves: an item in the bridge's hand is lost from here on
      have hhand : s.Handover (.writer ok) ↔ pending s = [] := by
        cases hs : s.bridge <;> simp [Handover,hw,hq,pending,hs,BridgeAt.hand]
      cases hbuf : s.buffer with
      | nil =>
        refine tail_exited (by simp [redisWriterThread,hw,hq,hbuf]) ?_
        simp [redisWriterThread,hw,hq,hbuf,hhand,hb,pending]
      | cons m buffer =>
        constructor
        case connecting | exited => simp [redisWriterThread,hw,hq,hbuf]
        case early => simp [redisWriterThread,hw,hq,hbuf,Leaving]
        case last => simp [redisWriterThread,hw,hq,hbuf,hhand,hb,pending]
  | drainFlushing =>
    have hb := h.early (by simp [Leaving,hw])
    exact tail_on (by simp [redisWriterThread,hw]) (by simp [redisWriterThread,hw,Leaving])
      (by simp [Handover,hw,hb])
  | lastFlushing =>
    obtain ⟨hbuf,hb⟩ := h.last hw
    refine tail_exited (by simp [redisWriterThread,hw]) ?_
    cases ok <;> simp [redisWriterThread,hw,flushRedisBuffer,Handover,pending,hbuf,hb]
  | filling =>
    have hb := h.early (by simp [Leaving,hw])
    refine tail_on ?_ ?_ (by simp [Handover,hw,hb])
    · cases hq : s.queue <;> simp only [redisWriterThread,hw,hq] <;> split_ifs <;> simp
    · cases hq : s.queue <;> simp only [redisWriterThread,hw,hq,Leaving] <;> split_ifs <;> simp
  | flushing =>
    have hb := h.early (by simp [Leaving,hw])
    exact tail_on (by simp [redisWriterThread,hw]) (by simp [redisWriterThread,hw,Leaving])
      (by simp [Handover,hw,hb])
  | exited =>
    have hsame : s.redisWriterThread ok = s := by simp [redisWriterThread,hw]
    rw [hsame]
    exact h.iff (by simp [Handover,hw])

theorem step_tail {b : Prop} {s : Persistence} (ha : Accounts s) (hc : Calm s) (h : Tail b s)
    (turn : Turn) : Tail (b ∧ s.Handover turn) (s.step turn) := by
  cases turn with
  | receive key value => exact receive_tail h key value
  | bridge => exact (redisBridge_tail ha h).iff (by simp [Handover])
  | writer ok => exact redisWriterThread_tail hc h ok
  | requestShutdown => exact Tail.iff ⟨h.connecting,h.early,h.last,h.exited⟩ (by simp [Handover])

theorem run_tail (capacity : ℕ+) (turns : List Turn) :
    Tail (Steps.Meets step Handover (new capacity) turns) (run capacity turns) := by
  have hrun := Steps.run_induction (C := Handover) (s := new capacity)
    (P := fun b s => Accounts s ∧ Calm s ∧ Tail b s)
    ⟨new_accounts capacity,new_calm capacity,by simp [new,pending,BridgeAt.hand],fun _ => trivial,
      by simp [new],by simp [new]⟩
    (fun b s turn h => ⟨step_accounts h.1 turn,step_calm h.2.1 turn,step_tail h.1 h.2.1 h.2.2 turn⟩)
      turns
  exact hrun.2.2

/-- In every run the items keep their order and the buffer its bound. When the writer has exited
after a shutdown, all items were delivered exactly if the bridge had handed over its last item
before the writer found the queue empty, and the last flush succeeded. -/
theorem persists_when_handed_over (capacity : ℕ+) (turns : List Turn) :
    (run capacity turns).InOrder ∧ (run capacity turns).Bounded ∧
      ((run capacity turns).Stopped →
        ((run capacity turns).Delivered ↔ Steps.Meets step Handover (new capacity) turns)) := by
  have haccounts := run_accounts capacity turns
  refine ⟨haccounts.inOrder,(run_calm capacity turns).bounded,fun hstop => ?_⟩
  rw [haccounts.delivered_iff,(run_tail capacity turns).exited hstop.1]
  simp [left,pending]

/-- The last flush fails and the writer exits with the item in its buffer. -/
def lostTurns : List Turn :=
  [.writer true,.receive "bybit:linear:tickers:BTCUSDT" "1",.bridge,.requestShutdown,.writer true,
    .writer true,.writer true,.writer false]

theorem failed_flush_loses : ¬∀ capacity turns, (run capacity turns).Persists := by
  intro h
  have hdelivered := (h 1 lostTurns).delivered ⟨rfl,rfl⟩
  have hsent : ⟨0,"bybit:linear:tickers:BTCUSDT","1"⟩ ∈ (run 1 lostTurns).sent := by decide
  have hlost : ¬(⟨0,"bybit:linear:tickers:BTCUSDT","1"⟩ ∈ (run 1 lostTurns).flushed.flatten ∨
      ⟨0,"bybit:linear:tickers:BTCUSDT","1"⟩ ∈ (run 1 lostTurns).dropped.map Drop.item) := by decide
  exact hlost (hdelivered _ hsent)

end SpreadArb.Proofs.Handover
