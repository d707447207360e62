import SpreadArb.Queues
import SpreadArb.Market

namespace SpreadArb.Proofs.Queue
open Interact DropQueue

variable {α : Type}

section Steps

variable (k : Nat) (s : DropQueue α)

@[simp] theorem serve_pushCount :
    (machine k).serve .pushCount s = ((),{ s with pushCount := s.pushCount+1 }) := rfl

@[simp] theorem serve_enqueueCount :
    (machine k).serve .enqueueCount s = ((),{ s with enqueueCount := s.enqueueCount+1 }) := rfl

@[simp] theorem serve_dropCount :
    (machine k).serve .dropCount s = ((),{ s with dropCount := s.dropCount+1 }) := rfl

@[simp] theorem serve_popCount :
    (machine k).serve .popCount s = ((),{ s with popCount := s.popCount+1 }) := rfl

theorem serve_push_room {s : DropQueue α} (h : s.items.length < s.capacity) (x : α) (retry : Bool) :
    (machine k).serve (.push x retry) s =
      (true,{ s with items := s.items ++ [⟨x,k⟩], accepted := s.accepted ++ [⟨x,k⟩] }) := if_pos h

theorem serve_push_full {s : DropQueue α} (h : ¬ s.items.length < s.capacity) (x : α)
    (retry : Bool) : (machine k).serve (.push x retry) s = (false,s) := if_neg h

theorem serve_pop_nil {s : DropQueue α} (h : s.items = []) (drop : Bool) :
    (machine k).serve (.pop drop) s = (none,s) := by
  simp [machine,h]

theorem serve_pop_cons {s : DropQueue α} {e : QueueEntry α} {items : List (QueueEntry α)}
    (h : s.items = e :: items) (drop : Bool) :
    (machine k).serve (.pop drop) s =
      (some e.item,{ s with items, removed := s.removed ++ [⟨e,drop,k⟩] }) := by
  simp [machine,h]

end Steps

section Fifo

/-- What came in is what went out, and then what is there. -/
structure Fifo (s : DropQueue α) : Prop where
  order : s.accepted = s.removed.map (·.entry) ++ s.items
  room : s.items.length ≤ s.capacity

theorem fifo_new (capacity : ℕ+) : Fifo (withCapacity capacity : DropQueue α) := ⟨rfl,Nat.zero_le _⟩

/-- Every step of every call keeps the order. -/
theorem fifo_serve {s : DropQueue α} (h : Fifo s) (caller : Nat) (op : QueueOp α) :
    Fifo ((machine caller).serve op s).2 := by
  cases op with
  | pushCount => exact ⟨h.order,h.room⟩
  | enqueueCount => exact ⟨h.order,h.room⟩
  | dropCount => exact ⟨h.order,h.room⟩
  | popCount => exact ⟨h.order,h.room⟩
  | push x retry =>
    by_cases hroom : s.items.length < s.capacity
    · rw [serve_push_room caller hroom]
      constructor
      · simp [h.order]
      · simpa using hroom
    · rw [serve_push_full caller hroom]
      exact h
  | pop drop =>
    cases hi : s.items with
    | nil =>
      rw [serve_pop_nil caller hi]
      exact h
    | cons e items =>
      rw [serve_pop_cons caller hi]
      have hroom := h.room
      rw [hi,List.length_cons] at hroom
      constructor
      · simp [h.order,hi]
      · exact Nat.le_of_succ_le hroom

theorem fifo_run {s : DropQueue α} (h : Fifo s) (caller : Nat) {β : Type} (p : QueueCall α β) :
    Fifo ((machine caller).run p s).2 := by
  induction p generalizing s with
  | ret a => exact h
  | call op next ih => exact ih _ (fifo_serve h caller op)

end Fifo

section Calls

variable {s : DropQueue α} (k : Nat) (x : α)

/-- The opportunity queue does not count what it takes in. -/
def enqueued : QueueKind → UInt64
  | .opportunity => 0
  | _ => 1

theorem enqueued_eq {q : QueueKind} (h : ¬ q = .opportunity) : enqueued q = 1 := by
  cases q with
  | opportunity => exact absurd rfl h
  | _ => rfl

theorem run_push_room (q : QueueKind) (h : s.items.length < s.capacity) :
    (machine k).run (q.handles.push x) s = ((),
      { s with
        items := s.items ++ [⟨x,k⟩], accepted := s.accepted ++ [⟨x,k⟩],
        pushCount := s.pushCount+1, enqueueCount := s.enqueueCount + enqueued q }) := by
  cases q <;>
  simp [QueueKind.handles,MarketProducer.push,OrderProducer.submit,dropOldestPush,
    OpportunityProducer.push,serve_push_room,h,enqueued]

theorem run_push_full (q : QueueKind) {e : QueueEntry α} {items : List (QueueEntry α)}
    (hi : s.items = e :: items) (hf : s.items.length = s.capacity) :
    (machine k).run (q.handles.push x) s = ((),
      { s with
        items := items ++ [⟨x,k⟩], accepted := s.accepted ++ [⟨x,k⟩],
        removed := s.removed ++ [⟨e,true,k⟩],
        pushCount := s.pushCount+1, enqueueCount := s.enqueueCount + enqueued q,
        dropCount := s.dropCount+1 }) := by
  have hlen : items.length < s.capacity := by
    rw [← hf,hi]
    exact Nat.lt_succ_self _
  have hpop : (machine k).serve (.pop true) { s with pushCount := s.pushCount+1 } =
      (some e.item,
        { s with items, removed := s.removed ++ [⟨e,true,k⟩], pushCount := s.pushCount+1 }) :=
    serve_pop_cons (s := { s with pushCount := s.pushCount+1 }) k hi true
  cases q <;>
  simp [QueueKind.handles,MarketProducer.push,OrderProducer.submit,dropOldestPush,
    OpportunityProducer.push,serve_push_full,serve_push_room,hpop,hf,hlen,enqueued]

theorem run_boundedPush_room (h : s.items.length < s.capacity) :
    (machine k).run (boundedPush x) s = (.ok (),
      { s with
        items := s.items ++ [⟨x,k⟩], accepted := s.accepted ++ [⟨x,k⟩],
        pushCount := s.pushCount+1, enqueueCount := s.enqueueCount+1 }) := by
  simp [boundedPush,serve_push_room,h]

theorem run_boundedPush_full (h : ¬ s.items.length < s.capacity) :
    (machine k).run (boundedPush x) s = (.error x,{ s with pushCount := s.pushCount+1 }) := by
  simp [boundedPush,serve_push_full,h]

theorem run_countedPop_nil (h : s.items = []) : (machine k).run countedPop s = (none,s) := by
  simp [countedPop,serve_pop_nil,h]

theorem run_countedPop_cons {e : QueueEntry α} {items : List (QueueEntry α)}
    (h : s.items = e :: items) :
    (machine k).run countedPop s = (some e.item,
      { s with items, removed := s.removed ++ [⟨e,false,k⟩], popCount := s.popCount+1 }) := by
  simp [countedPop,serve_pop_cons _ h]

end Calls

section Sequential

/-- The items that the consumers have got. -/
def popped (s : DropQueue α) : List α := (s.removed.filter (!·.dropped)).map (·.entry.item)

/-- What a use of the queue changes: the items it brought in and gave out, the items it dropped and
the ones it refused. -/
structure Grew (q : QueueKind) (s s' : DropQueue α) (ins outs : List α)
    (drops refused : Nat) : Prop where
  accepted : s'.accepted.map (·.item) = s.accepted.map (·.item) ++ ins
  popped : popped s' = popped s ++ outs
  dropped : s'.removed.countP (·.dropped) = s.removed.countP (·.dropped) + drops
  pushCount : s'.pushCount = s.pushCount + .ofNat ins.length + .ofNat refused
  enqueueCount : q ≠ .opportunity → s'.enqueueCount = s.enqueueCount + .ofNat ins.length
  dropCount : s'.dropCount = s.dropCount + .ofNat drops
  popCount : s'.popCount = s.popCount + .ofNat outs.length
  capacity : s'.capacity = s.capacity
  refused : q = .opportunity → refused = 0

variable {q : QueueKind} {s s' s'' : DropQueue α}

theorem Grew.refl (s : DropQueue α) : Grew q s s [] [] 0 0 := by
  constructor <;> simp

theorem Grew.trans {ins ins' outs outs' : List α} {drops drops' refused refused' : Nat}
    (h : Grew q s s' ins outs drops refused) (h' : Grew q s' s'' ins' outs' drops' refused') :
    Grew q s s'' (ins ++ ins') (outs ++ outs') (drops + drops') (refused + refused') where
  accepted := by rw [h'.accepted,h.accepted,List.append_assoc]
  popped := by rw [h'.popped,h.popped,List.append_assoc]
  dropped := by rw [h'.dropped,h.dropped,Nat.add_assoc]
  pushCount := by
    rw [h'.pushCount,h.pushCount,List.length_append,UInt64.ofNat_add,UInt64.ofNat_add]
    grind
  enqueueCount hq := by
    rw [h'.enqueueCount hq,h.enqueueCount hq,List.length_append,UInt64.ofNat_add,UInt64.add_assoc]
  dropCount := by rw [h'.dropCount,h.dropCount,UInt64.ofNat_add,UInt64.add_assoc]
  popCount := by rw [h'.popCount,h.popCount,List.length_append,UInt64.ofNat_add,UInt64.add_assoc]
  capacity := h'.capacity.trans h.capacity
  refused hq := by rw [h.refused hq,h'.refused hq]

/-- A full queue has an oldest item. -/
theorem full_cons (hfull : s.isFull = true) :
    ∃ e items, s.items = e :: items ∧ s.items.length = s.capacity := by
  simp only [isFull,decide_eq_true_eq] at hfull
  cases hi : s.items with
  | nil =>
    rw [hi] at hfull
    exact absurd hfull s.capacity.pos.ne
  | cons e items => exact ⟨e,items,rfl,hi ▸ hfull⟩

theorem room_of_not_full (h : Fifo s) (hfull : s.isFull = false) : s.items.length < s.capacity := by
  simp only [isFull,decide_eq_false_iff_not] at hfull
  exact lt_of_le_of_ne h.room hfull

/-- For one thread a push is the one step that the feed and the scan loop take it for. -/
theorem run_push_items (q : QueueKind) (h : Fifo s) (k : Nat) (x : α) :
    ((machine k).run (q.handles.push x) s).2.items = pushBounded s.capacity s.items ⟨x,k⟩ := by
  cases hfull : s.isFull with
  | true =>
    obtain ⟨e,items,hi,hf⟩ := full_cons hfull
    rw [pushBounded,if_neg hf.not_lt,run_push_full k x q hi hf,hi]
    rfl
  | false =>
    have hroom := room_of_not_full h hfull
    rw [pushBounded,if_pos hroom,run_push_room k x q hroom]

theorem push_grew (q : QueueKind) (h : Fifo s) (k : Nat) (x : α) :
    Grew q s ((machine k).run (q.handles.push x) s).2 [x] [] (if s.isFull then 1 else 0) 0 := by
  cases hfull : s.isFull with
  | true =>
    obtain ⟨e,items,hi,hf⟩ := full_cons hfull
    rw [run_push_full k x q hi hf]
    constructor <;> simp +contextual [popped,enqueued_eq]
  | false =>
    rw [run_push_room k x q (room_of_not_full h hfull)]
    constructor <;> simp +contextual [popped,enqueued_eq]

theorem boundedPush_grew (hq : q ≠ .opportunity) (k : Nat) (x : α) :
    Grew q s ((machine k).run (boundedPush x) s).2 [] [] 0 1 ∧
      ((machine k).run (boundedPush x) s).1 = .error x ∨
    Grew q s ((machine k).run (boundedPush x) s).2 [x] [] 0 0 ∧
      ((machine k).run (boundedPush x) s).1 = .ok () := by
  by_cases hroom : s.items.length < s.capacity
  · right
    rw [run_boundedPush_room k x hroom]
    refine ⟨?_,rfl⟩
    constructor <;> simp [popped]
  · left
    rw [run_boundedPush_full k x hroom]
    refine ⟨?_,rfl⟩
    constructor <;> simp [popped,hq]

theorem countedPop_grew (k : Nat) :
    Grew q s ((machine k).run countedPop s).2 [] ((machine k).run countedPop s).1.toList 0 0 := by
  cases hi : s.items with
  | nil =>
    rw [run_countedPop_nil k hi]
    exact .refl s
  | cons e items =>
    rw [run_countedPop_cons k hi]
    constructor <;> simp [popped]

/-- Single pops, up to `n` of them and to the first that finds nothing. -/
def pops (pop : QueueCall α (Option α)) (k : Nat) : Nat → DropQueue α → List α × DropQueue α
  | 0, s => ([],s)
  | n+1, s =>
    let out := (machine k).run pop s
    match out.1 with
    | some x => (x :: (pops pop k n out.2).1,(pops pop k n out.2).2)
    | none => ([],out.2)

theorem run_countedPopBatch (k n : Nat) (s : DropQueue α) :
    (machine k).run (countedPopBatch n) s = pops countedPop k n s := by
  induction n generalizing s with
  | zero => rfl
  | succ n ih =>
    unfold countedPopBatch pops
    rw [Machine.run_bind]
    cases (machine k).run countedPop s with
    | mk item s' => cases item <;> simp [ih]

/-- A batch is as many single pops, if a vector can be that large. -/
theorem run_popBatch (q : QueueKind) (k : Nat) {n : Nat} (s : DropQueue α)
    (hn : q = .opportunity → n * opportunityBytes ≤ isizeMax) :
    (machine k).run (q.handles.popBatch n) s =
      (some (pops countedPop k n s).1,(pops countedPop k n s).2) := by
  have hcounted : (machine k).run (MarketConsumer.popBatch n) s =
      (some (pops countedPop k n s).1,(pops countedPop k n s).2) := by
    unfold MarketConsumer.popBatch
    rw [Machine.run_bind,run_countedPopBatch]
    rfl
  cases q with
  | market => exact hcounted
  | execution => exact hcounted
  | opportunity =>
    change (machine k).run (OpportunityConsumer.popBatch n) s = _
    unfold OpportunityConsumer.popBatch
    rw [if_pos (hn rfl)]
    exact hcounted

/-- A larger one panics before it looks at the queue. -/
theorem run_popBatch_panics (k : Nat) {n : Nat} (s : DropQueue α)
    (hn : isizeMax < n * opportunityBytes) :
    (machine k).run (QueueKind.opportunity.handles.popBatch n) s = (none,s) := by
  change (machine k).run (OpportunityConsumer.popBatch n) s = _
  unfold OpportunityConsumer.popBatch
  rw [if_neg (not_le.mpr hn)]
  rfl

theorem popBatch_cases (q : QueueKind) (k n : Nat) (s : DropQueue α) :
    (machine k).run (q.handles.popBatch n) s =
      (some (pops countedPop k n s).1,(pops countedPop k n s).2) ∨
      (machine k).run (q.handles.popBatch n) s = (none,s) := by
  by_cases hn : n * opportunityBytes ≤ isizeMax
  · exact .inl (run_popBatch q k s (fun _ => hn))
  · cases q with
    | opportunity => exact .inr (run_popBatch_panics k s (not_le.mp hn))
    | market => exact .inl (run_popBatch .market k s (fun h => nomatch h))
    | execution => exact .inl (run_popBatch .execution k s (fun h => nomatch h))

theorem pops_grew (k n : Nat) (s : DropQueue α) :
    Grew q s (pops countedPop k n s).2 [] (pops countedPop k n s).1 0 0 := by
  induction n generalizing s with
  | zero => exact .refl s
  | succ n ih =>
    have hpop := countedPop_grew (q := q) (s := s) k
    unfold pops
    cases hout : (machine k).run countedPop s with
    | mk item s' =>
      rw [hout] at hpop
      cases item with
      | none => exact hpop
      | some x => exact hpop.trans (ih s')

/-- Every request moves the queue by what its reply tells. -/
theorem ask_grew (q : QueueKind) (h : Fifo s) (request : Request α) :
    let out := (machine 0).run (q.handles.ask request) s
    let a : Answered α := ⟨request,out.1,s.isFull⟩
    Grew q s out.2 a.accepted a.popped (if a.overfull then 1 else 0)
      (if a.rejected then 1 else 0) := by
  cases request with
  | push x =>
    have hpush := push_grew q h 0 x
    cases hfull : s.isFull <;>
    simpa [Handles.ask,Answered.accepted,Answered.popped,Answered.overfull,Answered.rejected,
      hfull] using hpush
  | tryPush x =>
    cases q with
    | opportunity => exact .refl s
    | market =>
      rcases boundedPush_grew (s := s) (q := .market) (by simp) 0 x with ⟨hg,hr⟩ | ⟨hg,hr⟩ <;>
      simpa [Handles.ask,QueueKind.handles,MarketProducer.tryPush,Answered.accepted,Answered.popped,
        Answered.overfull,Answered.rejected,hr] using hg
    | execution =>
      rcases boundedPush_grew (s := s) (q := .execution) (by simp) 0 x with ⟨hg,hr⟩ | ⟨hg,hr⟩ <;>
      simpa [Handles.ask,QueueKind.handles,OrderProducer.trySubmit,Answered.accepted,
        Answered.popped,Answered.overfull,Answered.rejected,hr] using hg
  | pop =>
    have hpop : (q.handles.pop : QueueCall α _) = countedPop := by cases q <;> rfl
    simpa [Handles.ask,hpop,Answered.accepted,Answered.popped,Answered.overfull,
      Answered.rejected] using countedPop_grew (q := q) (s := s) 0
  | popBatch n =>
    rcases popBatch_cases q 0 n s with hbatch | hbatch
    · simpa [Handles.ask,hbatch,Answered.accepted,Answered.popped,Answered.overfull,
        Answered.rejected] using
        pops_grew (q := q) 0 n s
    · simpa [Handles.ask,hbatch,Answered.accepted,Answered.popped,Answered.overfull,
        Answered.rejected] using
        Grew.refl (q := q) s

theorem serve_grew (q : QueueKind) (h : Fifo s) (requests : List (Request α)) :
    let out := q.handles.serve s requests
    Fifo out.1 ∧ Grew q s out.1 (out.2.flatMap (·.accepted)) (out.2.flatMap (·.popped))
      (out.2.countP (·.overfull)) (out.2.countP (·.rejected)) := by
  induction requests generalizing s with
  | nil => exact ⟨h,.refl s⟩
  | cons request requests ih =>
    obtain ⟨hfifo,hgrew⟩ := ih (fifo_run h 0 (q.handles.ask request))
    refine ⟨hfifo,?_⟩
    have hask := (ask_grew q h request).trans hgrew
    simpa [Handles.serve,List.countP_cons,Nat.add_comm] using hask

/-- The item that left last was dropped only if a newer one is there. -/
def Newest (s : DropQueue α) : Prop :=
  s.items = [] → ∀ removed r, s.removed = removed ++ [r] → r.dropped = false

theorem newest_pop (h : Newest s) (k : Nat) : Newest ((machine k).run countedPop s).2 := by
  cases hi : s.items with
  | nil =>
    rw [run_countedPop_nil k hi]
    exact h
  | cons e items =>
    rw [run_countedPop_cons k hi]
    intro _ removed r hr
    have hlast := (List.append_inj' hr rfl).2
    simp only [List.cons.injEq,and_true] at hlast
    rw [← hlast]

theorem newest_pops (h : Newest s) (k n : Nat) : Newest (pops countedPop k n s).2 := by
  induction n generalizing s with
  | zero => exact h
  | succ n ih =>
    have hpop := newest_pop h k
    unfold pops
    cases hout : (machine k).run countedPop s with
    | mk item s' =>
      rw [hout] at hpop
      cases item with
      | none => exact hpop
      | some x => exact ih hpop

theorem newest_boundedPush (h : Newest s) (k : Nat) (x : α) :
    Newest ((machine k).run (boundedPush x) s).2 := by
  by_cases hroom : s.items.length < s.capacity
  · rw [run_boundedPush_room k x hroom]
    intro hnil
    simp at hnil
  · rw [run_boundedPush_full k x hroom]
    exact h

theorem newest_push (q : QueueKind) (h : Fifo s) (k : Nat) (x : α) :
    Newest ((machine k).run (q.handles.push x) s).2 := by
  intro hnil
  rw [run_push_items q h,pushBounded] at hnil
  split at hnil <;> simp at hnil

theorem newest_ask (q : QueueKind) (hf : Fifo s) (h : Newest s) (request : Request α) :
    Newest ((machine 0).run (q.handles.ask request) s).2 := by
  cases request with
  | push x => simpa [Handles.ask] using newest_push q hf 0 x
  | tryPush x =>
    cases q with
    | opportunity => exact h
    | market =>
      simpa [Handles.ask,QueueKind.handles,MarketProducer.tryPush] using newest_boundedPush h 0 x
    | execution =>
      simpa [Handles.ask,QueueKind.handles,OrderProducer.trySubmit] using newest_boundedPush h 0 x
  | pop =>
    have hpop : (q.handles.pop : QueueCall α _) = countedPop := by cases q <;> rfl
    simpa [Handles.ask,hpop] using newest_pop h 0
  | popBatch n =>
    rcases popBatch_cases q 0 n s with hbatch | hbatch
    · simpa [Handles.ask,hbatch] using newest_pops h 0 n
    · simpa [Handles.ask,hbatch] using h

theorem newest_serve (q : QueueKind) (hf : Fifo s) (h : Newest s) (requests : List (Request α)) :
    Newest (q.handles.serve s requests).1 := by
  induction requests generalizing s with
  | nil => exact h
  | cons request requests ih => exact ih (fifo_run hf 0 _) (newest_ask q hf h request)

/-- Of a queue in order whose newest item is kept, the newest one is there or with a consumer. -/
theorem newest_kept (hf : Fifo s) (h : Newest s) {older : List α} {x : α}
    (ha : s.accepted.map (·.item) = older ++ [x]) :
    (∃ l, s.items.map (·.item) = l ++ [x]) ∨ ∃ l, popped s = l ++ [x] := by
  rcases List.eq_nil_or_concat s.items with hi | ⟨items,e,hi⟩
  · right
    rw [hf.order,hi,List.append_nil,List.map_map] at ha
    rcases List.eq_nil_or_concat s.removed with hr | ⟨removed,r,hr⟩
    · simp [hr] at ha
    · rw [List.concat_eq_append] at hr
      have hkept := h hi removed r hr
      have hlast : r.entry.item = x := by
        simp only [hr,List.map_append,List.map_cons,List.map_nil] at ha
        simpa using (List.append_inj' ha rfl).2
      exact ⟨_,by simp [popped,hr,hkept,hlast]; rfl⟩
  · left
    rw [List.concat_eq_append] at hi
    refine ⟨items.map (·.item),?_⟩
    have hlast : e.item = x := by
      simp only [hf.order,hi,List.map_append,List.map_cons,List.map_nil,← List.append_assoc] at ha
      simpa using (List.append_inj' ha rfl).2
    simp [hi,hlast]

/-- The counters of a queue in order, by its logs. -/
theorem length_accepted (hf : Fifo s) :
    (s.accepted.map (·.item)).length =
      (popped s).length + s.removed.countP (·.dropped) + s.items.length := by
  have hsplit := List.length_eq_countP_add_countP (fun r : Removal α => r.dropped) (l := s.removed)
  have hkept : (popped s).length = s.removed.countP (fun r => decide ¬ r.dropped = true) := by
    simp only [popped,List.length_map,List.countP_eq_length_filter]
    congr 2
    funext r
    cases r.dropped <;> rfl
  rw [List.length_map,hf.order,List.length_append,List.length_map]
  omega

/-- What a queue of the program does to the uses of one thread, after each of them: it keeps the
newest items, gives them out in order, drops one item for each push that finds it full, and counts
modulo 2^64. A batch that a vector can hold is as many single pops. -/
theorem drop_oldest_exact (q : QueueKind) (capacity : ℕ+) (requests : List (Request α)) :
    let out := q.handles.serve (withCapacity capacity) requests
    let accepted := out.2.flatMap (·.accepted)
    let popped := out.2.flatMap (·.popped)
    let items := out.1.items.map (·.item)
    items <:+ accepted ∧ items.length ≤ capacity ∧ popped.Sublist accepted ∧
    (∀ older x, accepted = older ++ [x] → (∃ l, items = l ++ [x]) ∨ ∃ l, popped = l ++ [x]) ∧
    (∃ removed : List (α × Bool), accepted = removed.map (·.1) ++ items ∧
      popped = (removed.filter (!·.2)).map (·.1) ∧
        removed.countP (·.2) = out.2.countP (·.overfull)) ∧
    (out.2.all (!·.overfull) = true → accepted = popped ++ items) ∧
    (∀ k n s, (q = .opportunity → n * opportunityBytes ≤ isizeMax) →
      (machine k).run (q.handles.popBatch n) s =
        (some (pops (α := α) q.handles.pop k n s).1,(pops q.handles.pop k n s).2)) ∧
    (q ≠ .opportunity →
      out.1.enqueueCount = out.1.popCount + out.1.dropCount + .ofNat items.length ∧
      out.1.pushCount = out.1.enqueueCount + .ofNat (out.2.countP (·.rejected))) ∧
    (q = .opportunity → out.1.pushCount =
      out.1.popCount + out.1.dropCount + .ofNat items.length) := by
  have hf₀ : Fifo (withCapacity capacity : DropQueue α) := fifo_new capacity
  have hn₀ : Newest (withCapacity capacity : DropQueue α) :=
    fun _ removed r hr => by simp [withCapacity] at hr
  have hserve := serve_grew q hf₀ requests
  have hnew := newest_serve q hf₀ hn₀ requests
  revert hserve hnew
  rcases q.handles.serve (withCapacity capacity) requests with ⟨s,trace⟩
  rintro ⟨hf,hg⟩ hnew
  dsimp only at hf hg hnew ⊢
  have hacc : trace.flatMap (·.accepted) = s.accepted.map (·.item) := by
    simpa [withCapacity] using hg.accepted.symm
  have hpop : trace.flatMap (·.popped) = popped s := by
    simpa [popped,withCapacity] using hg.popped.symm
  have hdrop : trace.countP (·.overfull) = s.removed.countP (·.dropped) := by
    simpa [withCapacity] using hg.dropped.symm
  have horder : s.accepted.map (·.item) = s.removed.map (·.entry.item) ++ s.items.map (·.item) := by
    simp [hf.order,Function.comp_def]
  have hsub : (popped s).Sublist (s.removed.map (·.entry.item)) := List.filter_sublist.map _
  have hlen := length_accepted hf
  have hpush : s.pushCount =
      .ofNat (s.accepted.map (·.item)).length + .ofNat (trace.countP (·.rejected)) := by
    simpa [withCapacity,hacc] using hg.pushCount
  have hcounts : s.popCount + s.dropCount + .ofNat s.items.length =
      .ofNat (s.accepted.map (·.item)).length := by
    have hdropped : s.dropCount = .ofNat (s.removed.countP (·.dropped)) := by
      simpa [withCapacity,hdrop] using hg.dropCount
    have hpopped : s.popCount = .ofNat (popped s).length := by
      simpa [withCapacity,hpop] using hg.popCount
    rw [hdropped,hpopped,hlen,UInt64.ofNat_add,UInt64.ofNat_add]
  rw [hacc,hpop,hdrop,List.length_map]
  refine ⟨⟨_,horder.symm⟩,?_,?_,fun older x ha => newest_kept hf hnew ha,?_,?_,?_,?_,?_⟩
  · have hcap : s.capacity = capacity := hg.capacity
    rw [← hcap]
    exact hf.room
  · rw [horder]
    exact hsub.trans (List.sublist_append_left _ _)
  · refine ⟨s.removed.map (fun r => (r.entry.item,r.dropped)),?_,?_,?_⟩
    · rw [horder,List.map_map]
      rfl
    · simp [popped,List.filter_map,Function.comp_def]
    · simp [List.countP_map,Function.comp_def]
  · intro hnone
    have hzero : trace.countP (·.overfull) = 0 := by
      rw [List.countP_eq_zero]
      intro a ha
      simpa using List.all_eq_true.mp hnone a ha
    rw [hdrop,List.countP_eq_zero] at hzero
    have hall : s.removed.filter (!·.dropped) = s.removed :=
      List.filter_eq_self.mpr (fun r hr => by simpa using hzero r hr)
    rw [horder,popped,hall]
  · intro k n t hn
    have hpop : (q.handles.pop : QueueCall α _) = countedPop := by cases q <;> rfl
    rw [run_popBatch q k t hn,hpop]
  · intro hq
    have henq : s.enqueueCount = .ofNat (s.accepted.map (·.item)).length := by
      simpa [withCapacity,hacc] using hg.enqueueCount hq
    exact ⟨henq.trans hcounts.symm,by rw [hpush,henq]⟩
  · intro hq
    rw [hpush,hg.refused hq,hcounts]
    exact UInt64.add_zero _

theorem items_after_push (q : QueueKind) (h : Fifo s) (k : Nat) (x : α) :
    ((machine k).run (q.handles.push x) s).2.items ≠ [] := by
  rw [run_push_items q h,pushBounded]
  split <;> simp

/-- Pushes alone are all counted, and the last one is there. -/
theorem serve_pushes (q : QueueKind) (x : α) (n : Nat) (h : Fifo s) :
    (q.handles.serve s (List.replicate n (.push x))).1.pushCount = s.pushCount + .ofNat n ∧
      (s.items ≠ [] ∨ 0 < n → (q.handles.serve s (List.replicate n (.push x))).1.items ≠ []) := by
  induction n generalizing s with
  | zero => simp [Handles.serve]
  | succ n ih =>
    have hask : ((machine 0).run (q.handles.ask (.push x)) s).2 =
        ((machine 0).run (q.handles.push x) s).2 := by
      simp [Handles.ask]
    obtain ⟨hcount,hitems⟩ := ih (fifo_run h 0 (q.handles.push x))
    have hpush := (push_grew q h 0 x).pushCount
    simp only [List.replicate_succ,Handles.serve,hask]
    refine ⟨?_,fun _ => hitems (.inl (items_after_push q h 0 x))⟩
    rw [hcount,hpush,UInt64.ofNat_add]
    simp only [List.length_cons,List.length_nil]
    grind

/-- A batch larger than a vector can be panics, where single pops give out what is there. And the
counters begin again after 2^64 steps, which the numbers of the items do not. -/
theorem large_batch_and_count_break :
    ¬ (∀ (k n : Nat) (s : DropQueue Nat),
      (machine k).run (QueueKind.opportunity.handles.popBatch n) s =
      (some (pops QueueKind.opportunity.handles.pop k n s).1,
      (pops QueueKind.opportunity.handles.pop k n s).2)) ∧
    ¬ (∀ (capacity : ℕ+) (requests : List (Request Nat)),
      let s := (QueueKind.opportunity.handles.serve (withCapacity capacity) requests).1
      s.pushCount.toNat = s.popCount.toNat + s.dropCount.toNat + s.items.length) := by
  constructor
  · intro h
    have hpanic := run_popBatch_panics (n := 2 ^ 64 - 1) 0
        (withCapacity 1 : DropQueue Nat) (by decide)
    rw [h] at hpanic
    cases congrArg Prod.fst hpanic
  · intro h
    obtain ⟨hcount,hitems⟩ := serve_pushes .opportunity 7 (2 ^ 64) (fifo_new 1)
    have hsum := h 1 (List.replicate (2 ^ 64) (.push 7))
    have hzero : (withCapacity 1 : DropQueue Nat).pushCount + UInt64.ofNat (2 ^ 64) = 0 := by decide
    simp only [hcount,hzero,UInt64.toNat_zero] at hsum
    have hlength := List.length_pos_iff.mpr (hitems (.inr (by decide)))
    omega

/-- A push into a full queue of one makes room for itself. -/
example : ((QueueKind.opportunity.handles.serve (withCapacity 1) [.push 7,.push 8,.pop]).2.flatMap
      (·.popped)) = [8] := by
  decide

end Sequential

end SpreadArb.Proofs.Queue
