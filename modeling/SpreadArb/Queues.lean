import SpreadArb.Interact.Pool
import Mathlib.Data.PNat.Basic

namespace SpreadArb
open Interact

/-- The atomic steps of the queue calls: the counters, and the two operations of the `ArrayQueue`.
The flags tell a retry and a drop step from the others. -/
inductive QueueOp (α : Type) where
  | pushCount
  | enqueueCount
  | dropCount
  | popCount
  | push (item : α) (retry : Bool)
  | pop (drop : Bool)

abbrev QueueOp.Ans {α : Type} : QueueOp α → Type
  | .push .. => Bool
  | .pop _ => Option α
  | _ => Unit

abbrev queueSig (α : Type) : Sig := ⟨QueueOp α,QueueOp.Ans⟩

/-- An item in the queue, with the number of the call that pushed it. -/
structure QueueEntry (α : Type) where
  item : α
  pusher : Nat
deriving DecidableEq

/-- An item that has left the queue, and the call that took it. -/
structure Removal (α : Type) where
  entry : QueueEntry α
  dropped : Bool
  remover : Nat
deriving DecidableEq

/-- `MarketPipeline`, `ExecutionPipeline` (whose `push_count` is named `submit_count`) and
`OpportunityQueue` (which has no `enqueue_count`). The counters wrap around at 2^64. The numbers of
the calls and the two logs are not kept by the code. -/
structure DropQueue (α : Type) where
  capacity : ℕ+
  items : List (QueueEntry α)
  pushCount : UInt64
  enqueueCount : UInt64
  dropCount : UInt64
  popCount : UInt64
  accepted : List (QueueEntry α)
  removed : List (Removal α)

namespace DropQueue

variable {α : Type}

def withCapacity (capacity : ℕ+) : DropQueue α := ⟨capacity,[],0,0,0,0,[],[]⟩

def isFull (s : DropQueue α) : Bool := decide (s.items.length = s.capacity)

/-- The drop step of the call found an item. -/
def hasDropped (s : DropQueue α) (caller : Nat) : Bool :=
  s.removed.any (fun r => r.dropped && r.remover == caller)

/-- Each step is atomic. The `ArrayQueue` is a bounded first-in first-out queue. -/
def machine (caller : Nat) : Machine (queueSig α) (DropQueue α) where
  serve
    | .pushCount, s => ((),{ s with pushCount := s.pushCount+1 })
    | .enqueueCount, s => ((),{ s with enqueueCount := s.enqueueCount+1 })
    | .dropCount, s => ((),{ s with dropCount := s.dropCount+1 })
    | .popCount, s => ((),{ s with popCount := s.popCount+1 })
    | .push x _, s =>
      if s.items.length < s.capacity then
        (true,{ s with items := s.items ++ [⟨x,caller⟩], accepted := s.accepted ++ [⟨x,caller⟩] })
      else (false,s)
    | .pop drop, s =>
      match s.items with
      | [] => (none,s)
      | e :: items => (some e.item,{ s with items, removed := s.removed ++ [⟨e,drop,caller⟩] })

end DropQueue

section Calls

variable {α : Type}

abbrev QueueCall (α β : Type) := Prog (queueSig α) β

/-- A push that drops the oldest item of a full queue. -/
def dropOldestPush (x : α) : QueueCall α Unit := do
  let _ ← Prog.call (σ := queueSig α) .pushCount .ret
  if ← Prog.call (σ := queueSig α) (.push x false) .ret then
    let _ ← Prog.call (σ := queueSig α) .enqueueCount .ret
    pure ()
  else
    let _ ← Prog.call (σ := queueSig α) (.pop true) .ret
    if ← Prog.call (σ := queueSig α) (.push x true) .ret then
      let _ ← Prog.call (σ := queueSig α) .enqueueCount .ret
      let _ ← Prog.call (σ := queueSig α) .dropCount .ret
      pure ()
    else
      let _ ← Prog.call (σ := queueSig α) .dropCount .ret
      pure ()

/-- A push that gives the item back when the queue is full. -/
def boundedPush (x : α) : QueueCall α (Except α Unit) := do
  let _ ← Prog.call (σ := queueSig α) .pushCount .ret
  if ← Prog.call (σ := queueSig α) (.push x false) .ret then
    let _ ← Prog.call (σ := queueSig α) .enqueueCount .ret
    pure (.ok ())
  else pure (.error x)

def countedPop : QueueCall α (Option α) := do
  match ← Prog.call (σ := queueSig α) (.pop false) .ret with
  | some x =>
    let _ ← Prog.call (σ := queueSig α) .popCount .ret
    pure (some x)
  | none => pure none

def countedPopBatch : Nat → QueueCall α (List α)
  | 0 => pure []
  | n+1 => do
    match ← countedPop with
    | some x =>
      let batch ← countedPopBatch n
      pure (x :: batch)
    | none => pure []

/-- The bytes of an `ArbitrageOpportunity`, and the most bytes that a vector may ask for. -/
def opportunityBytes : Nat := 232

def isizeMax : Nat := 2 ^ 63 - 1

namespace MarketProducer
def push (update : α) : QueueCall α Unit := dropOldestPush update
def tryPush (update : α) : QueueCall α (Except α Unit) := boundedPush update
end MarketProducer

/-! A batch is none when the call panics. -/

namespace MarketConsumer
def pop : QueueCall α (Option α) := countedPop

/-- It asks for no more room than the queue has items. -/
def popBatch (maxBatch : Nat) : QueueCall α (Option (List α)) := do
  let batch ← countedPopBatch maxBatch
  pure (some batch)
end MarketConsumer

namespace OrderProducer
def submit (order : α) : QueueCall α Unit := dropOldestPush order
def trySubmit (order : α) : QueueCall α (Except α Unit) := boundedPush order
end OrderProducer

namespace OrderConsumer
def pop : QueueCall α (Option α) := countedPop
def popBatch (maxBatch : Nat) : QueueCall α (Option (List α)) := MarketConsumer.popBatch maxBatch
end OrderConsumer

namespace OpportunityProducer
/-- The drop is counted before the retry, and what comes of the retry is not looked at. -/
def push (opportunity : α) : QueueCall α Unit := do
  let _ ← Prog.call (σ := queueSig α) .pushCount .ret
  if ← Prog.call (σ := queueSig α) (.push opportunity false) .ret then
    pure ()
  else
    let _ ← Prog.call (σ := queueSig α) (.pop true) .ret
    let _ ← Prog.call (σ := queueSig α) .dropCount .ret
    let _ ← Prog.call (σ := queueSig α) (.push opportunity true) .ret
    pure ()
end OpportunityProducer

namespace OpportunityConsumer
def pop : QueueCall α (Option α) := countedPop

/-- It asks for room for all of `max_batch`, and panics if a vector cannot be that large. -/
def popBatch (maxBatch : Nat) : QueueCall α (Option (List α)) :=
  if maxBatch * opportunityBytes ≤ isizeMax then do
    let batch ← countedPopBatch maxBatch
    pure (some batch)
  else pure none
end OpportunityConsumer

/-- The handles of one of the queues. -/
structure Handles (α : Type) where
  push : α → QueueCall α Unit
  tryPush : Option (α → QueueCall α (Except α Unit))
  pop : QueueCall α (Option α)
  popBatch : Nat → QueueCall α (Option (List α))

/-- The three queues of the program. -/
inductive QueueKind where
  | market
  | execution
  | opportunity
deriving DecidableEq

def QueueKind.handles : QueueKind → Handles α
  | .market =>
    ⟨MarketProducer.push,some MarketProducer.tryPush,MarketConsumer.pop,MarketConsumer.popBatch⟩
  | .execution =>
    ⟨OrderProducer.submit,some OrderProducer.trySubmit,OrderConsumer.pop,OrderConsumer.popBatch⟩
  | .opportunity => ⟨OpportunityProducer.push,none,OpportunityConsumer.pop,
    OpportunityConsumer.popBatch⟩

/-- A use of a queue by one thread. -/
inductive Request (α : Type) where
  | push (x : α)
  | tryPush (x : α)
  | pop
  | popBatch (maxBatch : Nat)

inductive Reply (α : Type) where
  | pushed
  | tried (result : Except α Unit)
  /-- The queue has no such call. -/
  | missing
  | popped (item : Option α)
  | batch (items : List α)
  | panicked

def Handles.ask (h : Handles α) : Request α → QueueCall α (Reply α)
  | .push x => do
    h.push x
    pure .pushed
  | .tryPush x =>
    match h.tryPush with
    | some tryPush => do
      let result ← tryPush x
      pure (.tried result)
    | none => pure .missing
  | .pop => do
    let item ← h.pop
    pure (.popped item)
  | .popBatch n => do
    match ← h.popBatch n with
    | some items => pure (.batch items)
    | none => pure .panicked

/-- A request, its reply, and whether it found the queue full. -/
structure Answered (α : Type) where
  request : Request α
  reply : Reply α
  full : Bool

/-- The requests of one thread: the queue they leave, and what they came to. -/
def Handles.serve (h : Handles α) (s : DropQueue α) :
    List (Request α) → DropQueue α × List (Answered α)
  | [] => (s,[])
  | request :: requests =>
    let out := (DropQueue.machine 0).run (h.ask request) s
    let rest := h.serve out.2 requests
    (rest.1,⟨request,out.1,s.isFull⟩ :: rest.2)

/-- The item that a request brought into the queue. -/
def Answered.accepted (a : Answered α) : List α :=
  match a.request, a.reply with
  | .push x, _ => [x]
  | .tryPush x, .tried (.ok _) => [x]
  | _, _ => []

/-- The items that a request gave out. -/
def Answered.popped (a : Answered α) : List α :=
  match a.reply with
  | .popped item => item.toList
  | .batch items => items
  | _ => []

/-- A `try_push` that got its item back. -/
def Answered.rejected (a : Answered α) : Bool :=
  match a.reply with
  | .tried (.error _) => true
  | _ => false

/-- A `push` that found the queue full. -/
def Answered.overfull (a : Answered α) : Bool :=
  match a.request with
  | .push _ => a.full
  | _ => false

/-- A use of a queue by one of many threads. -/
inductive Use (α : Type) where
  | push (x : α)
  | pop
deriving DecidableEq

def Use.isPush : Use α → Bool
  | .push _ => true
  | .pop => false

/-- A push gives nothing back. -/
def Handles.body (h : Handles α) : Use α → QueueCall α (Option α)
  | .push x => do
    h.push x
    pure none
  | .pop => h.pop

abbrev QueuePool (α : Type) := Pool (Use α) (queueSig α) (DropQueue α) (Option α)

namespace QueuePool

/-- What the calls come to from an empty queue on. -/
def run (h : Handles α) (capacity : ℕ+) (acts : List (Act (Use α))) : QueuePool α :=
  Pool.run DropQueue.machine h.body ⟨.withCapacity capacity,[]⟩ acts

def Meets (h : Handles α) (capacity : ℕ+) (C : QueuePool α → Act (Use α) → Prop)
    (acts : List (Act (Use α))) : Prop :=
  Pool.Meets DropQueue.machine h.body C ⟨.withCapacity capacity,[]⟩ acts

/-- A push begins only when the pushes before it have returned. -/
def OneProducer (s : QueuePool α) : Act (Use α) → Prop
  | .start (.push _) => ∀ c ∈ s.calls, c.label.isPush = true → c.Done
  | _ => True

instance (s : QueuePool α) : (a : Act (Use α)) → Decidable (OneProducer s a)
  | .start (.push _) => inferInstanceAs (Decidable (∀ c ∈ s.calls, _))
  | .start .pop | .step _ => .isTrue trivial

/-- No thread begins a call before its last one has returned, and each side has one thread. -/
def OneEach (s : QueuePool α) : Act (Use α) → Prop
  | .start u => ∀ c ∈ s.calls, c.label.isPush = u.isPush → c.Done
  | .step _ => True

instance (s : QueuePool α) : (a : Act (Use α)) → Decidable (OneEach s a)
  | .start _ => inferInstanceAs (Decidable (∀ c ∈ s.calls, _))
  | .step _ => .isTrue trivial

/-- A retry finds room exactly if the drop step before it found an item. -/
def RetryFits (s : QueuePool α) : Act (Use α) → Prop
  | .start _ => True
  | .step n =>
    match s.calls[n]? with
    | some ⟨_,.call (.push _ true) _⟩ =>
      s.shared.items.length < s.shared.capacity ↔ s.shared.hasDropped n = true
    | _ => True

/-- No call is in progress. -/
def Quiet (s : QueuePool α) : Prop := ∀ c ∈ s.calls, c.Done

instance (s : QueuePool α) : Decidable s.Quiet := inferInstanceAs (Decidable (∀ c ∈ s.calls, _))

end QueuePool

end Calls

end SpreadArb
