import SpreadArb.Interact.Steps
import Mathlib.Data.PNat.Basic

namespace SpreadArb
open Interact

/-- An item of the Redis queue. The code does not number them. -/
structure Message where
  number : Nat
  key : String
  value : String
deriving DecidableEq

/-- An item that the bridge took out of the queue, and the item it made room for. -/
structure Drop where
  item : Message
  rejected : Message
deriving DecidableEq

/-- Where `redis_bridge` stands. -/
inductive BridgeAt where
  | receiving
  | pushing (item : Message)
  | dropping (item : Message)
  | retrying (item : Message)
deriving DecidableEq

def BridgeAt.hand : BridgeAt → List Message
  | .receiving => []
  | .pushing item | .dropping item | .retrying item => [item]

/-- Where `redis_writer_thread` stands. -/
inductive WriterAt where
  | connecting
  | checking
  /-- In the drain of a shutdown, at a pop, at a flush of a full buffer, at the last flush. -/
  | draining
  | drainFlushing
  | lastFlushing
  /-- After a tick, at a pop and at the flush. -/
  | filling
  | flushing
  | exited
deriving DecidableEq

def redisFlushMaxItems : Nat := 512

/-- The Redis queue and its two threads. The logs of what was sent, rejected at a first push,
dropped and flushed are not kept by the code. -/
structure Persistence where
  capacity : ℕ+
  queue : List Message
  shutdownRequested : Bool
  bridge : BridgeAt
  writer : WriterAt
  buffer : List Message
  sent : List Message
  rejected : List Message
  dropped : List Drop
  flushed : List (List Message)
deriving DecidableEq

/-- What happens next. A turn of the writer says if the connection or the pipeline that it waits for
succeeds. -/
inductive Turn where
  | receive (key value : String)
  | bridge
  | writer (ok : Bool)
  | requestShutdown
deriving DecidableEq

namespace Persistence

def new (capacity : ℕ+) : Persistence := ⟨capacity,[],false,.receiving,.connecting,[],[],[],[],[]⟩

def receive (key value : String) (s : Persistence) : Persistence :=
  match s.bridge with
  | .receiving =>
    { s with bridge := .pushing ⟨s.sent.length,key,
      value⟩, sent := s.sent ++ [⟨s.sent.length,key,value⟩] }
  | _ => s

def redisBridge (s : Persistence) : Persistence :=
  match s.bridge with
  | .receiving => s
  | .pushing item =>
    if s.queue.length < s.capacity then { s with queue := s.queue ++ [item], bridge := .receiving }
    else { s with bridge := .dropping item, rejected := s.rejected ++ [item] }
  | .dropping item =>
    match s.queue with
    | [] => { s with bridge := .retrying item }
    | oldest :: queue =>
      { s with queue := queue, bridge := .retrying item, dropped := s.dropped ++ [⟨oldest,item⟩] }
  | .retrying item =>
    if s.queue.length < s.capacity then { s with queue := s.queue ++ [item], bridge := .receiving }
    else { s with bridge := .receiving }

/-- A pipeline that fails has no effect. -/
def flushRedisBuffer (ok : Bool) (s : Persistence) : Persistence :=
  if ok then { s with flushed := s.flushed ++ [s.buffer], buffer := [] } else s

def redisWriterThread (ok : Bool) (s : Persistence) : Persistence :=
  match s.writer with
  | .connecting => { s with writer := if ok then .checking else .exited }
  | .checking => { s with writer := if s.shutdownRequested then .draining else .filling }
  | .draining =>
    match s.queue with
    | item :: queue =>
      let buffer := s.buffer ++ [item]
      { s with
        queue
        buffer
        writer := if redisFlushMaxItems ≤ buffer.length then .drainFlushing else .draining }
    | [] => { s with writer := if s.buffer.isEmpty then .exited else .lastFlushing }
  | .drainFlushing => { flushRedisBuffer ok s with writer := .draining }
  | .lastFlushing => { flushRedisBuffer ok s with writer := .exited }
  | .filling =>
    if s.buffer.length < redisFlushMaxItems then
      match s.queue with
      | item :: queue => { s with queue, buffer := s.buffer ++ [item] }
      | [] => { s with writer := if s.buffer.isEmpty then .checking else .flushing }
    else { s with writer := if s.buffer.isEmpty then .checking else .flushing }
  | .flushing => { flushRedisBuffer ok s with writer := .checking }
  | .exited => s

def step (s : Persistence) : Turn → Persistence
  | .receive key value => s.receive key value
  | .bridge => s.redisBridge
  | .writer ok => s.redisWriterThread ok
  | .requestShutdown => { s with shutdownRequested := true }

def run (capacity : ℕ+) (turns : List Turn) : Persistence := turns.foldl step (new capacity)

def kept (s : Persistence) : List Message := s.flushed.flatten ++ s.buffer ++ s.queue

/-- The items kept are sent ones in their order, none twice. One that is not among them is in the
hand of the bridge, or was dropped for an item that found the queue full. -/
structure InOrder (s : Persistence) : Prop where
  sublist : s.kept.Sublist s.sent
  nodup : (s.kept.map Message.number).Nodup
  missing : ∀ m ∈ s.sent, m ∉ s.kept →
    m ∈ s.bridge.hand ∨ ∃ d ∈ s.dropped, d.item = m ∧ d.rejected ∈ s.rejected

def Looping (s : Persistence) : Prop :=
  s.writer = .connecting ∨ s.writer = .checking ∨ s.writer = .filling ∨ s.writer = .flushing

/-- The buffer does not outgrow a batch, unless the writer is in the drain of a shutdown. -/
def Bounded (s : Persistence) : Prop :=
  s.shutdownRequested = false ∨ s.Looping → s.buffer.length ≤ redisFlushMaxItems

def Stopped (s : Persistence) : Prop := s.writer = .exited ∧ s.shutdownRequested = true

def Delivered (s : Persistence) : Prop :=
  ∀ m ∈ s.sent, m ∈ s.flushed.flatten ∨ m ∈ s.dropped.map Drop.item

structure Persists (s : Persistence) : Prop where
  inOrder : s.InOrder
  bounded : s.Bounded
  delivered : s.Stopped → s.Delivered

def Leaving (s : Persistence) : Prop := s.writer = .lastFlushing ∨ s.writer = .exited

/-- The bridge holds no item when the writer finds the queue empty in its drain, and takes none
after that, and the last flush succeeds. A writer that gets no connection must have been sent
nothing. -/
def Handover (s : Persistence) : Turn → Prop
  | .receive _ _ => ¬s.Leaving
  | .writer ok =>
    match s.writer with
    | .connecting => ok = false → s.sent = []
    | .draining => s.queue = [] → s.bridge = .receiving
    | .lastFlushing => ok = true
    | _ => True
  | .bridge | .requestShutdown => True

end Persistence

end SpreadArb
