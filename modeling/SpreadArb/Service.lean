import SpreadArb.Interact.Steps
import SpreadArb.Queues
import SpreadArb.ScanLoop

namespace SpreadArb
open Interact

/-- Where `run_scanning_loop` stands, with what is left of the call it is in. At the head, the
market updates that it takes up show in the prices. -/
inductive LoopAt where
  | head
  | executing (rest : Run Unit)
  | monitoring (rest : Run Unit)

/-- A start of `execute_opportunity`; `late` if its turn of the loop began after a request to shut
down. -/
structure Start where
  opportunity : ArbitrageOpportunity
  late : Bool

/-- The strategy task, the opportunity queue and the detector, with what is left of its push. The
starts of `execute_opportunity` are not kept by the code. -/
structure Service where
  runner : Runner
  queue : DropQueue ArbitrageOpportunity
  detector : QueueCall ArbitrageOpportunity Unit
  loop : LoopAt
  shutdownRequested : Bool
  exited : Bool
  started : List Start

/-- What happens next. A step of the strategy says how the two futures of a turn that begins to
monitor will alternate. -/
inductive ServiceAct where
  | strategy (schedule : Nat → Bool)
  | detect (opportunity : ArbitrageOpportunity)
  | detector
  | requestShutdown
  /-- `perform_graceful_shutdown` has timed out. -/
  | forceExit

namespace Service

def new (world : World) (startingCapital : ℚ) (capacity : ℕ+) : Service :=
  ⟨.new world startingCapital,.withCapacity capacity,.ret (),.head,false,false,[]⟩

def monitorTurn (schedule : Nat → Bool) : Run Unit := do
  let _ ← backendCall .entry (.sleep 0)
  let _ ← joinMonitors schedule
  pure ()

section Steps

variable (env : Surroundings) (shard : TradeId → Nat)

/-- The next step of `run_scanning_loop`, which never asks for a shutdown. A request that waits for
a shard on which the task itself holds a `Ref` waits for ever. -/
def scanningLoopStep (schedule : Nat → Bool) (s : Service) : Service :=
  match s.loop with
  | .head =>
    let out := (DropQueue.machine 0).run OpportunityConsumer.pop s.queue
    match out.1 with
    | none => { s with queue := out.2, loop := .monitoring (monitorTurn schedule) }
    | some opportunity =>
      { s with
        queue := out.2
        loop := .executing (executeOpportunity opportunity)
        started := s.started ++ [⟨opportunity,s.shutdownRequested⟩] }
  | .executing (.call op next) =>
    if Unblocked shard s.runner op then
      let out := (SpreadArb.runner env).serve op s.runner
      { s with runner := out.2, loop := .executing (next out.1) }
    else s
  | .executing (.ret _) => { s with loop := .monitoring (monitorTurn schedule) }
  | .monitoring (.call op next) =>
    if Unblocked shard s.runner op then
      let out := (SpreadArb.runner env).serve op s.runner
      { s with runner := out.2, loop := .monitoring (next out.1) }
    else s
  | .monitoring (.ret _) => { s with loop := .head }

def detectorStep (s : Service) : Service :=
  match s.detector with
  | .ret _ => s
  | .call op next =>
    let out := (DropQueue.machine 1).serve op s.queue
    { s with queue := out.2, detector := next out.1 }

def detect (opportunity : ArbitrageOpportunity) (s : Service) : Service :=
  match s.detector with
  | .ret _ => { s with detector := OpportunityProducer.push opportunity }
  | .call .. => s

def step (s : Service) (act : ServiceAct) : Service :=
  if s.exited then s
  else
    match act with
    | .strategy schedule => s.scanningLoopStep env shard schedule
    | .detect opportunity => s.detect opportunity
    | .detector => s.detectorStep
    | .requestShutdown => { s with shutdownRequested := true }
    | .forceExit => { s with exited := s.shutdownRequested }

def run (s : Service) (acts : List ServiceAct) : Service := acts.foldl (step env shard) s

end Steps

def lateStarts (s : Service) : Nat := s.started.countP Start.late

def StartsNoMore (env : Surroundings) (shard : TradeId → Nat) (s : Service) : Prop :=
  ∀ acts, (s.run env shard acts).lateStarts = s.lateStarts

/-- The turn under way comes to a write to a shard on which the task itself holds a `Ref`, however
its two futures take turns. -/
def WaitsForItself (env : Surroundings) (shard : TradeId → Nat) (s : Service) : Prop :=
  (∃ rest, s.loop = .executing rest ∧ ∀ schedule, ¬ (SpreadArb.runner env).Along (Unblocked shard)
    (rest >>= fun _ => monitorTurn schedule) s.runner) ∨
  ∃ rest, s.loop = .monitoring rest ∧
    ¬ (SpreadArb.runner env).Along (Unblocked shard) rest s.runner

end Service

end SpreadArb
