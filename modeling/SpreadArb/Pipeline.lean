import SpreadArb.Market

namespace SpreadArb
open Numeric

/-- An update as `redis_bridge` pushes it: the parser lets no other bids through. -/
structure Quote extends MarketUpdate where
  bid_pos : F64.lt (.fin 0) bid = true

/-- The market queue with the stores of its two consumers. The logs, newest first, are not
kept by the code: what was pushed, and what each consumer has popped. -/
structure Pipeline where
  queue : List Quote
  detector : MarketDataStore
  runner : MarketDataStore
  pushed : List Quote
  detected : List Quote
  taken : List Quote

/-- Whether a binary gives the runner a consumer of the market queue. -/
inductive Wiring where
  /-- `main.rs`. -/
  | detectorOnly
  /-- `bybit-synthetic-test.rs`. -/
  | both
deriving DecidableEq

inductive PipelineStep where
  | push (u : Quote)
  | detectorPop
  | runnerPop

namespace Pipeline

def new : Pipeline := ⟨[],.new,.new,[],[],[]⟩

def step (wiring : Wiring) (s : Pipeline) : PipelineStep → Pipeline
  | .push u =>
    { s with queue := pushBounded marketQueueCapacity s.queue u, pushed := u :: s.pushed }
  | .detectorPop =>
    match s.queue with
    | [] => s
    | u :: queue =>
      { s with queue, detector := s.detector.update u.toMarketUpdate, detected := u :: s.detected }
  | .runnerPop =>
    match wiring, s.queue with
    | .both, u :: queue =>
      { s with queue, runner := s.runner.update u.toMarketUpdate, taken := u :: s.taken }
    | _, _ => s

def run (wiring : Wiring) (s : Pipeline) : List PipelineStep → Pipeline
  | [] => s
  | a :: steps => (s.step wiring a).run wiring steps

end Pipeline

end SpreadArb
