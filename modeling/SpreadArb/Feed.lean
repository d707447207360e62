import SpreadArb.Detector

namespace SpreadArb
open Numeric

/-- An update in the pipeline with the pair it was parsed for; the code does not keep the
pair. -/
structure Tagged where
  pair : Pair
  update : MarketUpdate

/-- The feed up to the detector. `processed` are the updates the detector has taken, the
newest first, and `passes` what each of its detection passes has published. -/
structure Feed where
  map : SymbolMap
  queue : List Tagged
  store : MarketDataStore
  processed : List Tagged
  passes : List (List Opportunity)

/-- A message for `redis_bridge`, a turn of the detector, or a look-up by another holder of
the symbol map, such as the runner. -/
inductive FeedStep where
  | message (key value : String) (timestampUs : Nat)
  | detect (secs : String → String → Nat)
  | lookup (exchange symbol : String)

namespace Feed

def new : Feed := ⟨.new,[],.new,[],[]⟩

/-- `redis_bridge` on one message. -/
def bridge (lib : Library) (s : Feed) (key value : String) (timestampUs : Nat) : Feed :=
  match keyPair lib key, parseToMarketUpdate lib s.map key value timestampUs with
  | some pair, (some update,m) =>
    { s with map := m, queue := pushBounded marketQueueCapacity s.queue ⟨pair,update⟩ }
  | _, (_,m) => { s with map := m }

/-- One turn of `OpportunityDetector::run`. -/
def detectorTurn (s : Feed) (secs : String → String → Nat) : Feed :=
  match s.queue with
  | [] => s
  | u :: queue =>
    let store := s.store.update u.update
    let s := { s with queue, store, processed := u :: s.processed }
    match s.map.get u.update.symbolId with
    | none => s
    | some (exchange,symbol) =>
      let (found,m) := Detector.detectOpportunitiesForSymbol store symbol secs s.map exchange
      { s with map := m, passes := found :: s.passes }

def step (lib : Library) (s : Feed) : FeedStep → Feed
  | .message key value timestampUs => s.bridge lib key value timestampUs
  | .detect secs => s.detectorTurn secs
  | .lookup exchange symbol => { s with map := (s.map.getOrInsert exchange symbol).2 }

def run (lib : Library) (s : Feed) : List FeedStep → Feed
  | [] => s
  | a :: steps => (s.step lib a).run lib steps

end Feed

end SpreadArb
