import Mathlib.Data.List.Basic

namespace SpreadArb

/-- `LatencyStats` without its padding, and `LatencySnapshot`, which has the same values. -/
structure LatencyStats where
  p50Ns : UInt64
  p95Ns : UInt64
  p99Ns : UInt64
  maxNs : UInt64
  count : UInt64
deriving DecidableEq

/-- The smoothing factor. -/
def alpha : Float := 0.1

/-- The exponential moving average in which a new latency has this weight. -/
def movingAverage (weight : Float) (current latencyNs : UInt64) : UInt64 :=
  ((1.0 - weight) * current.toFloat + weight * latencyNs.toFloat).toUInt64

def newP50 (currentP50 latencyNs : UInt64) : UInt64 := movingAverage alpha currentP50 latencyNs

def newP95 (currentP95 latencyNs : UInt64) : UInt64 :=
  movingAverage (alpha * 0.5) currentP95 latencyNs

def newP99 (currentP99 latencyNs : UInt64) : UInt64 :=
  movingAverage (alpha * 0.2) currentP99 latencyNs

/-- The next atomic step of a call of `LatencyStats::record`, with what the call has read. -/
inductive RecordPc where
  | fetchAdd
  | loadMax
  | exchange (currentMax : UInt64)
  | loadP50
  | storeP50 (currentP50 : UInt64)
  | loadP95
  | storeP95 (currentP95 : UInt64)
  | compareP95
  | loadP99
  | storeP99 (currentP99 : UInt64)
  | returned
deriving DecidableEq

namespace LatencyStats

def new : LatencyStats := ⟨0,0,0,0,0⟩

/-- `LatencyStats::record` with no other call running. -/
def record (s : LatencyStats) (latencyNs : UInt64) : LatencyStats :=
  let s := { s with count := s.count + 1 }
  let s := if latencyNs > s.maxNs then { s with maxNs := latencyNs } else s
  let currentP50 := s.p50Ns
  let s := { s with p50Ns := newP50 currentP50 latencyNs }
  let s := if latencyNs > currentP50 then { s with p95Ns := newP95 s.p95Ns latencyNs } else s
  if latencyNs > s.p95Ns then { s with p99Ns := newP99 s.p99Ns latencyNs } else s

/-- `LatencyStats::snapshot` after some calls, one after the other. -/
def snapshotAfter (latencies : List UInt64) : LatencyStats := latencies.foldl record new

/-- The head of the loop around `compare_exchange_weak`. -/
def whileLarger (latencyNs currentMax : UInt64) : RecordPc :=
  if latencyNs > currentMax then .exchange currentMax else .loadP50

/-- One atomic step of a call. The exchange may fail although the value is the expected one. -/
def recordStep (latencyNs : UInt64) (spurious : Bool) (s : LatencyStats) :
    RecordPc → RecordPc × LatencyStats
  | .fetchAdd => (.loadMax,{ s with count := s.count + 1 })
  | .loadMax => (whileLarger latencyNs s.maxNs,s)
  | .exchange currentMax =>
    if s.maxNs = currentMax && !spurious then (.loadP50,{ s with maxNs := latencyNs })
    else (whileLarger latencyNs s.maxNs,s)
  | .loadP50 => (.storeP50 s.p50Ns,s)
  | .storeP50 currentP50 =>
    (if latencyNs > currentP50 then .loadP95 else .compareP95,
      { s with p50Ns := newP50 currentP50 latencyNs })
  | .loadP95 => (.storeP95 s.p95Ns,s)
  | .storeP95 currentP95 => (.compareP95,{ s with p95Ns := newP95 currentP95 latencyNs })
  | .compareP95 => (if latencyNs > s.p95Ns then .loadP99 else .returned,s)
  | .loadP99 => (.storeP99 s.p99Ns,s)
  | .storeP99 currentP99 => (.returned,{ s with p99Ns := newP99 currentP99 latencyNs })
  | .returned => (.returned,s)

end LatencyStats

/-- A call of `record`: its argument and where it stands. -/
structure RecordCall where
  latencyNs : UInt64
  pc : RecordPc
deriving DecidableEq

/-- The statistics and the calls made on them, the first one first. -/
structure Recording where
  stats : LatencyStats
  calls : List RecordCall
deriving DecidableEq

/-- A thread calls `record`, or the call with this number makes its next step. -/
inductive RecordAct where
  | start (latencyNs : UInt64)
  | step (call : Nat) (spurious : Bool)

namespace Recording

def act (s : Recording) : RecordAct → Recording
  | .start latencyNs => { s with calls := s.calls ++ [⟨latencyNs,.fetchAdd⟩] }
  | .step n spurious =>
    match s.calls[n]? with
    | some c =>
      let out := s.stats.recordStep c.latencyNs spurious c.pc
      ⟨out.2,s.calls.set n { c with pc := out.1 }⟩
    | none => s

def run (acts : List RecordAct) : Recording := acts.foldl act ⟨.new,[]⟩

/-- The largest latency passed to a call that has started. -/
def largest (s : Recording) : Nat := (s.calls.map (fun c => c.latencyNs.toNat)).foldr max 0

/-- All calls have returned. -/
def Finished (s : Recording) : Prop := ∀ c ∈ s.calls, c.pc = .returned

instance (s : Recording) : Decidable s.Finished := inferInstanceAs (Decidable (∀ c ∈ s.calls, _))

end Recording

end SpreadArb
