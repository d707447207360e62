import Mathlib

namespace SpreadArb

/-- A `Duration` in nanoseconds. -/
abbrev Duration := Nat

/-- `TestMetricsCollector::calculate_percentile` with exact arithmetic. The outer option is for the
panic of an index out of range. -/
def calculatePercentile (sortedValues : List Duration) (percentile : ℚ) :
    Option (Option Duration) :=
  if sortedValues.isEmpty then some none
  else
    let index := ⌊percentile / 100 * sortedValues.length⌋₊
    let index := min index (sortedValues.length - 1)
    sortedValues[index]?.map some

/-- `TestMetricsCollector::calculate_latency_percentiles`. -/
def calculateLatencyPercentiles (latencies : List Duration) :
    Option (Option Duration × Option Duration × Option Duration) := do
  if latencies.isEmpty then return (none,none,none)
  let sorted := latencies.mergeSort
  let p50 ← calculatePercentile sorted 50
  let p95 ← calculatePercentile sorted 95
  let p99 ← calculatePercentile sorted 99
  return (p50,p95,p99)

end SpreadArb
