import Mathlib

namespace SpreadArb

/-- The loop of `chunk_vec` from `idx` on, with `usize` values of this many bits. A sum that
overflows is a panic. -/
def chunkLoop (bits : Nat) (items : List α) (chunkSize : Nat) (hsize : 0 < chunkSize) (idx : Nat)
    (chunks : List (List α)) : Option (List (List α)) :=
  if idx < items.length then
    if idx + chunkSize < 2 ^ bits then
      let stop := min (idx + chunkSize) items.length
      chunkLoop bits items chunkSize hsize stop (chunks ++ [items.extract idx stop])
    else none
  else some chunks
termination_by items.length - idx
decreasing_by omega

/-- `utils::chunk_vec`; nothing stands for a panic. -/
def chunkVec (bits : Nat) (items : List α) (chunkSize : Nat) : Option (List (List α)) :=
  if h : 0 < chunkSize then chunkLoop bits items chunkSize h 0 [] else some []

/-- `Vec::dedup`: of equal neighbours the first one stays. -/
def dedupAfter [DecidableEq α] (last : α) : List α → List α
  | [] => []
  | a :: items => if a = last then dedupAfter last items else a :: dedupAfter a items

def dedup [DecidableEq α] : List α → List α
  | [] => []
  | a :: items => a :: dedupAfter a items

/-- `fetch_perp_coins`, for the names in the answer of the exchange. -/
def fetchPerpCoins (names : List String) : List String :=
  dedup (names.mergeSort (fun a b => a ≤ b))

def coinsPerConnection : Nat := 50

/-- The coins of each worker that `HyperliquidPerpsConnector::run` starts, by the number of the
worker. -/
def hyperliquidBatches (bits : Nat) (names : List String) : Option (List (List String)) :=
  chunkVec bits (fetchPerpCoins names) coinsPerConnection

end SpreadArb
