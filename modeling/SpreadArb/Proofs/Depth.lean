import SpreadArb.DepthChecker
import Mathlib.Algebra.Order.BigOperators.Group.List
import Mathlib.Algebra.Order.Field.Basic
import Mathlib.Tactic.Linarith

namespace SpreadArb.Proofs.Depth
open Interact

/-- What a depth check comes to, the worst one first. -/
inductive Verdict where
  | abort
  | warn
  | sufficient
deriving DecidableEq

def Verdict.rank : Verdict → Nat
  | .abort => 0
  | .warn => 1
  | .sufficient => 2

/-- The verdict is borne out by the result. -/
def Verdict.Holds (r : DepthCheckResult) : Verdict → Prop
  | .abort => r.shouldAbort = true
  | .warn => r.shouldWarn = true
  | .sufficient => r.isSufficient = true

/-- A depth check before a market hedge: the backend and its state, the cache, and what is asked. -/
structure Check where
  W : Type
  backend : Machine SpreadArb.backend W
  world : W
  cache : DepthCache
  exchange : String
  symbol : String
  hedgeQuantity : ℚ

namespace Check

def result (c : Check) : Except String DepthCheckResult :=
  (c.backend.run (checkDepthForHedge c.cache c.exchange c.symbol c.hedgeQuantity) c.world).1.1

/-- The book that the check goes by: a fresh one of the cache, else the one that the exchange
answers. -/
def book (c : Check) : Except String OrderBookDepth :=
  let start := c.backend.serve .now c.world
  match c.cache.fresh c.exchange c.symbol start.1 with
  | some depth => .ok depth
  | none => (c.backend.serve (.getOrderBookDepth c.exchange c.symbol 10) start.2).1

end Check

/-- The top five levels of the side of the book that a hedge consumes. -/
def consumed : OrderSide → OrderBookDepth → List PriceLevel
  | .long, depth => depth.asks.take 5
  | .short, depth => depth.bids.take 5

/-- The levels of the second book have the prices of the first one and at least its quantities. -/
structure Deeper (depth deeper : OrderBookDepth) : Prop where
  bids : List.Forall₂ (fun l l' => l'.price = l.price ∧ l.quantity ≤ l'.quantity)
    depth.bids deeper.bids
  asks : List.Forall₂ (fun l l' => l'.price = l.price ∧ l.quantity ≤ l'.quantity)
    depth.asks deeper.asks

/-- What the check before a hedge of this side should be. -/
structure Sound (hedge : OrderSide) : Prop where
  /-- Books that agree on the levels consumed give the same verdict. -/
  sameVerdict : ∀ (c c' : Check) (depth depth' : OrderBookDepth) (r r' : DepthCheckResult),
    c.book = .ok depth → c'.book = .ok depth' → c.result = .ok r → c'.result = .ok r' →
    0 < c.hedgeQuantity → c'.hedgeQuantity = c.hedgeQuantity →
      consumed hedge depth = consumed hedge depth' →
    ∀ v : Verdict, v.Holds r ↔ v.Holds r'
  oneVerdict : ∀ (c : Check) (r : DepthCheckResult), c.result = .ok r → 0 < c.hedgeQuantity →
    ∃! v : Verdict, v.Holds r
  /-- A deeper book and a smaller hedge give no worse verdict. -/
  monotone : ∀ (c c' : Check) (depth depth' : OrderBookDepth) (r r' : DepthCheckResult) (v
    v' : Verdict),
    c.book = .ok depth → c'.book = .ok depth' → c.result = .ok r → c'.result = .ok r' →
    0 < c'.hedgeQuantity → c'.hedgeQuantity ≤ c.hedgeQuantity → Deeper depth depth' →
    v.Holds r → v'.Holds r' → v.rank ≤ v'.rank

section Results

variable {c : Check} {depth : OrderBookDepth} {r : DepthCheckResult}

/-- The ratio that the code looks at, for a hedge of some quantity. -/
def ratio (depth : OrderBookDepth) (hedgeQuantity : ℚ) : ℚ :=
  ((depth.bids.take 5).map PriceLevel.quantity).sum / (hedgeQuantity * (3/2))

/-- A check computes its result from the book it goes by. -/
theorem result_eq (hr : c.result = .ok r) :
    ∃ depth ms, c.book = .ok depth ∧
      r = calculateDepthResult c.exchange c.symbol depth c.hedgeQuantity ms := by
  unfold Check.result checkDepthForHedge at hr
  simp only [Machine.run_bind,Machine.run_call,Machine.run_ret] at hr
  unfold Check.book
  dsimp only
  cases hf : c.cache.fresh c.exchange c.symbol (c.backend.serve .now c.world).1 with
  | some fresh =>
    simp only [hf,Machine.run_pure,Except.ok.injEq] at hr
    exact ⟨fresh,0,rfl,hr.symm⟩
  | none =>
    simp only [hf,queryDepth,Machine.run_bind,Machine.run_call,Machine.run_ret] at hr
    cases ha : (c.backend.serve (.getOrderBookDepth c.exchange c.symbol 10)
      (c.backend.serve .now c.world).2).1 with
    | error e => simp [ha] at hr
    | ok depth =>
      simp only [ha,Machine.run_bind,Machine.run_call,Machine.run_ret,Machine.run_pure,
        Except.ok.injEq] at hr
      exact ⟨depth,_,rfl,hr.symm⟩

/-- The verdict on a ratio. -/
def verdictOf (x : ℚ) : Verdict :=
  if x < 73/100 then .abort else if x < 1 then .warn else .sufficient

theorem holds_iff (hb : c.book = .ok depth) (hr : c.result = .ok r) (hq : 0 < c.hedgeQuantity)
    (v : Verdict) : v.Holds r ↔ v = verdictOf (ratio depth c.hedgeQuantity) := by
  obtain ⟨depth',ms,hb',rfl⟩ := result_eq hr
  obtain rfl : depth = depth' := Except.ok.inj (hb.symm.trans hb')
  have hrequired : c.hedgeQuantity * (3/2) > 0 := by linarith
  have hratio : (calculateDepthResult c.exchange c.symbol depth c.hedgeQuantity ms).depthRatio =
      ratio depth c.hedgeQuantity := by
    simp [calculateDepthResult,ratio,hrequired]
  have habort : (calculateDepthResult c.exchange c.symbol depth c.hedgeQuantity ms).isCritical =
      decide (ratio depth c.hedgeQuantity < 73/100) := by rw [← hratio]; rfl
  have hsufficient : (calculateDepthResult c.exchange c.symbol depth
      c.hedgeQuantity ms).isSufficient =
      decide (ratio depth c.hedgeQuantity ≥ 1) := by rw [← hratio]; rfl
  unfold verdictOf
  cases v with
  | abort =>
    simp only [Verdict.Holds,DepthCheckResult.shouldAbort,habort,decide_eq_true_eq]
    split_ifs <;> simp_all
  | warn =>
    simp only [Verdict.Holds,DepthCheckResult.shouldWarn,habort,hsufficient]
    split_ifs with h1 h2
    · simp [h1]
    · simp [not_le.mpr h2,not_lt.mp h1]
    · simp [not_lt.mp h2]
  | sufficient =>
    simp only [Verdict.Holds,hsufficient,decide_eq_true_eq]
    split_ifs with h1 h2
    · simp only [iff_false,not_le]
      linarith
    · simpa using h2
    · simpa using h2

end Results

section Books

variable {depth deeper : OrderBookDepth} {q q' : ℚ}

theorem sum_le_of_deeper {levels levels' : List PriceLevel}
    (h : List.Forall₂ (fun l l' => l'.price = l.price ∧ l.quantity ≤ l'.quantity) levels levels')
    (n : Nat) :
    ((levels.take n).map PriceLevel.quantity).sum ≤
      ((levels'.take n).map PriceLevel.quantity).sum := by
  apply List.Forall₂.sum_le_sum
  rw [List.forall₂_map_left_iff,List.forall₂_map_right_iff]
  exact (List.forall₂_take n h).imp (fun _ _ hl => hl.2)

theorem rank_verdictOf_mono {x y : ℚ} (h : x ≤ y) : (verdictOf x).rank ≤ (verdictOf y).rank := by
  unfold verdictOf
  split_ifs <;> simp [Verdict.rank] <;> linarith

/-- A negative sum of quantities is as bad as none. -/
theorem rank_ratio_mono (h : Deeper depth deeper) (hq' : 0 < q') (hle : q' ≤ q) :
    (verdictOf (ratio depth q)).rank ≤ (verdictOf (ratio deeper q')).rank := by
  have hsum := sum_le_of_deeper h.bids 5
  unfold ratio
  generalize ((depth.bids.take 5).map PriceLevel.quantity).sum = available at hsum
  generalize ((deeper.bids.take 5).map PriceLevel.quantity).sum = available' at hsum
  by_cases hneg : available < 0
  · have hratio : available / (q * (3/2)) < 73/100 := by
      have : available / (q * (3/2)) < 0 := div_neg_of_neg_of_pos hneg (by linarith)
      linarith
    simp [verdictOf,hratio,Verdict.rank]
  · apply rank_verdictOf_mono
    rw [div_le_div_iff₀ (by linarith) (by linarith)]
    nlinarith

end Books

/-- A check of a book for a hedge of one contract. -/
def checkOf (depth : OrderBookDepth) : Check :=
  ⟨World,exchanges (fun _ => { depth := depth }),.empty,[],"bybit","BTCUSDT",1⟩

/-- Two books with the same asks, one of them without bids. -/
def noBids : OrderBookDepth := ⟨[],[⟨100,10⟩],0⟩

def someBids : OrderBookDepth := ⟨[⟨99,10⟩],[⟨100,10⟩],0⟩

theorem not_sound_long : ¬Sound .long := by
  intro h
  have hsame := h.sameVerdict (checkOf noBids) (checkOf someBids) noBids
      someBids _ _ rfl rfl rfl rfl
    (by norm_num [checkOf]) rfl rfl .abort
  have habort : (Verdict.abort).Holds (calculateDepthResult "bybit" "BTCUSDT" noBids 1 0) := by
    simp only [Verdict.Holds]
    decide +kernel
  have hnot : ¬(Verdict.abort).Holds (calculateDepthResult "bybit" "BTCUSDT" someBids 1 0) := by
    simp only [Verdict.Holds]
    decide +kernel
  exact hnot (hsame.mp habort)

/-- The check before a short hedge is as it should be; the one before a long hedge goes by the bids
as well, which such a hedge does not consume. -/
theorem sound_iff (hedge : OrderSide) : Sound hedge ↔ hedge = .short := by
  constructor
  · intro h
    cases hedge with
    | long => exact absurd h not_sound_long
    | short => rfl
  · rintro rfl
    constructor
    · intro c c' depth depth' r r' hb hb' hr hr' hq hq' hsame v
      have hratio : ratio depth c.hedgeQuantity = ratio depth' c.hedgeQuantity := by
        unfold ratio
        rw [show depth.bids.take 5 = depth'.bids.take 5 from hsame]
      rw [holds_iff hb hr hq,holds_iff hb' hr' (hq' ▸ hq),hq',hratio]
    · intro c r hr hq
      obtain ⟨depth,ms,hb,-⟩ := result_eq hr
      refine ⟨verdictOf (ratio depth c.hedgeQuantity),(holds_iff hb hr hq _).mpr rfl,fun v hv => ?_⟩
      exact (holds_iff hb hr hq v).mp hv
    · intro c c' depth depth' r r' v v' hb hb' hr hr' hq' hle hdeeper hv hv'
      rw [holds_iff hb hr (hq'.trans_le hle)] at hv
      rw [holds_iff hb' hr' hq'] at hv'
      rw [hv,hv']
      exact rank_ratio_mono hdeeper hq' hle

/-- With equal asks, a book without bids aborts a long hedge and one with bids does not. -/
theorem bids_decide_long_hedge : ¬∀ hedge, Sound hedge :=
  fun h => not_sound_long (h .long)

end SpreadArb.Proofs.Depth
