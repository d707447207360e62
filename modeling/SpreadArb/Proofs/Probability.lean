import SpreadArb.Monitor
import SpreadArb.Proofs.Depth

namespace SpreadArb.Proofs.Probability
open Depth

/-- No price and no quantity of the book is negative. -/
def NonNegative (book : OrderBookDepth) : Prop :=
  ∀ l ∈ book.bids ++ book.asks, 0 ≤ l.price ∧ 0 ≤ l.quantity

/-- The probability the estimator gives a level. -/
def fillAt (book : OrderBookDepth) (side : OrderSide) (size : ℚ) (level : Nat) : ℚ :=
  (calculateFillProbability book side level size).probability

/-- What lies in the book up to and including a level, in dollars. -/
def depthTo (levels : List PriceLevel) (level : Nat) : ℚ :=
  ((levels.take (level+1)).map (fun l => l.quantity * l.price)).sum

/-- A decision names the best of the levels looked at, or there is no level worth trying. -/
structure WellChosen (book : OrderBookDepth) (side : OrderSide) (size : ℚ)
    (decision : LimitOrderDecision) : Prop where
  indexed : decision.useLimit = true →
    decision.priceLevel < 3 ∧ decision.priceLevel < (book.against side).length
  likely : decision.useLimit = true →
    decision.probability = fillAt book side size decision.priceLevel ∧
    minProbabilityThreshold ≤ fillAt book side size decision.priceLevel
  best : decision.useLimit = true →
    ∀ level < 3, fillAt book side size level ≤ fillAt book side size decision.priceLevel
  /-- Of two levels that are as likely the one nearer to the top is taken. -/
  lowest : decision.useLimit = true →
    ∀ level < decision.priceLevel,
      fillAt book side size level < fillAt book side size decision.priceLevel
  patient : decision.useLimit = true → decision.waitTimeMs ≤ maxWaitTimeMs
  hopeless : decision.useLimit = false →
    ∀ level, fillAt book side size level < minProbabilityThreshold

section Base

theorem baseProbability_mono {x y : ℚ} (h : x ≤ y) : baseProbability x ≤ baseProbability y := by
  unfold baseProbability
  split_ifs <;> linarith

theorem baseProbability_range (x : ℚ) :
    20/100 ≤ baseProbability x ∧ baseProbability x ≤ 95/100 := by
  unfold baseProbability
  split_ifs <;> norm_num

theorem levelPenalty_range (level : Nat) :
    50/100 ≤ levelPenalty level ∧ levelPenalty level ≤ 1 := by
  unfold levelPenalty
  split <;> norm_num

/-- A level the search does not look at is too deep for any book. -/
theorem levelPenalty_deep {level : Nat} (h : 3 ≤ level) : levelPenalty level ≤ 70/100 := by
  unfold levelPenalty
  split <;> first | omega | norm_num

theorem estimatedWait_le {p : ℚ} (h : minProbabilityThreshold ≤ p) :
    estimatedWait p ≤ maxWaitTimeMs := by
  unfold minProbabilityThreshold at h
  unfold estimatedWait maxWaitTimeMs
  split_ifs <;> first | omega | linarith

end Base

section Level

variable {book deeper : OrderBookDepth} {side : OrderSide} {size size' : ℚ} {level : Nat}

theorem fillAt_outside (h : (book.against side).length ≤ level) :
    fillAt book side size level = 0 := by
  simp [fillAt,calculateFillProbability,h]

theorem fillAt_inside (h : level < (book.against side).length) :
    fillAt book side size level =
      baseProbability (depthTo (book.against side) level / size) * levelPenalty level := by
  have hinside : ¬ level ≥ (book.against side).length := by omega
  simp [fillAt,calculateFillProbability,hinside,depthTo]

theorem fillAt_range : 0 ≤ fillAt book side size level ∧ fillAt book side size level ≤ 1 := by
  by_cases h : level < (book.against side).length
  · rw [fillAt_inside h]
    obtain ⟨hb,hb'⟩ := baseProbability_range (depthTo (book.against side) level / size)
    obtain ⟨hp,hp'⟩ := levelPenalty_range level
    constructor
    · apply mul_nonneg <;> linarith
    · apply mul_le_one₀ <;> linarith
  · rw [fillAt_outside (by omega)]
    norm_num

theorem fillAt_deep (h : 3 ≤ level) : fillAt book side size level < minProbabilityThreshold := by
  unfold minProbabilityThreshold
  by_cases hl : level < (book.against side).length
  · rw [fillAt_inside hl]
    obtain ⟨hb,hb'⟩ := baseProbability_range (depthTo (book.against side) level / size)
    obtain ⟨hp,-⟩ := levelPenalty_range level
    have hp' := levelPenalty_deep h
    nlinarith
  · rw [fillAt_outside (by omega)]
    norm_num

/-- A level that reaches the threshold is there. -/
theorem inside_of_likely (h : minProbabilityThreshold ≤ fillAt book side size level) :
    level < (book.against side).length := by
  by_contra hl
  rw [fillAt_outside (by omega)] at h
  norm_num [minProbabilityThreshold] at h

theorem waits (h : minProbabilityThreshold ≤ fillAt book side size level) :
    (calculateFillProbability book side level size).estimatedWaitMs ≤ maxWaitTimeMs := by
  have hinside : ¬ level ≥ (book.against side).length := by
    have := inside_of_likely h
    omega
  unfold fillAt calculateFillProbability at h
  unfold calculateFillProbability
  simp only [hinside,↓reduceIte] at h ⊢
  exact estimatedWait_le h

theorem against_nonNegative (h : NonNegative book) :
    ∀ l ∈ book.against side, 0 ≤ l.price ∧ 0 ≤ l.quantity := by
  intro l hl
  apply h
  cases side with
  | long => exact List.mem_append_right _ hl
  | short => exact List.mem_append_left _ hl

theorem against_deeper (h : Deeper book deeper) :
    List.Forall₂ (fun l l' => l'.price = l.price ∧ l.quantity ≤ l'.quantity)
      (book.against side) (deeper.against side) := by
  cases side with
  | long => exact h.asks
  | short => exact h.bids

end Level

section Depths

variable {levels levels' : List PriceLevel} {level : Nat}

theorem depthTo_nonneg (h : ∀ l ∈ levels, 0 ≤ l.price ∧ 0 ≤ l.quantity) :
    0 ≤ depthTo levels level := by
  apply List.sum_nonneg
  intro x hx
  obtain ⟨l,hl,rfl⟩ := List.mem_map.mp hx
  obtain ⟨hp,hq⟩ := h l (List.mem_of_mem_take hl)
  exact mul_nonneg hq hp

theorem depthTo_mono (hn : ∀ l ∈ levels, 0 ≤ l.price ∧ 0 ≤ l.quantity)
    (h : List.Forall₂ (fun l l' => l'.price = l.price ∧ l.quantity ≤ l'.quantity) levels levels') :
    depthTo levels level ≤ depthTo levels' level := by
  have hdollars : List.Forall₂ (fun l l' => l.quantity * l.price ≤ l'.quantity * l'.price) levels
      levels' := by
    induction h with
    | nil => exact .nil
    | cons hl _ ih =>
      apply List.Forall₂.cons
      · rw [hl.1]
        exact mul_le_mul_of_nonneg_right hl.2 (hn _ List.mem_cons_self).1
      · apply ih
        intro l hm
        exact hn l (List.mem_cons_of_mem _ hm)
  apply List.Forall₂.sum_le_sum
  rw [List.forall₂_map_left_iff,List.forall₂_map_right_iff]
  exact List.forall₂_take (level+1) hdollars

end Depths

section Monotone

variable {book deeper : OrderBookDepth} {side : OrderSide} {size size' : ℚ} {level : Nat}

/-- A larger order is no likelier to fill. -/
theorem fillAt_antitone (hbook : NonNegative book) (hsize : 0 < size) (hle : size ≤ size') :
    fillAt book side size' level ≤ fillAt book side size level := by
  by_cases h : level < (book.against side).length
  · rw [fillAt_inside h,fillAt_inside h]
    have hratio : depthTo (book.against side) level / size' ≤
        depthTo (book.against side) level / size :=
      div_le_div_of_nonneg_left (depthTo_nonneg (against_nonNegative hbook)) hsize hle
    have hpenalty := (levelPenalty_range level).1
    exact mul_le_mul_of_nonneg_right (baseProbability_mono hratio) (by linarith)
  · rw [fillAt_outside (by omega),fillAt_outside (by omega)]

/-- An order is no less likely to fill in a deeper book. -/
theorem fillAt_mono (hbook : NonNegative book) (hsize : 0 < size) (hd : Deeper book deeper) :
    fillAt book side size level ≤ fillAt deeper side size level := by
  have hlength : (book.against side).length = (deeper.against side).length :=
    (against_deeper hd).length_eq
  by_cases h : level < (book.against side).length
  · rw [fillAt_inside h,fillAt_inside (by omega)]
    have hratio : depthTo (book.against side) level / size ≤
        depthTo (deeper.against side) level / size :=
      div_le_div_of_nonneg_right (depthTo_mono (against_nonNegative hbook) (against_deeper hd))
        hsize.le
    have hpenalty := (levelPenalty_range level).1
    exact mul_le_mul_of_nonneg_right (baseProbability_mono hratio) (by linarith)
  · rw [fillAt_outside (by omega),fillAt_outside (by omega)]

end Monotone

section Search

variable {book : OrderBookDepth} {side : OrderSide} {size : ℚ}

/-- The decision after the first levels have been looked at. -/
def searched (book : OrderBookDepth) (side : OrderSide) (size : ℚ) (n : Nat) : LimitOrderDecision :=
  (List.range n).foldl (betterLevel book side size) ⟨false,0,0,0⟩

theorem searched_succ (n : Nat) :
    searched book side size (n+1) = betterLevel book side size (searched book side size n) n := by
  simp [searched,List.range_succ]

/-- The decision is about the best of the first levels, if one of them reaches the threshold. -/
inductive Leads (book : OrderBookDepth) (side : OrderSide) (size : ℚ) (n : Nat) :
  LimitOrderDecision → Prop
  | none (h : ∀ level < n, fillAt book side size level < minProbabilityThreshold) :
      Leads book side size n ⟨false,0,0,0⟩
  | some (level : Nat) (inside : level < n)
      (likely : minProbabilityThreshold ≤ fillAt book side size level)
      (best : ∀ other < n, fillAt book side size other ≤ fillAt book side size level)
      (lowest : ∀ other < level, fillAt book side size other < fillAt book side size level) :
      Leads book side size n ⟨true,level,fillAt book side size level,
        (calculateFillProbability book side level size).estimatedWaitMs⟩

theorem Leads.step {n : Nat} {d : LimitOrderDecision} (h : Leads book side size n d) :
    Leads book side size (n+1) (betterLevel book side size d n) := by
  have hpositive : (0 : ℚ) < minProbabilityThreshold := by norm_num [minProbabilityThreshold]
  cases h with
  | none hlow =>
    by_cases hn : minProbabilityThreshold ≤ fillAt book side size n
    · have hbetter : betterLevel book side size ⟨false,0,0,0⟩ n = ⟨true,n,fillAt book side size n,
          (calculateFillProbability book side n size).estimatedWaitMs⟩ := by
        have hgt : 0 < fillAt book side size n := by linarith
        simp only [fillAt] at hn hgt
        simp [betterLevel,fillAt,hn,hgt]
      rw [hbetter]
      apply Leads.some n (by omega) hn
      · intro other hother
        by_cases he : other = n
        · rw [he]
        · have := hlow other (by omega)
          linarith
      · intro other hother
        have := hlow other hother
        linarith
    · have hsame : betterLevel book side size ⟨false,0,0,0⟩ n = ⟨false,0,0,0⟩ := by
        simp only [fillAt] at hn
        simp [betterLevel,hn]
      rw [hsame]
      apply Leads.none
      intro level hlevel
      by_cases he : level = n
      · rw [he]
        exact not_le.mp hn
      · exact hlow level (by omega)
  | some level inside likely best lowest =>
    by_cases hn : fillAt book side size level < fillAt book side size n
    · have hbetter : betterLevel book side size ⟨true,level,fillAt book side size level,
          (calculateFillProbability book side level size).estimatedWaitMs⟩ n =
          ⟨true,n,fillAt book side size n,
            (calculateFillProbability book side n size).estimatedWaitMs⟩ := by
        have hle : minProbabilityThreshold ≤ fillAt book side size n := by linarith
        simp only [fillAt] at hn hle
        simp [betterLevel,fillAt,hn,hle]
      rw [hbetter]
      apply Leads.some n (by omega) (by linarith)
      · intro other hother
        by_cases he : other = n
        · rw [he]
        · have := best other (by omega)
          linarith
      · intro other hother
        have := best other hother
        linarith
    · have hsame : betterLevel book side size ⟨true,level,fillAt book side size level,
          (calculateFillProbability book side level size).estimatedWaitMs⟩ n =
          ⟨true,level,fillAt book side size level,
            (calculateFillProbability book side level size).estimatedWaitMs⟩ := by
        simp only [fillAt] at hn
        simp [betterLevel,fillAt,hn]
      rw [hsame]
      apply Leads.some level (by omega) likely
      · intro other hother
        by_cases he : other = n
        · rw [he]
          exact not_lt.mp hn
        · exact best other (by omega)
      · exact lowest

theorem searched_leads (n : Nat) : Leads book side size n (searched book side size n) := by
  induction n with
  | zero => exact Leads.none (by simp)
  | succ n ih =>
    rw [searched_succ]
    exact ih.step

theorem shouldTryLimit_wellChosen : WellChosen book side size (shouldTryLimit book side size) := by
  have hsearched : shouldTryLimit book side size = searched book side size 3 := rfl
  have hleads : Leads book side size 3 (shouldTryLimit book side size) := by
    rw [hsearched]
    exact searched_leads 3
  generalize shouldTryLimit book side size = decision at hleads
  cases hleads with
  | none hlow =>
    constructor <;> intro hlimit <;> try simp at hlimit
    intro level
    by_cases hlevel : level < 3
    · exact hlow level hlevel
    · exact fillAt_deep (by omega)
  | some level inside likely best lowest =>
    constructor <;> intro hlimit
    · exact ⟨inside,inside_of_likely likely⟩
    · exact ⟨rfl,likely⟩
    · exact best
    · exact lowest
    · exact waits likely
    · simp at hlimit

end Search

/-- The estimator gives a probability that falls with the size of the order and grows with the
book, and chooses by it; the runner, which sells into the bids, finds the level chosen there. -/
theorem estimator_right {book : OrderBookDepth} {side : OrderSide} {size : ℚ}
    (hbook : NonNegative book) (hsize : 0 < size) :
    (∀ level, 0 ≤ fillAt book side size level ∧ fillAt book side size level ≤ 1) ∧
    (∀ level size', size ≤ size' → fillAt book side size' level ≤ fillAt book side size level) ∧
    (∀ level deeper, Deeper book deeper →
      fillAt book side size level ≤ fillAt deeper side size level) ∧
    WellChosen book side size (shouldTryLimit book side size) ∧
    ∀ usd, (shouldTryLimit book .short usd).useLimit = true →
      ∃ l, book.bids[(shouldTryLimit book .short usd).priceLevel]? = some l ∧
        levelPrice book.bids (shouldTryLimit book .short usd).priceLevel = l.price := by
  refine ⟨fun _ => fillAt_range,fun _ _ hle => fillAt_antitone hbook hsize hle,
    fun _ _ hd => fillAt_mono hbook hsize hd,shouldTryLimit_wellChosen,?_⟩
  intro usd hlimit
  have hinside : (shouldTryLimit book .short usd).priceLevel < book.bids.length :=
    (shouldTryLimit_wellChosen.indexed hlimit).2
  refine ⟨book.bids[(shouldTryLimit book .short usd).priceLevel],
    List.getElem?_eq_getElem hinside,?_⟩
  simp [levelPrice,hinside]

/-- Five times the order at the best bid: the best bid it is. -/
theorem deep_bid_tried : (shouldTryLimit ⟨[⟨100,5⟩],[],0⟩ .short 100).useLimit = true ∧
    WellChosen ⟨[⟨100,5⟩],[],0⟩ .short 100 (shouldTryLimit ⟨[⟨100,5⟩],[],0⟩ .short 100) := by
  have hbook : NonNegative ⟨[⟨100,5⟩],[],0⟩ := by simp [NonNegative]
  refine ⟨?_,(estimator_right hbook (by norm_num)).2.2.2.1⟩
  decide +kernel

end SpreadArb.Proofs.Probability
