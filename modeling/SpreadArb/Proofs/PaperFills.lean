import SpreadArb.PaperEntry
import SpreadArb.Proofs.Frame

namespace SpreadArb.Proofs.PaperFills
open Interact Machine

/-- The order is filled at its limit price. -/
structure FilledAtLimit (order : SimulatedOrder) : Prop where
  status : order.status = .filled
  price : order.fillPrice = some order.price

/-- Both orders of the trade are filled at the prices of the opportunity, for the same size. -/
structure BothFilled (opportunity : ArbitrageOpportunity) (trade : PaperTrade) : Prop where
  long : FilledAtLimit trade.longOrder
  short : FilledAtLimit trade.shortOrder
  longPrice : trade.longOrder.price = opportunity.longPrice
  shortPrice : trade.shortOrder.price = opportunity.shortPrice
  size : trade.longOrder.size = trade.shortOrder.size

variable {W : Type}

/-- What a paper entry comes to. -/
def entryOn (m : Machine backend W) (w : W) (opportunity : ArbitrageOpportunity)
    (availableCapital positionSize : ℚ) : Except EntryError PaperTrade :=
  (m.run (executeAtomicEntry opportunity availableCapital positionSize) w).1

/-- A position that the capital allows is entered with both legs filled, and no other one. -/
structure Enters (opportunity : ArbitrageOpportunity) (availableCapital positionSize : ℚ)
    (out : Except EntryError PaperTrade) : Prop where
  ok_iff : out.isOk = true ↔ 0 < positionSize ∧ positionSize ≤ availableCapital
  filled : ∀ trade, out = .ok trade → BothFilled opportunity trade

/-- The volume simulated for the harder leg, a share of the long depth, reaches the fill threshold
of that leg. -/
def HarderFills (opportunity : ArbitrageOpportunity) : Prop :=
  identifyHarderLeg opportunity.longExchange opportunity.shortExchange = .long ∨
    opportunity.orderBookDepthShort * 4 ≤ opportunity.orderBookDepthLong * 5

section Legs

variable {m : Machine backend W} {opportunity : ArbitrageOpportunity}

/-- An order as the paper entry creates it. -/
structure Resting (side : OrderSide) (price size depth : ℚ) (order : SimulatedOrder) : Prop where
  side : order.side = side
  price : order.price = price
  size : order.size = size
  queue : order.queuePosition = some ⟨order.price,0,depth,2/10,false⟩

theorem createLimitOrder_resting (exchange symbol : String) (side : OrderSide)
    (price size depth : ℚ) (w : W) :
    m.wp (fun _ _ => True) (createLimitOrder exchange symbol side price size depth)
      (fun order _ => Resting side price size depth order) w :=
  fun _ _ => ⟨rfl,rfl,rfl,rfl⟩

/-- A simulated fill: whether the volume reaches a fifth of the depth, and the order it leaves. -/
structure Simulated (order : SimulatedOrder) (depth volume : ℚ)
    (out : Bool × SimulatedOrder) : Prop where
  filled_iff : out.1 = true ↔ depth * (2/10) ≤ volume
  filled : out.1 = true → FilledAtLimit out.2
  side : out.2.side = order.side
  price : out.2.price = order.price
  size : out.2.size = order.size

theorem simulateOrderFill_simulated {side : OrderSide} {price size depth : ℚ}
    {order : SimulatedOrder} (h : Resting side price size depth order) (volume : ℚ) (w : W) :
    m.wp (fun _ _ => True) (simulateOrderFill order volume) (fun out _ =>
      Simulated order depth volume out) w := by
  unfold simulateOrderFill
  rw [h.queue]
  dsimp only
  split
  case isTrue hvolume =>
    intro _
    exact ⟨by simpa using hvolume,fun _ => ⟨rfl,rfl⟩,rfl,rfl,rfl⟩
  case isFalse hvolume =>
    refine ⟨?_,?_,rfl,rfl,rfl⟩
    · simpa using hvolume
    · simp

/-- Two legs in turn, the first one with some volume and the second one with a share of its own
depth. -/
theorem fillInTurn {first second : OrderSide} {firstPrice secondPrice size firstDepth volume : ℚ}
    {harder easier : SimulatedOrder} (hharder : Resting first firstPrice size firstDepth harder)
    (heasier : Resting second secondPrice size (opportunity.depth second) easier)
    (hdepth : 0 ≤ opportunity.depth second) {β : Type}
    {f : SimulatedOrder → SimulatedOrder → Entry β} {E : W → Prop} {Q : β → W → Prop}
    (hunfilled : ¬firstDepth * (2/10) ≤ volume → ∀ w, E w)
    (hfilled : firstDepth * (2/10) ≤ volume → ∀ h e w, FilledAtLimit h → FilledAtLimit e →
    h.price = firstPrice → e.price = secondPrice → h.size = size → e.size = size →
    m.wp (fun _ _ => True) (f h e) (Ends E Q) w) (w : W) :
    m.wp (fun _ _ => True) (do
      let h ← simulateOrderFill harder volume
      failWhen (!h.1) (.harderLegUnfilled h.2.side h.2.exchange)
      let e ← simulateOrderFill easier (opportunity.depth easier.side * (30/100))
      failWhen (!e.1) (.easierLegUnfilled e.2.side e.2.exchange)
      f h.2 e.2 : Entry β) (Ends E Q) w := by
  refine ends_lift (wp_mono (simulateOrderFill_simulated hharder volume w) ?_)
  rintro ⟨harderFilled,harder'⟩ v hout
  cases harderFilled with
  | false => exact hunfilled (fun h => by simpa using hout.filled_iff.mpr h) v
  | true =>
    refine ends_lift (wp_mono (simulateOrderFill_simulated heasier _ v) ?_)
    rintro ⟨easierFilled,easier'⟩ u hout'
    have hshare : (opportunity.depth second) * (2/10) ≤
        opportunity.depth easier.side * (30/100) := by
      rw [heasier.side]
      linarith
    obtain rfl : easierFilled = true := hout'.filled_iff.mpr hshare
    exact hfilled (hout.filled_iff.mp rfl) harder' easier' u (hout.filled rfl) (hout'.filled rfl)
      (hout.price.trans hharder.price) (hout'.price.trans heasier.price)
        (hout.size.trans hharder.size)
      (hout'.size.trans heasier.size)

/-- The two legs fill if the harder one does. -/
theorem simulateLegs_filled (hlong : 0 ≤ opportunity.orderBookDepthLong)
    (hshort : 0 ≤ opportunity.orderBookDepthShort) {size : ℚ}
    {longOrder shortOrder : SimulatedOrder}
    (hl : Resting .long opportunity.longPrice size opportunity.orderBookDepthLong longOrder)
    (hs : Resting .short opportunity.shortPrice size opportunity.orderBookDepthShort shortOrder)
    (w : W) :
    m.wp (fun _ _ => True) (simulateLegs opportunity longOrder shortOrder)
      (Ends (fun _ => ¬HarderFills opportunity) (fun out _ => HarderFills opportunity ∧
        FilledAtLimit out.1 ∧ FilledAtLimit out.2 ∧ out.1.price = opportunity.longPrice ∧
        out.2.price = opportunity.shortPrice ∧ out.1.size = out.2.size)) w := by
  unfold simulateLegs
  dsimp only
  cases hside : identifyHarderLeg opportunity.longExchange opportunity.shortExchange with
  | long =>
    dsimp only
    refine fillInTurn (f := fun h e => pure (h,e)) hl hs hshort (fun hnot => ?_)
      (fun _ h e v hh he hhp hep hhs hes => ?_) w
    · exact absurd (by linarith) hnot
    · exact ⟨.inl hside,hh,he,hhp,hep,hhs.trans hes.symm⟩
  | short =>
    dsimp only
    refine fillInTurn (f := fun h e => pure (e,h)) hs hl hlong (fun hnot v => ?_)
      (fun hvolume h e v hh he hhp hep hhs hes => ?_) w
    · rintro (hharder | hdepth)
      · rw [hside] at hharder
        cases hharder
      · exact hnot (by linarith)
    · exact ⟨.inr (by linarith),he,hh,hep,hhp,hes.trans hhs.symm⟩

end Legs

/-- A trade comes of a position that the capital allows exactly if the harder leg fills. -/
theorem executeAtomicEntry_spec (m : Machine backend W) (w : W) {opportunity : ArbitrageOpportunity}
    (availableCapital positionSize : ℚ) (hlong : 0 ≤ opportunity.orderBookDepthLong)
    (hshort : 0 ≤ opportunity.orderBookDepthShort) :
    m.wp (fun _ _ => True) (executeAtomicEntry opportunity availableCapital positionSize)
      (Ends (fun _ => ¬(0 < positionSize ∧ positionSize ≤ availableCapital ∧
        HarderFills opportunity)) (fun trade _ =>
        (0 < positionSize ∧ positionSize ≤ availableCapital ∧ HarderFills opportunity) ∧
          BothFilled opportunity trade)) w := by
  unfold executeAtomicEntry
  refine ends_bind (R := fun _ _ => 0 < positionSize)
    (wp_failWhen (fun h => ?_) (fun h => by simpa using h)) ?_
  · rintro ⟨hpos,-⟩
    exact absurd hpos (by simpa using h)
  intro _ v hpos
  refine ends_bind (R := fun _ _ => positionSize ≤ availableCapital)
    (wp_failWhen (fun h => ?_) (fun h => by simpa using h)) ?_
  · rintro ⟨-,hle,-⟩
    exact absurd hle (by simpa using h)
  intro _ v hle
  refine ends_lift (fun _ => ?_)
  refine ends_lift (wp_mono (createLimitOrder_resting _ _ _ _ _ _ _) (fun longOrder v hl => ?_))
  refine ends_lift (wp_mono (createLimitOrder_resting _ _ _ _ _ _ _) (fun shortOrder v hs => ?_))
  refine wp_except_bind.mpr (wp_mono (simulateLegs_filled hlong hshort hl hs v) (fun r v hr => ?_))
  cases r with
  | error e => exact fun h => hr h.2.2
  | ok out =>
    obtain ⟨hharder,hl,hs,hlp,hsp,hsize⟩ := hr
    exact ends_lift (fun _ => ⟨⟨hpos,hle,hharder⟩,hl,hs,hlp,hsp,hsize⟩)

/-- Whatever the clock and the ids are: a paper entry is as it should be exactly if the harder leg
fills or the position is not allowed anyway. -/
theorem enters_iff (m : Machine backend W) (w : W) (opportunity : ArbitrageOpportunity)
    (availableCapital positionSize : ℚ) (hlong : 0 ≤ opportunity.orderBookDepthLong)
    (hshort : 0 ≤ opportunity.orderBookDepthShort) :
    Enters opportunity availableCapital positionSize
      (entryOn m w opportunity availableCapital positionSize) ↔
      (0 < positionSize ∧ positionSize ≤ availableCapital → HarderFills opportunity) := by
  have hspec := (wp_iff m _ _ _ w).mp
      (executeAtomicEntry_spec m w availableCapital positionSize hlong hshort)
    (along_true _ _)
  change Ends _ _ (entryOn m w opportunity availableCapital positionSize) _ at hspec
  cases hout : entryOn m w opportunity availableCapital positionSize with
  | error e =>
    rw [hout] at hspec
    constructor
    · intro henters hallowed
      exact absurd (henters.ok_iff.mpr hallowed) (by simp [Except.isOk,Except.toBool])
    · intro hfills
      refine ⟨⟨fun hok => (by cases hok),fun hallowed => ?_⟩,fun trade h => by cases h⟩
      exact absurd ⟨hallowed.1,hallowed.2,hfills hallowed⟩ hspec
  | ok trade =>
    rw [hout] at hspec
    obtain ⟨⟨hpos,hle,hharder⟩,hfilled⟩ := hspec
    constructor
    · exact fun _ _ => hharder
    · intro _
      refine ⟨⟨fun _ => ⟨hpos,hle⟩,fun _ => rfl⟩,fun trade' h => ?_⟩
      obtain rfl := Except.ok.inj h
      exact hfilled

/-- Buy on one exchange of the first tier, sell on one of the third, whose book has this depth. -/
def deepShort (depth : ℚ) : ArbitrageOpportunity :=
  ⟨"BTCUSDT","binance","paradex",100,101,0,95,0,1000,depth⟩

theorem enters_at_depth :
    (0 ≤ (deepShort 1250).orderBookDepthLong ∧ 0 ≤ (deepShort 1250).orderBookDepthShort) ∧
    (Enters (deepShort 1250) 1000 100
      (entryOn (exchanges (fun _ => {})) .empty (deepShort 1250) 1000 100) ↔
      (0 < (100 : ℚ) ∧ (100 : ℚ) ≤ 1000 → HarderFills (deepShort 1250))) :=
  have hdepth : 0 ≤ (deepShort 1250).orderBookDepthLong ∧
      0 ≤ (deepShort 1250).orderBookDepthShort := by
    decide +kernel
  ⟨hdepth,enters_iff (exchanges (fun _ => {})) .empty (deepShort 1250) 1000 100 hdepth.1 hdepth.2⟩

/-- A short leg on the less liquid exchange with a deeper book does not fill. -/
theorem deep_short_leg_unfilled :
    ¬Enters (deepShort 2000) 1000 100
      (entryOn (exchanges (fun _ => {})) .empty (deepShort 2000) 1000 100) := by
  intro h
  have hok := h.ok_iff.mpr (by norm_num)
  revert hok
  decide +kernel

section Order

variable {lower : String → String}

/-- The first exchange is the harder leg, whichever side it is on. -/
def HarderThan (lower : String → String) (a b : String) : Prop :=
  harderLegBy lower a b = .long ∧ harderLegBy lower b a = .short

/-- The order on lower-cased names: by tier, then by name. -/
def HarderName (x y : String) : Prop := tierOf y < tierOf x ∨ tierOf x = tierOf y ∧ x < y

theorem harderName_irrefl (x : String) : ¬HarderName x x := by
  rintro (h | ⟨_,h⟩)
  · exact lt_irrefl _ h
  · exact lt_irrefl _ h

theorem harderName_trans {x y z : String} (h : HarderName x y) (k : HarderName y z) :
    HarderName x z := by
  rcases h with h | ⟨he,h⟩
  · rcases k with k | ⟨ke,_⟩
    · exact .inl (k.trans h)
    · exact .inl (ke ▸ h)
  · rcases k with k | ⟨ke,k⟩
    · exact .inl (he ▸ k)
    · exact .inr ⟨he.trans ke,h.trans k⟩

theorem harderName_total {x y : String} (h : x ≠ y) : HarderName x y ∨ HarderName y x := by
  rcases lt_trichotomy (tierOf x) (tierOf y) with ht | ht | ht
  · exact .inr (.inl ht)
  · rcases lt_or_gt_of_ne h with hn | hn
    · exact .inl (.inr ⟨ht,hn⟩)
    · exact .inr (.inr ⟨ht.symm,hn⟩)
  · exact .inl (.inl ht)

theorem harderLegBy_long {a b : String} (h : HarderName (lower a) (lower b)) :
    harderLegBy lower a b = .long := by
  unfold harderLegBy
  rcases h with h | ⟨he,h⟩
  · simp [h]
  · simp [he,h]

theorem harderLegBy_short {a b : String} (h : HarderName (lower b) (lower a)) :
    harderLegBy lower a b = .short := by
  unfold harderLegBy
  rcases h with h | ⟨he,h⟩
  · simp [h,h.le]
  · simp [he,h,h.not_gt]

theorem harderThan_iff {a b : String} : HarderThan lower a b ↔ HarderName (lower a) (lower b) := by
  constructor
  · rintro ⟨hab,hba⟩
    by_cases he : lower a = lower b
    · have hlong : harderLegBy lower b a = .long := by simp [harderLegBy,he]
      rw [hlong] at hba
      cases hba
    · rcases harderName_total he with h | h
      · exact h
      · rw [harderLegBy_short h] at hab
        cases hab
  · intro h
    exact ⟨harderLegBy_long h,harderLegBy_short h⟩

/-- Swapping the exchanges swaps the answer, and which exchange is harder is a strict total order on
the lower-cased names that goes by the tier first, whatever lower-casing does. -/
theorem harder_leg_is_order (lower : String → String) :
    (∀ a b, lower a ≠ lower b → harderLegBy lower b a = (harderLegBy lower a b).opposite) ∧
    (∀ a b c, HarderThan lower a b → HarderThan lower b c → HarderThan lower a c) ∧
    (∀ a b, lower a = lower b → ¬HarderThan lower a b) ∧
    (∀ a b, lower a ≠ lower b → Xor (HarderThan lower a b) (HarderThan lower b a)) ∧
    (∀ a b a' b', lower a = lower a' → lower b = lower b' →
      (HarderThan lower a b ↔ HarderThan lower a' b')) ∧
    ∀ a b, tierOf (lower b) < tierOf (lower a) → HarderThan lower a b := by
  simp only [harderThan_iff]
  refine ⟨?_,?_,?_,?_,?_,?_⟩
  · intro a b hne
    rcases harderName_total hne with h | h
    · rw [harderLegBy_long h,harderLegBy_short h]
      rfl
    · rw [harderLegBy_long h,harderLegBy_short h]
      rfl
  · intro a b c hab hbc
    exact harderName_trans hab hbc
  · intro a b he
    rw [he]
    exact harderName_irrefl _
  · intro a b hne
    rcases harderName_total hne with h | h
    · exact .inl ⟨h,fun k => harderName_irrefl _ (harderName_trans h k)⟩
    · exact .inr ⟨h,fun k => harderName_irrefl _ (harderName_trans h k)⟩
  · intro a b a' b' ha hb
    rw [ha,hb]
  · intro a b ht
    exact .inl ht

end Order

end SpreadArb.Proofs.PaperFills
