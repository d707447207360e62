import SpreadArb.Proofs.Halt
import SpreadArb.Proofs.SoldPasses
import SpreadArb.Proofs.Tally

namespace SpreadArb.Proofs.Sold
open Interact Machine Exposure

section Exits

variable {env : Env} {w w' : World} {opportunity : ArbitrageOpportunity} {leg : OrderSide}

/-- An exit order of the leg that was placed since `w`, for no more than `size`. -/
structure ExitOrder (leg : OrderSide) (size : ℚ) (w w' : World) (e : SimulatedOrder) : Prop where
  from_le : w.count ≤ e.id
  lt_count : e.id < w'.count
  side : (w'.book e.id).side = leg.opposite
  size_le : (w'.book e.id).size ≤ max 0 size

theorem ExitOrder.grows {size : ℚ} {e : SimulatedOrder} {v : World} (h : ExitOrder leg size w w' e)
    (hg : Grows w' v) : ExitOrder leg size w v e where
  from_le := h.from_le
  lt_count := h.lt_count.trans_le hg.count_le
  side := (hg.order _ h.lt_count).side.trans h.side
  size_le := (hg.order _ h.lt_count).size.trans_le h.size_le

theorem wp_exit {w₀ : World} (hw : Grows w₀ w) (price size : ℚ) (secs : Nat) :
    (exchanges env).wp (fun _ _ => True)
      (Backend.placeOrder (exitTemplate opportunity leg price size secs))
      (fun r w' => Grows w w' ∧ ∀ e, r.toOption = some e → ExitOrder leg size w₀ w' e) w := by
  apply wp_placeOrder
  · exact fun e w' hq => ⟨hq.toGrows,fun e he => by cases he⟩
  · intro _ placed w' hp
    refine ⟨hp.toGrows,fun e he => ?_⟩
    obtain rfl : placed = e := Option.some.inj he
    rw [exitTemplate] at hp
    refine ⟨hp.id_eq ▸ hw.count_le,?_,?_,?_⟩
    · rw [hp.id_eq,hp.count_eq]
      exact Nat.lt_succ_self _
    · rw [hp.id_eq,hp.booked]
      rfl
    · rw [hp.id_eq,hp.booked]
      exact min_le_left _ _

/-- The exit orders of the trade were placed since `w`, for its sizes. -/
def Exits (w w' : World) (t : PaperTrade) : Prop :=
  ∀ leg e, exitOf t leg = some e → ExitOrder leg (entryOf t leg).size w w' e

theorem createTrade_exits {w₀ : World} (hw : Grows w₀ w) (positionSize : ℚ) (secs : Nat)
    (legs : Legs) :
    (exchanges env).wp (fun _ _ => True) (createTrade opportunity positionSize secs legs)
      (fun t w' => Exits w₀ w' t) w := by
  refine wp_bind.mpr (wp_grows (fun id w₁ h₁ => ?_))
  refine wp_bind.mpr (wp_grows (fun longSecs w₂ h₂ => ?_))
  refine wp_bind.mpr (wp_grows (fun shortSecs w₃ h₃ => ?_))
  have hg : Grows w₀ w₃ := hw.trans (h₁.trans (h₂.trans h₃))
  refine wp_bind.mpr (wp_mono (wp_exit hg _ _ _) ?_)
  rintro longExit w₄ ⟨h₄,hlong⟩
  refine wp_bind.mpr (wp_mono (wp_exit (hg.trans h₄) _ _ _) ?_)
  rintro shortExit w₅ ⟨h₅,hshort⟩
  intro leg e he
  cases leg with
  | long => exact (hlong e he).grows h₅
  | short => exact hshort e he

theorem entryReal_exits (availableCapital positionSize : ℚ) (w : World) :
    (exchanges env).wp (fun _ _ => True)
      (executeAtomicEntryReal opportunity availableCapital positionSize)
      (fun r w' => ∀ t, r = .ok t → Exits w w' t) w := by
  have herr : ∀ (e : EntryError) (w' : World) (t : PaperTrade),
      (Except.error e : Except EntryError PaperTrade) =
      .ok t → Exits w w' t := fun _ _ _ h => by cases h
  refine Tally.entry_step env _ _ w (.refl w) herr (fun a w1 h1 => ?_)
  refine Tally.entry_step env _ _ w1 h1 herr (fun legs w2 h2 => ?_)
  refine Tally.entry_step env _ _ w2 h2 herr (fun legs w3 h3 => ?_)
  refine wp_lift.mpr (wp_mono (createTrade_exits h3.toGrows _ _ _) (fun t w' h u hu => ?_))
  cases hu
  exact h

/-- A paper trade has no exit orders. -/
theorem entryPaper_exits (availableCapital positionSize : ℚ) (w : World) :
    (exchanges env).wp (fun _ _ => True)
      (executeAtomicEntry opportunity availableCapital positionSize)
      (fun r w' => ∀ t, r = .ok t → Exits w w' t) w := by
  have hnone : Prog.Gives (fun t => ∀ leg, exitOf t leg = none)
      (executeAtomicEntry opportunity availableCapital positionSize) := by
    unfold executeAtomicEntry
    refine .bind _ (fun _ =>
      .bind _ (fun _ => .bind _ (fun _ => .bind _ (fun _ => .bind _ (fun _ => ?_)))))
    refine .bind _ (fun legs => ?_)
    refine .bind _ (fun _ => ?_)
    intro t ht leg
    cases ht
    cases leg <;> rfl
  refine wp_mono (Tally.wp_later env hnone w) (fun r w' h t ht leg e he => ?_)
  rw [h.1 t ht leg] at he
  cases he

end Exits

section Entry

variable {env : Surroundings} {s a b : Runner × Notes} {opportunity : ArbitrageOpportunity}
  {placeholder : TradeId}

/-- An entry is under way since `s`: its orders are nobody's. -/
structure Since (s a : Runner × Notes) : Prop where
  covered : Covered a
  notes : a.2 = s.2
  owners : ∀ i < a.1.world.count, ∀ id, a.1.owner i = some id → id < s.1.world.uuids
  issued : ∀ i, s.1.world.count ≤ i → i < a.1.world.count → a.1.owner i = none

theorem Since.refl (h : Covered s) : Since s s :=
  ⟨h,rfl,h.owners,fun _ hl hr => absurd hr (not_lt.mpr hl)⟩

theorem Since.rely (h : Since s a) (k : Rely a b) : Since s b where
  covered := h.covered.rely k
  notes := k.notes.trans h.notes
  owners i hi id ho := by
    rw [k.calm.count_eq] at hi
    rw [k.calm.owner_eq i hi] at ho
    exact h.owners i hi id ho
  issued i hl hr := by
    rw [k.calm.count_eq] at hr
    rw [k.calm.owner_eq i hr]
    exact h.issued i hl hr

theorem Since.accepts {o : SimulatedOrder} (h : Since s a) (k : Accepts env .entry o a.1 b.1)
    (hn : b.2 = a.2) : Since s b where
  covered := by
    apply h.covered.accepts k hn
    · exact fun id hid => by cases hid
    · exact fun t _ leg hid => by cases hid
  notes := hn.trans h.notes
  owners i hi id ho := by
    rw [k.count_eq] at hi
    rcases Nat.lt_succ_iff_lt_or_eq.mp hi with hlt | heq
    · rw [k.owner_old i hlt] at ho
      exact h.owners i hlt id ho
    · rw [heq,k.owner_new] at ho
      cases ho
  issued i hl hr := by
    rw [k.count_eq] at hr
    rcases Nat.lt_succ_iff_lt_or_eq.mp hr with hlt | heq
    · rw [k.owner_old i hlt]
      exact h.issued i hl hlt
    · rw [heq]
      exact k.owner_new

/-- The entry's own requests to the exchanges. -/
theorem since_serve (op : BackendOp) (h : Since s a) :
    Since s ((noted env).serve (.backend .entry op) a).2 := by
  cases op with
  | placeOrder o =>
    rcases placeOrder_cases env .entry o a.1 with ⟨_,_,hcalm⟩ | ⟨_,_,_,haccepts⟩
    · exact h.rely ⟨hcalm,rfl⟩
    · exact h.accepts haccepts rfl
  | placeMarketOrder o =>
    rcases placeMarketOrder_cases env .entry o a.1 with hcalm | haccepts
    · exact h.rely ⟨hcalm,rfl⟩
    · exact h.accepts haccepts rfl
  | _ => exact h.rely ⟨calm_serve env (by exact fun h => h) a.1,rfl⟩

/-- What an exit order of a new trade can close is within the size of the leg. -/
theorem committed_new {s : Runner} {t : PaperTrade} {leg : OrderSide} {size : ℚ}
    (howner : ∀ i < s.world.count, s.owner i ≠ some t.id)
    (hexit : ∀ e, exitOf t leg = some e → (s.world.book e.id).size ≤ max 0 size) :
    committed s t leg ≤ max 0 size := by
  have hof : ∀ i < s.world.count, OfLeg s t leg i → (exitOf t leg).map SimulatedOrder.id = some i :=
    fun i hi h => h.resolve_right (fun h => howner i hi h.1)
  cases hx : exitOf t leg with
  | none =>
    have hzero : committed s t leg = 0 := by
      apply total_zero
      intro i hi h
      have hid := hof i hi h
      rw [hx] at hid
      cases hid
    rw [hzero]
    exact le_max_left 0 size
  | some e =>
    have hle : committed s t leg ≤
        ∑ i ∈ Finset.range s.world.count, if i = e.id then
          (s.world.book i).filled + rest (s.world.book i) else 0 := by
      unfold committed total
      apply Finset.sum_le_sum
      intro i hi
      by_cases h : OfLeg s t leg i
      · have hid := hof i (Finset.mem_range.mp hi) h
        rw [hx] at hid
        rw [if_pos h,if_pos (Option.some.inj hid).symm]
      · rw [if_neg h]
        split
        · exact add_nonneg (s.world.book i).filled_nonneg (rest_nonneg _)
        · exact le_rfl
    rw [Finset.sum_ite_eq'] at hle
    apply hle.trans
    split
    · exact (filled_add_rest_le_size _).trans (hexit e hx)
    · exact le_max_left 0 size

/-- A trade with a new id whose exit orders are nobody's comes into the map. -/
theorem insert_covered {t : PaperTrade} (h : Since s a) (hs : Covered s)
    (hlow : s.1.world.uuids ≤ t.id) (hlt : t.id < a.1.world.uuids)
    (hexits : Exits s.1.world a.1.world t) : Covered ((noted env).serve (.insert t) a).2 := by
  obtain ⟨hworld,howner,-⟩ := put_books a.1 (env.slot a.1.world.tick) t
  have hcovered := h.covered
  have hnew : ∀ u ∈ a.2.entered, u.id < t.id := by
    intro u hu
    rw [h.notes] at hu
    exact (hs.ids_lt u hu).trans_le hlow
  have hnobody : ∀ i < a.1.world.count, a.1.owner i ≠ some t.id := by
    intro i hi ho
    exact absurd (h.owners i hi t.id ho) (not_lt.mpr hlow)
  have hcommitted : ∀ u leg, committed (a.1.put (env.slot a.1.world.tick) t) u leg =
      committed a.1 u leg := by
    intro u leg
    have hof : ∀ i, OfLeg (a.1.put (env.slot a.1.world.tick) t) u leg i ↔ OfLeg a.1 u leg i := by
      intro i
      unfold OfLeg
      rw [hworld,howner]
    unfold committed total
    rw [hworld]
    exact Finset.sum_congr rfl (fun i _ => if_congr (hof i) rfl rfl)
  have hrecords : ∀ id u, (a.1.put (env.slot a.1.world.tick) t).lookup id = some u →
      ∃ v ∈ t :: a.2.entered, v.id = id ∧ SameOrders v u := by
    intro id u hu
    rcases lookup_put_cases hu with rfl | hold
    · exact ⟨u,.head _,lookup_id hu,.refl u⟩
    · obtain ⟨v,hv,hid,ho⟩ := hcovered.records id u hold
      exact ⟨v,.tail _ hv,hid,ho⟩
  change Covered (a.1.put (env.slot a.1.world.tick) t,{ a.2 with entered := t :: a.2.entered })
  refine ⟨?_,?_,?_,?_,?_,?_,?_,hrecords,?_⟩
  · intro u hu
    rw [hworld]
    rcases List.mem_cons.mp hu with rfl | hu
    · exact hlt
    · exact hcovered.ids_lt u hu
  · intro u hu v hv he
    rcases List.mem_cons.mp hu with hut | hold <;> rcases List.mem_cons.mp hv with hvt | hold'
    · exact hut.trans hvt.symm
    · exact absurd (hut ▸ he) (hnew v hold').ne'
    · exact absurd (hvt ▸ he) (hnew u hold).ne
    · exact hcovered.distinct u hold v hold' he
  · rw [hworld,howner]
    exact hcovered.owners
  · intro u hu leg e he
    rw [hworld]
    rcases List.mem_cons.mp hu with rfl | hu
    · exact (hexits leg e he).lt_count
    · exact hcovered.exit_lt u hu leg e he
  · intro u hu leg e he
    rw [howner]
    rcases List.mem_cons.mp hu with rfl | hu
    · exact h.issued e.id (hexits leg e he).from_le (hexits leg e he).lt_count
    · exact hcovered.exit_owner u hu leg e he
  · intro u hu leg e he
    rw [hworld]
    rcases List.mem_cons.mp hu with rfl | hu
    · exact (hexits leg e he).side
    · exact hcovered.exit_side u hu leg e he
  · rw [hworld]
    exact hcovered.unread
  · intro u hu leg
    rw [hcommitted]
    rcases List.mem_cons.mp hu with rfl | hu
    · exact committed_new hnobody (fun e he => (hexits leg e he).size_le)
    · exact hcovered.within u hu leg

/-- The entry, which runs alone. -/
abbrev alone (env : Surroundings) (x : Run α) (Q : α → Runner × Notes → Prop)
    (a : Runner × Notes) : Prop :=
  (noted env).wpr (· = ·) (Careful env) Keeps x Q a

theorem quiet_alone {x : Run α} (hx : x.Only Quiet) (h : Covered a) :
    alone env x (fun _ b => Covered b) a :=
  wpr_weaken (fun a _ hab => hab ▸ Rely.refl a) (fun _ _ _ h => h) (quiet_covered hx h)

theorem removeTrade_alone (id : TradeId) (h : Covered a) :
    alone env (removeTrade id) (fun _ b => Covered b) a :=
  quiet_alone ⟨trivial,fun _ => trivial⟩ h

/-- A program of the execution backend runs in the entry as it runs alone. -/
theorem onBackend_since (h : Since s a) {p : Prog backend α} {Q : α → World → Prop}
    (hp : (exchanges env.exchanges).wp (fun _ _ => True) p Q a.1.world) :
    alone env (onBackend .entry p) (fun r b => Since s b ∧ Q r b.1.world) a := by
  refine wpr_embed (I := Since s) (fun _ _ => rfl) (fun _ _ => rfl) (fun op v hv => ?_) hp h
  have hstep : Since s ((noted env).serve (.backend .entry op) v).2 := since_serve op hv
  exact ⟨fun _ => hstep.covered,hstep⟩

/-- A returned trade takes the place of the placeholder. -/
theorem settle_covered {trade : PaperTrade} (h : Since s a) (hs : Covered s)
    (hlow : s.1.world.uuids ≤ trade.id) (hlt : trade.id < a.1.world.uuids)
    (hexits : Exits s.1.world a.1.world trade) :
    alone env (do
      let _ ← removeTrade placeholder
      let _ ← insertTrade trade
      let _ ← Prog.call (σ := runnerSig) (.openTrade trade) .ret
      pure ()) (fun _ b => Covered b) a := by
  intro v hv _
  subst hv
  have hremove := quiet_rely env (show Quiet (.remove placeholder) from trivial) a
  have hinsert : Covered ((noted env).serve (.insert trade)
      ((noted env).serve (.remove placeholder) a).2).2 :=
    insert_covered (h.rely hremove) hs hlow hlt hexits
  refine ⟨fun hcovered => hcovered.rely hremove,fun v hv _ => ?_⟩
  subst hv
  refine ⟨fun _ => hinsert,?_⟩
  exact quiet_alone (x := Prog.call (σ := runnerSig) (.openTrade trade) (fun _ => .ret ()))
    ⟨trivial,fun _ => trivial⟩ hinsert

theorem enterTrade_covered {availableCapital positionSize spread totalFee : ℚ} (h : Covered a) :
    alone env (enterTrade opportunity placeholder availableCapital positionSize spread totalFee)
      (fun _ b => Covered b) a := by
  refine wpr_bind.mpr (wpr_mono (quiet_alone (x := isRealTrading) ⟨trivial,fun _ => trivial⟩ h)
    (fun real s hs => ?_))
  have hentry : (exchanges env.exchanges).wp (fun _ _ => True)
      (if real then executeAtomicEntryReal opportunity availableCapital positionSize
        else executeAtomicEntry opportunity availableCapital positionSize)
      (fun r w' => (∀ t, r = .ok t → Tally.Recorded opportunity positionSize s.1.world w' t) ∧
        ∀ t, r = .ok t → Exits s.1.world w' t) s.1.world := by
    cases real with
    | true => exact wp_and (Tally.entryReal_recorded _ _ _ _ _) (entryReal_exits _ _ _)
    | false => exact wp_and (Tally.entryPaper_recorded _ _ _ _ _) (entryPaper_exits _ _ _)
  refine wpr_bind.mpr (wpr_mono (onBackend_since (Since.refl hs) hentry) ?_)
  rintro r b ⟨hsince,hrecorded,hexits⟩
  cases r with
  | error e => exact removeTrade_alone _ hsince.covered
  | ok trade =>
    have hids := hrecorded trade rfl
    exact settle_covered hsince hs hids.uuids_le hids.id_lt (hexits trade rfl)

theorem enterIfSound_covered (h : Covered a) :
    alone env (enterIfSound opportunity placeholder) (fun _ b => Covered b) a := by
  have hprices : (getPricesFromStore opportunity.symbol opportunity.longExchange
      opportunity.shortExchange).Only Quiet := by
    refine .bind ⟨trivial,fun _ => trivial⟩ (fun r => ?_)
    split
    · trivial
    · trivial
    · split <;> trivial
  refine wpr_bind.mpr (wpr_mono (quiet_alone hprices h) (fun prices b hb => ?_))
  cases prices with
  | error e => exact removeTrade_alone _ hb
  | ok prices =>
    dsimp only
    split
    · exact removeTrade_alone _ hb
    · refine wpr_bind.mpr (wpr_mono
        (quiet_alone (x := Prog.call (σ := runnerSig) .getAvailableCapital .ret) ⟨trivial,
        fun _ => trivial⟩ hb) (fun available b hb => ?_))
      split
      · exact removeTrade_alone _ hb
      · refine wpr_bind.mpr (wpr_mono
          (quiet_alone (x := Prog.call (σ := runnerSig) .getStartingCapital .ret) ⟨trivial,
          fun _ => trivial⟩ hb) (fun starting b hb => ?_))
        split
        · exact removeTrade_alone _ hb
        · exact enterTrade_covered hb

theorem executeOpportunity_covered (opportunity : ArbitrageOpportunity) (h : Covered a) :
    alone env (executeOpportunity opportunity) (fun _ b => Covered b) a := by
  refine wpr_bind.mpr (wpr_mono (quiet_alone (x := findTrade _) ⟨trivial,fun _ => trivial⟩ h)
    (fun found s hs => ?_))
  cases found with
  | some t => exact hs
  | none =>
    apply wpr_bind.mpr
    intro v hv _
    subst hv
    have hsince : Since s ((noted env).serve (.backend .entry .newUuid) s).2 :=
      since_serve .newUuid (Since.refl hs)
    refine ⟨fun _ => hsince.covered,wpr_ret.mpr (wpr_bind.mpr ?_)⟩
    intro v hv _
    subst hv
    have hinsert : Covered ((noted env).serve
        (.insert (placeholderTrade s.1.world.uuids opportunity))
        ((noted env).serve (.backend .entry .newUuid) s).2).2 := by
      apply insert_covered hsince hs
      · exact le_rfl
      · exact Nat.lt_succ_self _
      · intro leg e he
        cases leg <;> cases he
    exact ⟨fun _ => hinsert,enterIfSound_covered hinsert⟩

end Entry

section Loop

/-- In every run whose steps are careful, no leg of a trade is closed for more than its size. -/
theorem never_oversold (env : Surroundings) (world : World) (startingCapital : ℚ)
    (inputs : Nat → Input) (n : Nat) (a : Runner × Notes)
    (h : (noted env).Visits (Careful env) (runScanningLoop inputs n) (.new world startingCapital,
    .start) a) : NeverOver a := by
  have hquiet : ∀ op, Quiet op → ∀ a, Covered a →
      alone env (.call op .ret) (fun _ b => Covered b) a :=
    fun _ hop a ha => quiet_alone ⟨hop,fun _ => trivial⟩ ha
  have hloop : (noted env).wpr (· = ·) (Careful env) Keeps (runScanningLoop inputs n)
      (fun _ b => Covered b)
      (.new world startingCapital,.start) := by
    refine wpr_loop inputs (fun input a ha => ?_) n (covered_new world startingCapital)
    refine wpr_scanOnce input ?_ (fun opportunity a ha =>
      executeOpportunity_covered opportunity ha) ?_
      (fun schedule a ha => joinMonitors_covered schedule ha) ha
    · exact hquiet .resumeTrading trivial
    · exact hquiet (.backend .entry (.sleep 0)) ⟨fun h => h,fun h => h⟩
  exact (visits_of_wpr (fun _ _ _ _ hk ha => hk ha) hloop
    (covered_new world startingCapital) h).neverOver

/-- Both entry orders fill, then the long exit order, and the short one in part while its status is
asked for. -/
def partlyBought : Surroundings where
  exchanges t :=
    { value := 150
      depth := ⟨[⟨1/2,1000⟩],[],0⟩
      trades := fun i => if i = 3 then if t = 21 then 50 else 0 else 1000 }
  quotes _ _ _ _ := (some (1/2),some (51/100))

/-- The pass asks what the cancelled short exit order has filled, and buys back the rest. -/
theorem partly_bought_not_over :
    NeverOver ((noted partlyBought).run
      (runScanningLoop (fun _ => { opportunity := some (Halt.penny "BTCUSDT") }) 1)
      (.new .empty 1010,.start)).2 :=
  never_oversold partlyBought .empty 1010 _ 1 _ (visits_run (by decide +kernel))

/-- Both entry orders fill, then the short exit order, and the long one in part while its status is
asked for. -/
def partlySold : Surroundings where
  exchanges t :=
    { value := 150
      depth := ⟨[⟨1/2,1000⟩],[],0⟩
      trades := fun i => if i = 2 then if t = 21 then 50 else 0 else 1000 }
  quotes _ _ _ _ := (some (1/2),some (51/100))

/-- The pass sells the whole long position, though the cancelled exit order has sold a third of
it. -/
theorem long_leg_oversold :
    ¬∀ (env : Surroundings) (world : World) (startingCapital : ℚ) (inputs : Nat → Input) (n : Nat)
      (a : Runner × Notes),
      (noted env).Visits (fun _ _ => True) (runScanningLoop inputs n)
        (.new world startingCapital,.start) a →
      NeverOver a := by
  intro h
  have hlast := h partlySold .empty 1010 (fun _ =>
      { opportunity := some (Halt.penny "BTCUSDT") }) 1 _
    (visits_run (along_true _ _))
  have hsold : ∃ t ∈ ((noted partlySold).run
      (runScanningLoop (fun _ => { opportunity := some (Halt.penny "BTCUSDT") }) 1)
      (.new .empty 1010,.start)).2.2.entered,
      max 0 (entryOf t .long).size < closed ((noted partlySold).run
        (runScanningLoop (fun _ => { opportunity := some (Halt.penny "BTCUSDT") }) 1)
          (.new .empty 1010,.start)).2.1 t .long := by
    decide +kernel
  obtain ⟨t,ht,hover⟩ := hsold
  exact absurd (hlast t ht .long) (not_le.mpr hover)

end Loop

end SpreadArb.Proofs.Sold
