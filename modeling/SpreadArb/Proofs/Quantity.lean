import SpreadArb.Interact.Trace
import SpreadArb.OrderBackends
import SpreadArb.Proofs.Frame

namespace SpreadArb.Proofs.Quantity
open Interact Machine Numeric.Grid

variable {W : Type}

/-- The quantity steps that the exchanges reported and the sizes of the limit orders, the first ones
first. -/
structure Seen where
  steps : List (Except String ℚ)
  sizes : List ℚ

def Seen.start : Seen := ⟨[],[]⟩

def see (m : Machine backend W) (g : Seen) (w : W) : BackendOp → Seen
  | .getQuantityStep exchange symbol =>
    { g with steps := g.steps ++ [(m.serve (.getQuantityStep exchange symbol) w).1] }
  | .placeOrder order => { g with sizes := g.sizes ++ [order.size] }
  | _ => g

/-- What is seen of an entry on a backend. -/
def entrySeen (m : Machine backend W) (w : W) (opportunity : ArbitrageOpportunity)
    (availableCapital positionSize : ℚ) : Seen :=
  ((m.watch (see m)).run (executeAtomicEntryReal opportunity availableCapital positionSize)
    (w,.start)).2.2

/-- The size of a position in contracts, at the higher one of its prices. -/
def rawQuantity (opportunity : ArbitrageOpportunity) (positionSize : ℚ) : ℚ :=
  positionSize / max opportunity.longPrice opportunity.shortPrice

/-- The entry orders are for one quantity, which the position size covers and which both clients
send as it is. -/
structure Fits (opportunity : ArbitrageOpportunity)
    (positionSize longStep shortStep q : ℚ) : Prop where
  pos : 0 < q
  covered : q * max opportunity.longPrice opportunity.shortPrice ≤ positionSize
  long : BybitDemoClient.roundedQty longStep q = q
  short : BybitDemoClient.roundedQty shortStep q = q

section Entries

variable {m : Machine backend W} {opportunity : ArbitrageOpportunity} {positionSize : ℚ}

/-- Sizes stay as they are and steps are added. -/
structure Asked (a b : W × Seen) : Prop where
  sizes : b.2.sizes = a.2.sizes
  steps : a.2.steps <+: b.2.steps

/-- Both are added to. -/
structure Grown (a b : W × Seen) : Prop where
  sizes : a.2.sizes <+: b.2.sizes
  steps : a.2.steps <+: b.2.steps

theorem wp_asked {p : Prog backend α} (hp : p.Only Asking) (a : W × Seen) :
    (m.watch (see m)).wp (fun _ _ => True) p (fun _ b => Asked a b) a := by
  refine wp_only (fun _ => ⟨rfl,List.prefix_rfl⟩)
    (fun _ _ _ h k => ⟨k.sizes.trans h.sizes,h.steps.trans k.steps⟩) (fun op b hop _ => ?_) hp a
  cases op with
  | placeOrder | placeMarketOrder => cases hop
  | getQuantityStep exchange symbol => exact ⟨rfl,List.prefix_append _ _⟩
  | _ => exact ⟨rfl,List.prefix_rfl⟩

theorem wp_grown (p : Prog backend α) (a : W × Seen) :
    (m.watch (see m)).wp (fun _ _ => True) p (fun _ b => Grown a b) a := by
  refine wp_only (fun _ => ⟨List.prefix_rfl,List.prefix_rfl⟩)
    (fun _ _ _ h k => ⟨h.sizes.trans k.sizes,h.steps.trans k.steps⟩) (fun op b _ _ => ?_)
      (only_true p) a
  cases op with
  | placeOrder order => exact ⟨List.prefix_append _ _,List.prefix_rfl⟩
  | getQuantityStep exchange symbol => exact ⟨List.prefix_rfl,List.prefix_append _ _⟩
  | _ => exact ⟨List.prefix_rfl,List.prefix_rfl⟩

/-- The quantity that the code computes from the first two steps. -/
def computed (opportunity : ArbitrageOpportunity) (positionSize : ℚ)
    (longStep shortStep : Except String ℚ) : ℚ :=
  min (floorTo (stepOr longStep) (rawQuantity opportunity positionSize))
    (floorTo (stepOr shortStep) (rawQuantity opportunity positionSize))

/-- The entry has a quantity and has placed no order yet. -/
structure Ready (opportunity : ArbitrageOpportunity) (positionSize q : ℚ)
    (a : W × Seen) : Prop where
  unplaced : a.2.sizes = []
  pos : 0 < q
  steps : ∃ long short rest, a.2.steps = long :: short :: rest ∧
    q = computed opportunity positionSize long short

/-- A part of the entry that only asks, with no order placed before. -/
theorem ready_asked {q : ℚ} {x : Entry α}
    (hx : Prog.Only Asking (x : Prog backend (Except EntryError α))) {a : W × Seen}
    (h : Ready opportunity positionSize q a) :
    (m.watch (see m)).wp (fun _ _ => True) x
      (Ends (fun b => b.2.sizes = []) (fun _ b => Ready opportunity positionSize q b)) a := by
  refine wp_mono (wp_asked hx a) (fun r b hab => ?_)
  have hunplaced : b.2.sizes = [] := hab.sizes.trans h.unplaced
  cases r with
  | error e => exact hunplaced
  | ok x =>
    obtain ⟨long,short,rest,hsteps,hq⟩ := h.steps
    obtain ⟨more,hmore⟩ := hab.steps
    exact ⟨hunplaced,h.pos,long,short,rest ++ more,by rw [← hmore,hsteps]; rfl,hq⟩

theorem ready_call {q : ℚ} (op : BackendOp) (hop : Asking op) {a : W × Seen}
    (h : Ready opportunity positionSize q a) :
    (m.watch (see m)).wp (fun _ _ => True)
      (liftM (Prog.call op .ret : Prog backend (backend.Ans op)) : Entry (backend.Ans op))
      (Ends (fun b => b.2.sizes = []) (fun _ b => Ready opportunity positionSize q b)) a :=
  ready_asked (.lift (p := .call op .ret) ⟨hop,fun _ => trivial⟩) h

theorem contractQuantity_computed (w : W) :
    (m.watch (see m)).wp (fun _ _ => True) (contractQuantity opportunity positionSize)
      (fun q a => a.2.sizes = [] ∧ ∃ long short, a.2.steps = [long,short] ∧
        q = computed opportunity positionSize long short) (w,.start) := by
  intro _ _
  exact ⟨rfl,_,_,rfl,rfl⟩

theorem prepareEntry_ready (w : W) (availableCapital : ℚ) :
    (m.watch (see m)).wp (fun _ _ => True) (prepareEntry opportunity availableCapital positionSize)
      (Ends (fun a => a.2.sizes = []) (fun r a => Ready opportunity positionSize r.1 a))
        (w,.start) := by
  unfold prepareEntry
  refine ends_lift (fun _ => ?_)
  refine ends_bind (R := fun _ a => a.2 = .start) (wp_failWhen (fun _ => rfl) (fun _ => rfl))
    (fun _ a ha => ?_)
  refine ends_bind (R := fun _ a => a.2 = .start)
    (wp_failWhen (fun _ => by rw [ha]; rfl) (fun _ => ha)) (fun _ a ha => ?_)
  refine ends_bind (R := fun _ a => a.2 = .start)
    (wp_failWhen (fun _ => by rw [ha]; rfl) (fun _ => ha)) (fun _ a ha => ?_)
  obtain ⟨v,g⟩ := a
  subst ha
  refine ends_lift (fun _ => ?_)
  refine ends_lift (wp_mono (contractQuantity_computed _) ?_)
  rintro q a ⟨hunplaced,long,short,hsteps,hq⟩
  refine ends_bind (R := fun _ a => Ready opportunity positionSize q a)
    (wp_failWhen (fun _ => hunplaced) (fun hpos => ?_)) ?_
  · exact ⟨hunplaced,by simpa using hpos,long,short,[],hsteps,hq⟩
  intro _ a ha
  refine ends_bind (ready_asked (checkBalances_asks _ _) ha) (fun _ a ha => ?_)
  refine ends_bind (ready_call (.setLeverage _ _ _) trivial ha) (fun _ a ha => ?_)
  refine ends_bind (ready_call (.setLeverage _ _ _) trivial ha) (fun _ a ha => ?_)
  refine ends_bind (ready_call (.setMarginTypeIsolated _ _) trivial ha) (fun _ a ha => ?_)
  refine ends_bind (ready_call (.setMarginTypeIsolated _ _) trivial ha) (fun _ a ha => ?_)
  exact ends_bind (ready_asked (preflight_asks _ _ _) ha) (fun _ a ha => ha)

/-- No order is placed, or the first two are for the quantity computed. -/
def Sized (opportunity : ArbitrageOpportunity) (positionSize : ℚ) (g : Seen) : Prop :=
  g.sizes = [] ∨ ∃ q long short rest more, g.steps = long :: short :: rest ∧
    q = computed opportunity positionSize long short ∧ 0 < q ∧ g.sizes = q :: q :: more

theorem Sized.grown {a b : W × Seen} {q : ℚ} (h : Ready opportunity positionSize q a)
    (hg : Grown a b) (hb : ∃ more, b.2.sizes = q :: q :: more) :
    Sized opportunity positionSize b.2 := by
  obtain ⟨long,short,rest,hsteps,hq⟩ := h.steps
  obtain ⟨added,hadded⟩ := hg.steps
  obtain ⟨more,hmore⟩ := hb
  exact .inr ⟨q,long,short,rest ++ added,more,by rw [← hadded,hsteps]; rfl,hq,h.pos,hmore⟩

theorem placeEntry_sized {q : ℚ} (secs : Nat) (cache : DepthCache) {a : W × Seen}
    (h : Ready opportunity positionSize q a) :
    (m.watch (see m)).wp (fun _ _ => True) (placeEntry opportunity q secs cache)
      (fun _ b => Sized opportunity positionSize b.2 ∧ b.2.sizes ≠ []) a := by
  obtain ⟨w,steps,sizes⟩ := a
  obtain rfl : sizes = [] := h.unplaced
  unfold placeEntry
  refine ends_lift (fun _ => ends_lift (fun _ => wp_ret.mpr ?_))
  refine wp_mono (wp_grown _ _) (fun _ b hb => ?_)
  obtain ⟨more,hmore⟩ := hb.sizes
  have hsizes : b.2.sizes = q :: q :: more := hmore.symm
  exact ⟨Sized.grown h ⟨List.nil_prefix,hb.steps⟩ ⟨more,hsizes⟩,by simp [hsizes]⟩

theorem Sized.of_grown {a b : W × Seen} (h : Sized opportunity positionSize a.2)
    (hne : a.2.sizes ≠ []) (hg : Grown a b) : Sized opportunity positionSize b.2 := by
  rcases h with hnil | ⟨q,long,short,rest,more,hsteps,hq,hpos,hsizes⟩
  · exact absurd hnil hne
  · obtain ⟨added,hadded⟩ := hg.steps
    obtain ⟨placed,hplaced⟩ := hg.sizes
    exact .inr ⟨q,long,short,rest ++ added,more ++ placed,by rw [← hadded,hsteps]; rfl,hq,hpos,
      by rw [← hplaced,hsizes]; rfl⟩

/-- Whatever the backend answers, the entry orders are for the quantity computed. -/
theorem entrySeen_sized (m : Machine backend W) (w : W) (opportunity : ArbitrageOpportunity)
    (availableCapital positionSize : ℚ) :
    Sized opportunity positionSize (entrySeen m w opportunity availableCapital positionSize) := by
  have hwp : (m.watch (see m)).wp (fun _ _ => True)
      (executeAtomicEntryReal opportunity availableCapital positionSize)
      (fun _ a => Sized opportunity positionSize a.2) (w,.start) := by
    unfold executeAtomicEntryReal
    refine wp_except_bind.mpr (wp_mono (prepareEntry_ready w availableCapital) (fun r a ha => ?_))
    cases r with
    | error e => exact .inl ha
    | ok prepared =>
      refine wp_except_bind.mpr (wp_mono (placeEntry_sized prepared.2.1 prepared.2.2 ha) ?_)
      rintro r b ⟨hsized,hne⟩
      cases r with
      | error e => exact hsized
      | ok legs => exact wp_mono (wp_grown _ b) (fun _ c hc => hsized.of_grown hne hc)
  rw [wp_iff] at hwp
  exact hwp (along_true _ _)

/-- Whatever the backend answers: if orders are placed and both exchanges reported a step, the two
entry orders are for one quantity that fits exactly if the position size is, in contracts, less than
one of the larger steps above a common multiple of the two. -/
theorem quantity_fits_iff (m : Machine backend W) (w : W) (opportunity : ArbitrageOpportunity)
    (availableCapital positionSize longStep shortStep : ℚ) (rest : List (Except String ℚ))
    (hlong : 0 < opportunity.longPrice) (hlongStep : 0 < longStep) (hshortStep : 0 < shortStep)
    (hsteps : (entrySeen m w opportunity availableCapital positionSize).steps =
      .ok longStep :: .ok shortStep :: rest)
    (hplaced : (entrySeen m w opportunity availableCapital positionSize).sizes ≠ []) :
    (∃ q more, (entrySeen m w opportunity availableCapital positionSize).sizes = q :: q :: more ∧
        Fits opportunity positionSize longStep shortStep q) ↔
      ∃ c, OnGrid longStep c ∧ OnGrid shortStep c ∧ c ≤ rawQuantity opportunity positionSize ∧
        rawQuantity opportunity positionSize < c + max longStep shortStep := by
  rcases entrySeen_sized m w opportunity availableCapital positionSize with
    hnil | ⟨q,long,short,rest',more,hseen,hq,hpos,hsizes⟩
  · exact absurd hnil hplaced
  · rw [hsteps] at hseen
    obtain ⟨rfl,rfl⟩ : long = .ok longStep ∧ short = .ok shortStep := by
      simp only [List.cons.injEq] at hseen
      exact ⟨hseen.1.symm,hseen.2.1.symm⟩
    have hq : q = min (floorTo longStep (rawQuantity opportunity positionSize))
        (floorTo shortStep (rawQuantity opportunity positionSize)) := hq
    have hmax : 0 < max opportunity.longPrice opportunity.shortPrice := lt_max_of_lt_left hlong
    have hcovered : q * max opportunity.longPrice opportunity.shortPrice ≤ positionSize := by
      rw [← le_div_iff₀ hmax,hq]
      exact (min_le_left _ _).trans (floorTo_le hlongStep)
    rw [← min_floorTo_onGrid_iff hlongStep hshortStep,← hq]
    constructor
    · rintro ⟨q',more',hsizes',hfits⟩
      rw [hsizes] at hsizes'
      obtain rfl : q = q' := by
        simp only [List.cons.injEq] at hsizes'
        exact hsizes'.1
      exact ⟨(roundTo_eq_iff hlongStep).mp hfits.long,(roundTo_eq_iff hshortStep).mp hfits.short⟩
    · rintro ⟨hl,hs⟩
      exact ⟨q,more,hsizes,hpos,hcovered,(roundTo_eq_iff hlongStep).mpr hl,
        (roundTo_eq_iff hshortStep).mpr hs⟩

end Entries

/-- Exchanges that report these steps and take everything. -/
def reporting (longStep shortStep : ℚ) : Machine backend World := exchanges (fun t =>
  if t = 0 then { value := longStep }
  else if t = 1 then { value := shortStep }
  else if t < 4 then { value := 2000 }
  else { value := 100, depth := ⟨[⟨100,10⟩],[],0⟩ })

/-- With steps of a half and of two, ten and a half contracts become ten. -/
theorem half_and_two :
    ((entrySeen (reporting (1/2) 2) .empty onePercent 5000 (21/2*101)).steps = .ok (1/2) :: .ok 2 ::
      [] ∧ (entrySeen (reporting (1/2) 2) .empty onePercent 5000 (21/2*101)).sizes ≠ []) ∧
    ((∃ q more, (entrySeen (reporting (1/2) 2) .empty onePercent 5000 (21/2*101)).sizes =
      q :: q :: more ∧
        Fits onePercent (21/2*101) (1/2) 2 q) ↔
      ∃ c, OnGrid (1/2) c ∧ OnGrid 2 c ∧ c ≤ rawQuantity onePercent (21/2*101) ∧
        rawQuantity onePercent (21/2*101) < c + max (1/2) 2) :=
  have hseen : (entrySeen (reporting (1/2) 2) .empty onePercent 5000 (21/2*101)).steps =
      .ok (1/2) :: .ok 2 :: [] ∧
      (entrySeen (reporting (1/2) 2) .empty onePercent 5000 (21/2*101)).sizes ≠ [] := by
        decide +kernel
  ⟨hseen,quantity_fits_iff (reporting (1/2) 2) .empty onePercent 5000 (21/2*101) (1/2) 2 []
    (by decide +kernel)
    (by decide +kernel) (by decide +kernel) hseen.1 hseen.2⟩

/-- With steps of two and of three, ten contracts become nine, and the long order is sent for
ten. -/
theorem two_and_three :
    ((entrySeen (reporting 2 3) .empty onePercent 5000 1010).steps = [.ok 2,.ok 3] ∧
      (entrySeen (reporting 2 3) .empty onePercent 5000 1010).sizes ≠ []) ∧
    ¬∃ q more, (entrySeen (reporting 2 3) .empty onePercent 5000 1010).sizes = q :: q :: more ∧
      Fits onePercent 1010 2 3 q := by
  refine ⟨by decide +kernel,?_⟩
  rintro ⟨q,more,hsizes,hfits⟩
  have hhead : (entrySeen (reporting 2 3) .empty onePercent 5000 1010).sizes.head? = some 9 := by
    decide +kernel
  obtain rfl : q = 9 := by simpa [hsizes] using hhead
  exact absurd hfits.long (by decide +kernel)

end SpreadArb.Proofs.Quantity
