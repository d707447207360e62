import SpreadArb.Proofs.Origins

namespace SpreadArb.Proofs.Funding
open Interact Machine Origins

/-- A step of the runner: the state before it, and the request made there. -/
abbrev Step := Runner × RunnerOp

/-- The funding deltas that the passes of `check_exits` over the trade of a symbol meet from its
opening on, the latest one first. A pass asks for the tracker; one without rates meets no delta. -/
def observe (env : Surroundings) (symbol : String) (deltas : List ℚ) : Step → List ℚ
  | (s,.tracker name) =>
    if name = symbol then ((env.funding s.world.tick symbol).map (fun r => r.1 - r.2)).toList ++
      deltas
    else deltas
  | (_,.insert t) => if t.symbol = symbol then [] else deltas
  | _ => deltas

def observed (env : Surroundings) (symbol : String) (steps : List Step) : List ℚ :=
  steps.foldl (observe env symbol) []

/-- The length of the trailing run of negative deltas. -/
def trailing (deltas : List ℚ) : Nat := (deltas.takeWhile (· < 0)).length

/-- What the tracker of a symbol counts; one that is missing counts nothing. -/
def counted (s : Runner) (symbol : String) : Nat :=
  ((s.trackers.lookup symbol).map NegativeFundingTracker.consecutiveNegativeCycles).getD 0

/-- The step sends a trade of the symbol on its way out for its funding. -/
def Marks (symbol : String) : Step → Prop
  | (s,.getMut id f) => ∃ t, s.lookup id = some t ∧ t.symbol = symbol ∧ (f t).status = .exiting ∧
      (f t).exitReason = some .negativeFundingExit
  | _ => False

/-- The steps up to the next pass over a trade of the symbol. -/
def upToNext (symbol : String) : List Step → List Step
  | [] => []
  | (s,.tracker name) :: steps =>
    if name = symbol then [] else (s,.tracker name) :: upToNext symbol steps
  | step :: steps => step :: upToNext symbol steps

/-- The negative funding exit as it is meant: each pass finds the tracker at the length of the
trailing run, marks the trade when two deltas in a row were negative, and does not when the
latest one was not. -/
def FundingRule (env : Surroundings) (steps : List Step) : Prop :=
  ∀ before s symbol after, steps = before ++ (s,.tracker symbol) :: after →
    counted s symbol = trailing (observed env symbol before) ∧
    (2 ≤ trailing (observed env symbol before) → ∃ step ∈ upToNext symbol after,
      Marks symbol step) ∧
    (∀ d, (observed env symbol before).head? = some d → 0 ≤ d → ∀ step ∈ upToNext symbol after,
      ¬Marks symbol step)

/-- No pass over a trade comes after one that met a negative delta. -/
def NeverNegative (env : Surroundings) (steps : List Step) : Prop :=
  ∀ before s symbol after, steps = before ++ (s,.tracker symbol) :: after →
    ∀ d, (observed env symbol before).head? = some d → 0 ≤ d

theorem trailing_eq_zero {deltas : List ℚ} :
    trailing deltas = 0 ↔ ∀ d, deltas.head? = some d → 0 ≤ d := by
  cases deltas with
  | nil => simp [trailing]
  | cons d deltas =>
    by_cases h : d < 0
    · simp [trailing,h]
    · simpa [trailing,h] using not_lt.mp h

theorem upToNext_subset {symbol : String} {steps : List Step} :
    ∀ step ∈ upToNext symbol steps, step ∈ steps := by
  fun_induction upToNext symbol steps with
  | case1 => simp
  | case2 => simp
  | case3 s name steps hne ih =>
    simp only [List.mem_cons,forall_eq_or_imp,true_or,true_and]
    exact fun step h => .inr (ih step h)
  | case4 step steps hstep ih =>
    simp only [List.mem_cons,forall_eq_or_imp,true_or,true_and]
    exact fun step h => .inr (ih step h)

/-- A sparing step of a blank runner marks no trade. -/
theorem not_marks {symbol : String} {step : Step} (hb : Blank step.1) (hk : Sparing step.2) :
    ¬Marks symbol step := by
  obtain ⟨s,op⟩ := step
  cases op with
  | getMut id f =>
    rintro ⟨t,ht,-,-,hreason⟩
    exact hk t (hb.reasons t (List.mem_of_find?_eq_some ht)) hreason
  | _ => exact id

theorem counted_blank {s : Runner} (h : Blank s) (symbol : String) : counted s symbol = 0 := by
  simp [counted,h.trackers]

/-- In every run of the loop the negative funding exit works as it is meant exactly if no pass
over a trade comes after one that met a negative delta: no tracker is ever made. -/
theorem funding_rule_iff (env : Surroundings) (world : World) (startingCapital : ℚ)
    (inputs : Nat → Input) (n : Nat) :
    FundingRule env ((runner env).trace (runScanningLoop inputs n) (.new world startingCapital)) ↔
      NeverNegative env ((runner env).trace (runScanningLoop inputs n)
        (.new world startingCapital)) := by
  have hmild := trace_mild env world startingCapital inputs n
  generalize (runner env).trace (runScanningLoop inputs n) (.new world startingCapital) =
    steps at hmild
  constructor
  · intro hrule before s symbol after hsteps
    have hblank := (hmild (s,.tracker symbol) (by simp [hsteps])).1
    have hcount := (hrule before s symbol after hsteps).1
    rw [counted_blank hblank] at hcount
    exact trailing_eq_zero.mp hcount.symm
  · intro hnever before s symbol after hsteps
    have hblank := (hmild (s,.tracker symbol) (by simp [hsteps])).1
    have hzero := trailing_eq_zero.mpr (hnever before s symbol after hsteps)
    refine ⟨?_,?_,?_⟩
    · rw [counted_blank hblank,hzero]
    · rw [hzero]
      exact fun h => absurd h (by decide)
    · intro d _ _ step hstep
      have hmem : step ∈ steps := by
        rw [hsteps]
        exact List.mem_append_right _ (List.mem_cons_of_mem _ (upToNext_subset step hstep))
      exact not_marks (hmild step hmem).1 (hmild step hmem).2

/-- What the tracker of a symbol counts at each pass, and the trailing run it should count. -/
def passCounts (env : Surroundings) (symbol : String) (deltas : List ℚ) :
    List Step → List (Nat × Nat)
  | [] => []
  | step :: steps =>
    let rest := passCounts env symbol (observe env symbol deltas step) steps
    match step with
    | (s,.tracker name) => if name = symbol then
      (counted s symbol,trailing deltas) :: rest else rest
    | _ => rest

theorem passCounts_split {env : Surroundings} {symbol : String} {steps : List Step}
    {deltas : List ℚ} {x : Nat × Nat} (h : x ∈ passCounts env symbol deltas steps) :
    ∃ before s after, steps = before ++ (s,.tracker symbol) :: after ∧
      x = (counted s symbol,trailing (before.foldl (observe env symbol) deltas)) := by
  induction steps generalizing deltas with
  | nil => cases h
  | cons step steps ih =>
    have hrest : x ∈ passCounts env symbol (observe env symbol deltas step) steps →
        ∃ before s after, step :: steps = before ++ (s,.tracker symbol) :: after ∧
          x = (counted s symbol,trailing (before.foldl (observe env symbol) deltas)) := by
      intro hx
      obtain ⟨before,s,after,hsteps,hx⟩ := ih hx
      exact ⟨step :: before,s,after,by simp [hsteps],hx⟩
    obtain ⟨s,op⟩ := step
    cases op with
    | tracker name =>
      simp only [passCounts] at h
      split at h
      case isTrue hname =>
        subst hname
        rcases List.mem_cons.mp h with hx | hx
        · exact ⟨[],s,steps,rfl,hx⟩
        · exact hrest hx
      case isFalse => exact hrest h
    | _ => exact hrest h

/-- Buy at 100, sell at 101. -/
def bitcoin : ArbitrageOpportunity := ⟨"BTCUSDT","binance","okx",100,101,1/100,95,1,1000,1000⟩

/-- The spread stays as it was, and the long side pays the funding all the time. -/
def negativeFunding : Surroundings where
  exchanges _ := {}
  quotes _ _ _ _ := (some 100,some 101)
  funding _ _ := some (-1/1000,1/1000)
  backendName := "Paper"

/-- One opportunity in the first turn. -/
def enterFirst : Nat → Input := fun n => if n = 0 then { opportunity := some bitcoin } else {}

theorem negative_funding_ignored :
    ¬FundingRule negativeFunding
      ((runner negativeFunding).trace (runScanningLoop enterFirst 3) (.new .empty 1000)) := by
  intro hrule
  have hcounts : (0,2) ∈ passCounts negativeFunding "BTCUSDT" []
      ((runner negativeFunding).trace (runScanningLoop enterFirst 3) (.new .empty 1000)) := by
        decide +kernel
  obtain ⟨before,s,after,hsteps,hx⟩ := passCounts_split hcounts
  have hcount := (hrule before s "BTCUSDT" after hsteps).1
  obtain ⟨hc,ht⟩ := Prod.mk.inj hx
  rw [← hc] at hcount
  exact absurd (hcount.trans ht.symm) (by decide)

end SpreadArb.Proofs.Funding
