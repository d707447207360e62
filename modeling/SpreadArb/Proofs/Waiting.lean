import SpreadArb.Proofs.Rate

namespace SpreadArb.Proofs.Waiting
open Interact LimiterRun

variable {l : RateLimiter} {now : ℚ} {s : RateLimiterState}

section Turn

/-- A turn that finds no token leaves none. If there was none before, nothing was refilled. -/
theorem refused_turn (hburst : 0 < l.burstCapacity) (h : (l.acquireTurn now s).1 ≠ .granted) :
    (l.acquireTurn now s).2.tokens = 0 ∧
      (s.tokens = 0 → (l.acquireTurn now s).2.lastRefill = s.lastRefill ∧
        l.tokensToAdd (durationSince now s.lastRefill) = 0) := by
  unfold RateLimiter.acquireTurn at h ⊢
  by_cases htokens : (RateLimiter.prune now (l.refill now s)).tokens > 0
  · simp [htokens] at h
  have hzero : (RateLimiter.prune now (l.refill now s)).tokens = 0 := by omega
  simp only [hzero,gt_iff_lt,Nat.lt_irrefl,↓reduceIte]
  refine ⟨trivial,?_⟩
  intro hnone
  change (l.refill now s).tokens = 0 at hzero
  change (l.refill now s).lastRefill = s.lastRefill ∧ _
  unfold RateLimiter.refill at hzero ⊢
  by_cases hadd : l.tokensToAdd (durationSince now s.lastRefill) > 0
  · have hle : l.tokensToAdd (durationSince now s.lastRefill) ≤ 2^32-1 := Nat.min_le_right ..
    simp only [hadd,↓reduceIte,hnone,Nat.zero_add] at hzero
    rw [Nat.mod_eq_of_lt (by omega)] at hzero
    omega
  · simp only [hadd,↓reduceIte,true_and]
    omega

theorem acquireTurn_lastRefill (h : s.lastRefill ≤ now) :
    (l.acquireTurn now s).2.lastRefill ≤ now := by
  have hrefill : (l.refill now s).lastRefill ≤ now := by
    unfold RateLimiter.refill
    dsimp only
    split
    · exact le_rfl
    · exact h
  unfold RateLimiter.acquireTurn
  dsimp only
  split
  · exact hrefill
  split
  all_goals exact hrefill

/-- After the time of a token there is one. -/
theorem tokensToAdd_pos (hrate : 0 < l.requestsPerSecond)
    (h : s.lastRefill + 1 / l.requestsPerSecond ≤ now) :
    0 < l.tokensToAdd (durationSince now s.lastRefill) := by
  have hr : (0 : ℚ) < l.requestsPerSecond := by exact_mod_cast hrate
  have hwait : (0 : ℚ) < 1 / l.requestsPerSecond := by positivity
  have helapsed : durationSince now s.lastRefill = now - s.lastRefill :=
    Rate.durationSince_eq (by linarith)
  have hone : 1 ≤ (now - s.lastRefill) * l.requestsPerSecond := by
    have hle : 1 / (l.requestsPerSecond : ℚ) ≤ now - s.lastRefill := by linarith
    calc (1 : ℚ) = 1 / l.requestsPerSecond * l.requestsPerSecond := by field_simp
      _ ≤ (now - s.lastRefill) * l.requestsPerSecond := mul_le_mul_of_nonneg_right hle hr.le
  have hfloor : 1 ≤ ⌊(now - s.lastRefill) * l.requestsPerSecond⌋ := by
    rw [Int.le_floor]
    exact_mod_cast hone
  unfold RateLimiter.tokensToAdd
  rw [helapsed]
  omega

end Turn

variable {T : Type} [DecidableEq T]

variable (l) in
/-- The task takes the mutex and finds no token. -/
def refuses (s : LimiterRun T) (task : T) : Bool :=
  (s.acquiring task).any (· ≤ s.now) && (l.acquireTurn s.now s.state).1 ≠ .granted

/-- A run along with, for the call of each task, its turns that found no token and the number of
grants before it began. -/
structure Watched (T : Type) where
  run : LimiterRun T
  refused : T → Nat
  before : T → Nat

namespace Watched

variable (l) in
def step (w : Watched T) (a : LimiterAct T) : Watched T where
  run := w.run.step l a
  refused :=
    match a with
    | .advance _ => w.refused
    | .call task => if w.run.acquiring task = none then
      Function.update w.refused task 0 else w.refused
    | .turn task => if refuses l w.run task then Function.update w.refused task (w.refused task + 1)
      else w.refused
  before :=
    match a with
    | .call task =>
      if w.run.acquiring task = none then Function.update w.before task w.run.grants.length
        else w.before
    | _ => w.before

variable (l) in
def watch (start : ℚ) (acts : List (LimiterAct T)) : Watched T :=
  acts.foldl (step l) ⟨begin l start,fun _ => 0,fun _ => 0⟩

theorem watch_run (start : ℚ) (acts : List (LimiterAct T)) :
    (watch l start acts).run = LimiterRun.run l start acts := by
  induction acts using List.reverseRecOn with
  | nil => rfl
  | append_singleton acts a ih =>
    unfold watch LimiterRun.run at ih ⊢
    rw [List.foldl_concat,List.foldl_concat,← ih]
    rfl

/-- The acquires that were granted since the task's call began. -/
def passed (w : Watched T) (task : T) : Nat := w.run.grants.length - w.before task

end Watched

/-- A task that was refused once more than acquires were granted sleeps until there is a token for
it. -/
structure Patient (l : RateLimiter) (w : Watched T) (task : T) : Prop where
  before_le : w.before task ≤ w.run.grants.length
  refused_le : w.refused task ≤ w.passed task + 1
  due : ∀ wake, w.run.acquiring task = some wake → w.refused task = w.passed task + 1 →
    0 < l.requestsPerSecond ∧ w.run.state.tokens = 0 ∧
      w.run.state.lastRefill + 1 / l.requestsPerSecond ≤ wake

section Steps

variable {w : Watched T} {task other : T}

/-- What a turn of an awake task comes to. -/
theorem takeTurn_cases (r : LimiterRun T) (other : T) :
    ((l.acquireTurn r.now r.state).1 = .granted ∧ r.takeTurn l other = { r with
      state := (l.acquireTurn r.now r.state).2, acquiring := Function.update r.acquiring other none,
      grants := r.grants ++ [r.now] }) ∨
    ((l.acquireTurn r.now r.state).1 ≠ .granted ∧ ∃ wake, r.takeTurn l other = { r with
      state := (l.acquireTurn r.now r.state).2,
      acquiring := Function.update r.acquiring other wake } ∧
      ∀ later, wake = some later → 0 < l.requestsPerSecond ∧
        later = r.now + 1 / l.requestsPerSecond) := by
  cases h : (l.acquireTurn r.now r.state).1 with
  | granted =>
    left
    simp [takeTurn,h]
  | panicked =>
    right
    exact ⟨by simp,none,by simp [takeTurn,h],by simp⟩
  | wait seconds =>
    right
    refine ⟨by simp,some (r.now + seconds),by simp [takeTurn,h],?_⟩
    intro later hlater
    cases hlater
    unfold RateLimiter.acquireTurn at h
    dsimp only at h
    split at h
    · cases h
    split at h
    · split at h
      · cases h
      · next hrate =>
        cases h
        exact ⟨Nat.pos_of_ne_zero hrate,rfl⟩
    · next hsome hnone => omega

omit [DecidableEq T] in
/-- A grant only makes the refusals lag behind more. -/
theorem Patient.granted {v : Watched T} (h : Patient l w task)
    (hrefused : v.refused task = w.refused task) (hbefore : v.before task = w.before task)
    (hgrants : v.run.grants = w.run.grants ++ [w.run.now]) : Patient l v task := by
  have hle := h.before_le
  have hcount := h.refused_le
  have hlength : v.run.grants.length = w.run.grants.length + 1 := by simp [hgrants]
  unfold Watched.passed at hcount
  constructor
  case before_le => omega
  case refused_le =>
    unfold Watched.passed
    omega
  case due =>
    intro wake _ heq
    unfold Watched.passed at heq
    omega

/-- The turn of a task that is awake. -/
theorem patient_awake (hburst : 0 < l.burstCapacity) (hrefill : w.run.state.lastRefill ≤ w.run.now)
    (h : Patient l w task) {awake : ℚ} (hawake : w.run.acquiring other = some awake)
    (hle : awake ≤ w.run.now) : Patient l (w.step l (.turn other)) task := by
  have hrun : (w.step l (.turn other)).run = w.run.takeTurn l other := by
    simp [Watched.step,LimiterRun.step,hawake,hle]
  obtain ⟨hgranted,hturn⟩ | ⟨hnone,next,hturn,hnext⟩ := takeTurn_cases (l := l) w.run other
  · refine h.granted ?_ rfl ?_
    · simp [Watched.step,refuses,hgranted]
    · rw [hrun,hturn]
  · obtain ⟨htokens,hsame⟩ := refused_turn hburst hnone
    have hrefuses : refuses l w.run other = true := by simp [refuses,hawake,hle,hnone]
    have hstate : (w.step l (.turn other)).run.state = (l.acquireTurn w.run.now w.run.state).2 := by
      rw [hrun,hturn]
    have hgrants : (w.step l (.turn other)).run.grants = w.run.grants := by rw [hrun,hturn]
    have hpassed : (w.step l (.turn other)).passed task = w.passed task := by
      rw [Watched.passed,hgrants]
      rfl
    have hrefused : (w.step l (.turn other)).refused =
        Function.update w.refused other (w.refused other + 1) :=
      if_pos hrefuses
    have hacquiring : (w.step l (.turn other)).run.acquiring =
        Function.update w.run.acquiring other next := by
      rw [hrun,hturn]
    by_cases hself : task = other
    · subst hself
      -- A task that had nothing more to wait for would have been served.
      have hbehind : w.refused task ≠ w.passed task + 1 := by
        intro heq
        obtain ⟨hrate,hzero,hdue⟩ := h.due awake hawake heq
        have hpos := tokensToAdd_pos hrate (hdue.trans hle)
        have hadd := (hsame hzero).2
        omega
      have hcount := h.refused_le
      constructor
      case before_le =>
        rw [hgrants]
        exact h.before_le
      case refused_le =>
        rw [hrefused,hpassed,Function.update_self]
        omega
      case due =>
        intro wake hwake _
        rw [hacquiring,Function.update_self] at hwake
        obtain ⟨hrate,rfl⟩ := hnext wake hwake
        rw [hstate]
        exact ⟨hrate,htokens,add_le_add_left (acquireTurn_lastRefill hrefill) _⟩
    · constructor
      case before_le =>
        rw [hgrants]
        exact h.before_le
      case refused_le =>
        rw [hrefused,hpassed,Function.update_of_ne hself]
        exact h.refused_le
      case due =>
        intro wake hwake heq
        rw [hacquiring,Function.update_of_ne hself] at hwake
        rw [hrefused,hpassed,Function.update_of_ne hself] at heq
        obtain ⟨hrate,hzero,hdue⟩ := h.due wake hwake heq
        rw [hstate,(hsame hzero).1]
        exact ⟨hrate,htokens,hdue⟩

/-- Between the grants the tokens stay at nothing. -/
theorem patient_turn (hburst : 0 < l.burstCapacity) (hrefill : w.run.state.lastRefill ≤ w.run.now)
    (h : Patient l w task) (other : T) : Patient l (w.step l (.turn other)) task := by
  by_cases hawake : ∃ awake, w.run.acquiring other = some awake ∧ awake ≤ w.run.now
  · obtain ⟨awake,hacquiring,hle⟩ := hawake
    exact patient_awake hburst hrefill h hacquiring hle
  · have hrun : w.run.step l (.turn other) = w.run := by
      unfold LimiterRun.step
      dsimp only
      split
      · next awake hacquiring => rw [if_neg (fun hle => hawake ⟨awake,hacquiring,hle⟩)]
      · rfl
    have hrefuses : refuses l w.run other = false := by
      rw [refuses,Bool.and_eq_false_iff]
      left
      rw [Option.any_eq_false]
      intro awake hacquiring
      simpa using fun hle => hawake ⟨awake,hacquiring,hle⟩
    have hsame : w.step l (.turn other) = w := by
      unfold Watched.step
      simp [hrun,hrefuses]
    rw [hsame]
    exact h

theorem patient_step (hburst : 0 < l.burstCapacity) (hrefill : w.run.state.lastRefill ≤ w.run.now)
    (h : Patient l w task) (a : LimiterAct T) : Patient l (w.step l a) task := by
  cases a with
  | turn other => exact patient_turn hburst hrefill h other
  | advance now =>
    have hkept : (w.run.step l (.advance now)).state = w.run.state ∧
        (w.run.step l (.advance now)).grants = w.run.grants ∧
        (w.run.step l (.advance now)).acquiring = w.run.acquiring := by
      unfold LimiterRun.step
      dsimp only
      split
      all_goals exact ⟨rfl,rfl,rfl⟩
    obtain ⟨hstate,hgrants,hacquiring⟩ := hkept
    have hpassed : (w.step l (.advance now)).passed task = w.passed task :=
      congrArg (List.length · - _) hgrants
    refine ⟨?_,?_,?_⟩
    · exact h.before_le.trans (congrArg List.length hgrants).ge
    · rw [hpassed]
      exact h.refused_le
    · intro wake hwake heq
      rw [hpassed] at heq
      change (w.run.step l (.advance now)).acquiring task = _ at hwake
      change _ ∧ (w.run.step l (.advance now)).state.tokens = 0 ∧
        (w.run.step l (.advance now)).state.lastRefill + _ ≤ _
      rw [hacquiring] at hwake
      rw [hstate]
      exact h.due wake hwake heq
  | call other =>
    by_cases hidle : w.run.acquiring other = none
    · have hcall : w.step l (.call other) = ⟨{ w.run with
          acquiring := Function.update w.run.acquiring other (some w.run.now) },
          Function.update w.refused other 0,
            Function.update w.before other w.run.grants.length⟩ := by
        simp [Watched.step,LimiterRun.step,hidle]
      rw [hcall]
      by_cases hself : task = other
      · subst hself
        constructor
        · simp
        · simp
        · intro wake _ heq
          simp at heq
      · constructor
        · simpa [Function.update_of_ne hself] using h.before_le
        · simpa [Watched.passed,Function.update_of_ne hself] using h.refused_le
        · intro wake hwake heq
          simp only [Watched.passed,Function.update_of_ne hself] at hwake heq
          exact h.due wake hwake heq
    · have hsame : w.step l (.call other) = w := by
        unfold Watched.step LimiterRun.step
        simp [hidle]
      rw [hsame]
      exact h

/-- A call of `acquire` is refused at most once more often than an acquire is granted while it
waits. So whoever waits is served at the latest with the first turn after a wait in which nobody
else was. -/
theorem refusals_bounded (l : RateLimiter) (start : ℚ) (acts : List (LimiterAct T)) (task : T)
    (hburst : 0 < l.burstCapacity) :
    (Watched.watch l start acts).run = LimiterRun.run l start acts ∧
      (Watched.watch l start acts).refused task ≤ (Watched.watch l start acts).passed task + 1 := by
  refine ⟨Watched.watch_run start acts,?_⟩
  have hpatient : Patient l (Watched.watch l start acts) task := by
    induction acts using List.reverseRecOn with
    | nil =>
      constructor
      · exact le_rfl
      · simp [Watched.watch]
      · intro wake hwake
        cases hwake
    | append_singleton acts a ih =>
      have hrefill := (Rate.enforced_run (l := l) start acts).refilled
      rw [← Watched.watch_run] at hrefill
      unfold Watched.watch at *
      rw [List.foldl_concat]
      exact patient_step hburst hrefill ih a
  exact hpatient.refused_le

/-- Two tasks and one token a second: the second task is refused, then the first one again takes the
token that was there for it, and it is refused once more. -/
def overtaken : List (LimiterAct Bool) :=
  [.call false,.turn false,.call true,.turn true,.advance 1,.call false,.turn false,.turn true]

theorem overtaken_refused_twice :
    (Watched.watch ⟨1,1⟩ 0 overtaken).refused true = 2 ∧
      (Watched.watch ⟨1,1⟩ 0 overtaken).passed true = 1 ∧
      (Watched.watch ⟨1,1⟩ 0 overtaken).refused true ≤
        (Watched.watch ⟨1,1⟩ 0 overtaken).passed true + 1 := by
  have hrefused : (Watched.watch ⟨1,1⟩ 0 overtaken).refused true = 2 := by decide +kernel
  have hpassed : (Watched.watch ⟨1,1⟩ 0 overtaken).passed true = 1 := by decide +kernel
  exact ⟨hrefused,hpassed,(refusals_bounded ⟨1,1⟩ 0 overtaken true Nat.one_pos).2⟩

end Steps

end SpreadArb.Proofs.Waiting
