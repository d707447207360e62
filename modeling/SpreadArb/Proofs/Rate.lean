import SpreadArb.RateLimiter
import SpreadArb.Interact.Steps
import Mathlib.Tactic.Linarith

namespace SpreadArb.Proofs.Rate
open Interact LimiterRun

variable {l : RateLimiter} {now : ℚ} {s m : RateLimiterState} {grants : List ℚ}

/-- The grants from an instant on. -/
def since (grants : List ℚ) (start : ℚ) : Nat := grants.countP (fun grant => start ≤ grant)

/-- The grants of a window. -/
def within (grants : List ℚ) (start stop : ℚ) : Nat :=
  grants.countP (fun grant => start ≤ grant && grant ≤ stop)

/-- What the limiter can still give out, the time since the last refill counted in. -/
def potential (l : RateLimiter) (now : ℚ) (s : RateLimiterState) : ℚ :=
  s.tokens + l.requestsPerSecond * (now - s.lastRefill)

/-- The limiter, the clock and the grants so far. -/
structure Enforced (l : RateLimiter) (now : ℚ) (s : RateLimiterState) (grants : List ℚ) : Prop where
  capped : s.tokens ≤ l.burstCapacity
  refilled : s.lastRefill ≤ now
  past : ∀ grant ∈ grants, grant ≤ now
  /-- From the first grant of a window on, what was granted and what is left grow with the clock
  only. -/
  bounded : ∀ start, (∃ grant ∈ grants, start ≤ grant) →
    since grants start + potential l now s ≤
      l.burstCapacity + 1 + l.requestsPerSecond * (now - start)
  window : ∀ start stop, start ≤ stop →
    (within grants start stop : ℚ) ≤ l.burstCapacity + l.requestsPerSecond * (stop - start) + 1
  /-- A grant without a timestamp is older than a second. -/
  stamped : ∃ old, grants = old ++ s.requestTimestamps ∧ ∀ grant ∈ old, 1 < now - grant

/-- The state after the refill and the cleanup of a turn. -/
structure Refilled (l : RateLimiter) (now : ℚ) (s m : RateLimiterState) : Prop where
  capped : m.tokens ≤ l.burstCapacity
  refilled : m.lastRefill ≤ now
  /-- Less than a token is left over. -/
  fraction : l.requestsPerSecond * (now - m.lastRefill) < 1
  spent : potential l now m ≤ potential l now s
  pruned : ∃ old, s.requestTimestamps = old ++ m.requestTimestamps ∧
    ∀ timestamp ∈ old, 1 < now - timestamp

section Turn

theorem durationSince_eq {earlier : ℚ} (h : earlier ≤ now) :
    durationSince now earlier = now - earlier := by
  simp [durationSince,h]

theorem durationSince_gt {earlier : ℚ} (h : 1 < durationSince now earlier) : 1 < now - earlier := by
  unfold durationSince at h
  rcases lt_max_iff.mp h with h | h
  · norm_num at h
  · exact h

theorem tokensToAdd_le {elapsed : ℚ} (h : 0 ≤ elapsed) :
    (l.tokensToAdd elapsed : ℚ) ≤ l.requestsPerSecond * elapsed := by
  have hpos : 0 ≤ elapsed * l.requestsPerSecond := mul_nonneg h (Nat.cast_nonneg _)
  have hmin : l.tokensToAdd elapsed ≤ ⌊elapsed * l.requestsPerSecond⌋.toNat := Nat.min_le_left ..
  have hnat : ((⌊elapsed * l.requestsPerSecond⌋.toNat : ℤ) : ℚ) =
      (⌊elapsed * l.requestsPerSecond⌋ : ℚ) := by
    rw [Int.toNat_of_nonneg (Int.floor_nonneg.mpr hpos)]
  calc (l.tokensToAdd elapsed : ℚ)
      ≤ (⌊elapsed * l.requestsPerSecond⌋.toNat : ℚ) := by exact_mod_cast hmin
    _ = (⌊elapsed * l.requestsPerSecond⌋ : ℚ) := by exact_mod_cast hnat
    _ ≤ elapsed * l.requestsPerSecond := Int.floor_le _
    _ = l.requestsPerSecond * elapsed := mul_comm ..

theorem fraction_of_none {elapsed : ℚ} (h : l.tokensToAdd elapsed = 0) :
    l.requestsPerSecond * elapsed < 1 := by
  have hfloor : ⌊elapsed * l.requestsPerSecond⌋ < 1 := by
    simp only [RateLimiter.tokensToAdd] at h
    omega
  rw [mul_comm]
  exact_mod_cast Int.floor_lt.mp hfloor

theorem refill_refilled (hcap : s.tokens ≤ l.burstCapacity) (hpast : s.lastRefill ≤ now) :
    (l.refill now s).tokens ≤ l.burstCapacity ∧ (l.refill now s).lastRefill ≤ now ∧
    l.requestsPerSecond * (now - (l.refill now s).lastRefill) < 1 ∧
    potential l now (l.refill now s) ≤ potential l now s := by
  have helapsed : 0 ≤ now - s.lastRefill := by linarith
  unfold RateLimiter.refill
  rw [durationSince_eq hpast]
  by_cases hadd : l.tokensToAdd (now - s.lastRefill) > 0
  · simp only [hadd,↓reduceIte]
    refine ⟨Nat.min_le_right ..,le_refl now,by simp,?_⟩
    have hsum : min ((s.tokens + l.tokensToAdd (now - s.lastRefill)) % 2^32) l.burstCapacity ≤
        s.tokens + l.tokensToAdd (now - s.lastRefill) :=
      (Nat.min_le_left ..).trans (Nat.mod_le ..)
    have hsum' : ((min ((s.tokens + l.tokensToAdd (now - s.lastRefill)) % 2^32)
        l.burstCapacity : ℕ) : ℚ) ≤
        s.tokens + l.tokensToAdd (now - s.lastRefill) := by exact_mod_cast hsum
    have hle := tokensToAdd_le (l := l) helapsed
    simp only [potential,sub_self,mul_zero,add_zero]
    linarith
  · have hnone : l.tokensToAdd (now - s.lastRefill) = 0 := by omega
    simp only [hadd,↓reduceIte]
    exact ⟨hcap,hpast,fraction_of_none hnone,le_refl _⟩

theorem prune_refilled (hcap : s.tokens ≤ l.burstCapacity) (hpast : s.lastRefill ≤ now) :
    Refilled l now s (RateLimiter.prune now (l.refill now s)) := by
  obtain ⟨hcap',hpast',hfraction,hspent⟩ := refill_refilled hcap hpast
  have hstamps : (l.refill now s).requestTimestamps = s.requestTimestamps := by
    unfold RateLimiter.refill
    dsimp only
    split_ifs <;> rfl
  refine ⟨hcap',hpast',hfraction,hspent,
    s.requestTimestamps.takeWhile (fun timestamp => durationSince now timestamp > 1),?_,?_⟩
  · simp only [RateLimiter.prune,hstamps]
    exact List.takeWhile_append_dropWhile.symm
  · intro timestamp ht
    have hold := List.all_eq_true.mp List.all_takeWhile timestamp ht
    exact durationSince_gt (by simpa using hold)

/-- What a turn does. -/
theorem acquireTurn_cases (hcap : s.tokens ≤ l.burstCapacity) (hpast : s.lastRefill ≤ now) :
    ∃ m, Refilled l now s m ∧
      ((0 < m.tokens ∧ l.acquireTurn now s = (.granted,{ m with
          tokens := m.tokens - 1, requestTimestamps := m.requestTimestamps ++ [now] })) ∨
        ((l.acquireTurn now s).1 ≠ .granted ∧ (l.acquireTurn now s).2 = m)) := by
  refine ⟨_,prune_refilled hcap hpast,?_⟩
  unfold RateLimiter.acquireTurn
  by_cases htokens : (RateLimiter.prune now (l.refill now s)).tokens > 0
  · left
    simp [htokens]
  · right
    have hzero : (RateLimiter.prune now (l.refill now s)).tokens = 0 := by omega
    simp only [hzero,gt_iff_lt,Nat.lt_irrefl,↓reduceIte]
    split_ifs <;> simp

end Turn

section Counting

variable {start stop : ℚ}

theorem within_le_since : within grants start stop ≤ since grants start := by
  apply List.countP_mono_left
  intro grant _ hg
  simp only [Bool.and_eq_true,decide_eq_true_eq] at hg ⊢
  exact hg.1

theorem since_append : since (grants ++ [now]) start = since grants start + if start ≤ now then
      1 else 0 := by
  simp [since]

theorem within_append :
    within (grants ++ [now]) start stop = within grants start stop + if start ≤ now ∧
      now ≤ stop then 1 else 0 := by
  simp [within]

/-- Without a grant there is none to count. -/
theorem since_eq_zero (h : ¬ ∃ grant ∈ grants, start ≤ grant) : since grants start = 0 := by
  rw [since,List.countP_eq_zero]
  intro grant hg hle
  exact h ⟨grant,hg,by simpa using hle⟩

end Counting

section Steps

theorem enforced_new (start : ℚ) : Enforced l start (l.new start) [] where
  capped := le_refl _
  refilled := le_refl _
  past := by simp
  bounded := by simp
  window a b hab := by
    have hpos : 0 ≤ (l.requestsPerSecond : ℚ) * (b - a) :=
      mul_nonneg (Nat.cast_nonneg _) (by linarith)
    have hburst : (0 : ℚ) ≤ l.burstCapacity := Nat.cast_nonneg _
    simp only [within,List.countP_nil,Nat.cast_zero]
    linarith
  stamped := ⟨[],rfl,by simp⟩

theorem Enforced.later {later : ℚ} (h : Enforced l now s grants) (hle : now ≤ later) :
    Enforced l later s grants where
  capped := h.capped
  refilled := h.refilled.trans hle
  past grant hg := (h.past grant hg).trans hle
  bounded start hs := by
    have hbound := h.bounded start hs
    unfold potential at hbound ⊢
    linarith
  window := h.window
  stamped := by
    obtain ⟨old,hgrants,hold⟩ := h.stamped
    refine ⟨old,hgrants,fun grant hg => ?_⟩
    have := hold grant hg
    linarith

theorem Enforced.refill (h : Enforced l now s grants) (hm : Refilled l now s m) :
    Enforced l now m grants where
  capped := hm.capped
  refilled := hm.refilled
  past := h.past
  bounded start hs := by
    have hbound := h.bounded start hs
    have hspent := hm.spent
    linarith
  window := h.window
  stamped := by
    obtain ⟨old,hgrants,hold⟩ := h.stamped
    obtain ⟨pruned,hstamps,hpruned⟩ := hm.pruned
    refine ⟨old ++ pruned,by rw [hgrants,hstamps,List.append_assoc],fun grant hg => ?_⟩
    rcases List.mem_append.mp hg with hg | hg
    · exact hold grant hg
    · exact hpruned grant hg

/-- A grant takes a token. The window that begins with it holds what the bucket held. -/
theorem Enforced.bounded_grant (h : Enforced l now m grants)
    (hfraction : l.requestsPerSecond * (now - m.lastRefill) < 1) {start : ℚ} (hs : start ≤ now) :
    since grants start + potential l now m ≤
      l.burstCapacity + 1 + l.requestsPerSecond * (now - start) := by
  by_cases hg : ∃ grant ∈ grants, start ≤ grant
  · exact h.bounded start hg
  · rw [since_eq_zero hg]
    have hcap : (m.tokens : ℚ) ≤ l.burstCapacity := by exact_mod_cast h.capped
    have hpos : 0 ≤ (l.requestsPerSecond : ℚ) * (now - start) :=
      mul_nonneg (Nat.cast_nonneg _) (by linarith)
    unfold potential
    push_cast
    linarith

theorem Enforced.grant (h : Enforced l now m grants)
    (hfraction : l.requestsPerSecond * (now - m.lastRefill) < 1) (htokens : 0 < m.tokens) :
    Enforced l now
      { m with tokens := m.tokens - 1, requestTimestamps := m.requestTimestamps ++ [now] }
      (grants ++ [now]) := by
  have htaken : potential l now { m with
      tokens := m.tokens - 1, requestTimestamps := m.requestTimestamps ++ [now] } =
        potential l now m - 1 := by
    have hcast : ((m.tokens - 1 : ℕ) : ℚ) = m.tokens - 1 := by
      rw [Nat.cast_sub (by omega)]
      norm_num
    simp only [potential,hcast]
    ring
  have hpotential : 0 ≤ potential l now m - 1 := by
    have htokens' : (1 : ℚ) ≤ m.tokens := by exact_mod_cast htokens
    have hpos : 0 ≤ (l.requestsPerSecond : ℚ) * (now - m.lastRefill) :=
      mul_nonneg (Nat.cast_nonneg _) (sub_nonneg.mpr h.refilled)
    unfold potential
    linarith
  constructor
  case capped => exact (Nat.sub_le ..).trans h.capped
  case refilled => exact h.refilled
  case past =>
    intro grant hg
    rcases List.mem_append.mp hg with hg | hg
    · exact h.past grant hg
    · rw [List.mem_singleton.mp hg]
  case bounded =>
    intro start hs
    have hstart : start ≤ now := by
      obtain ⟨grant,hg,hle⟩ := hs
      rcases List.mem_append.mp hg with hg | hg
      · exact hle.trans (h.past grant hg)
      · rwa [← List.mem_singleton.mp hg]
    have hbound := h.bounded_grant hfraction hstart
    rw [htaken,since_append,if_pos hstart]
    push_cast
    linarith
  case window =>
    intro start stop hle
    rw [within_append]
    by_cases hin : start ≤ now ∧ now ≤ stop
    · have hbound := h.bounded_grant hfraction hin.1
      have hwithin : (within grants start stop : ℚ) ≤ since grants start := by
        exact_mod_cast within_le_since
      have hlonger : (l.requestsPerSecond : ℚ) * (now - start) ≤
          l.requestsPerSecond * (stop - start) :=
        mul_le_mul_of_nonneg_left (by linarith [hin.2]) (Nat.cast_nonneg _)
      rw [if_pos hin]
      push_cast
      linarith
    · rw [if_neg hin]
      simpa using h.window start stop hle
  case stamped =>
    obtain ⟨old,hgrants,hold⟩ := h.stamped
    exact ⟨old,by simp [hgrants],hold⟩

variable {T : Type} [DecidableEq T]

/-- Every act keeps the limiter within its rate. -/
theorem enforced_step (s : LimiterRun T) (a : LimiterAct T)
    (h : Enforced l s.now s.state s.grants) :
    Enforced l (s.step l a).now (s.step l a).state (s.step l a).grants := by
  cases a with
  | advance now =>
    simp only [step]
    split_ifs with hle
    · exact h.later hle
    · exact h
  | call task =>
    simp only [step]
    split_ifs <;> exact h
  | turn task =>
    simp only [step]
    split
    · split_ifs
      · obtain ⟨m,hm,hturn⟩ := acquireTurn_cases h.capped h.refilled
        have hrefilled := h.refill hm
        rcases hturn with ⟨htokens,hout⟩ | ⟨hnone,hout⟩
        · simp only [takeTurn,hout]
          exact hrefilled.grant hm.fraction htokens
        · rw [← hout] at hrefilled
          unfold takeTurn
          dsimp only
          split
          · contradiction
          · exact hrefilled
          · exact hrefilled
      · exact h
    · exact h

theorem enforced_run (start : ℚ) (acts : List (LimiterAct T)) :
    Enforced l (run l start acts).now (run l start acts).state (run l start acts).grants :=
  Steps.run_invariant (I := fun s : LimiterRun T => Enforced l s.now s.state s.grants)
    (enforced_new start)
    enforced_step acts

end Steps

/-- The statistics count the grants of the last second, in 32 bits. -/
theorem Enforced.stats (h : Enforced l now s grants) :
    (l.stats now s).requestsLastSecond = within grants (now - 1) now % 2^32 := by
  obtain ⟨old,rfl,hold⟩ := h.stamped
  have hcount : ∀ stamps : List ℚ, (∀ timestamp ∈ stamps, timestamp ≤ now) →
      within stamps (now - 1) now =
        stamps.countP (fun timestamp => durationSince now timestamp ≤ 1) := by
    intro stamps hpast
    apply List.countP_congr
    intro timestamp ht
    have hle := hpast timestamp ht
    rw [durationSince_eq hle]
    simp only [Bool.and_eq_true,decide_eq_true_eq,hle,and_true]
    constructor <;> intro <;> linarith
  have holdest : within old (now - 1) now = 0 := by
    rw [within,List.countP_eq_zero]
    intro grant hg
    have := hold grant hg
    simp only [Bool.and_eq_true,decide_eq_true_eq,not_and_or,not_le]
    left
    linarith
  have hstamps := hcount s.requestTimestamps (fun t ht => h.past t (List.mem_append_right _ ht))
  have hsplit : within (old ++ s.requestTimestamps) (now - 1) now =
      within old (now - 1) now + within s.requestTimestamps (now - 1) now := List.countP_append
  rw [hsplit,holdest,Nat.zero_add,hstamps]
  rfl

section Rush

/-- A call and its first turn. -/
def oneCall : List (LimiterAct Unit) := [.call (),.turn ()]

/-- As many calls as the bucket allows, and one more a second after the refill clock began. -/
def rush (n : Nat) : List (LimiterAct Unit) :=
  (List.replicate n oneCall).flatten ++ .advance 1 :: oneCall

/-- A full bucket of this size, refilled with one token a second. -/
def slow (burst : Nat) : RateLimiter := ⟨1,burst⟩

/-- Nobody waits, and the grants were all made at the start. -/
structure Emptied (burst n : Nat) (s : LimiterRun Unit) : Prop where
  now : s.now = 0
  acquiring : s.acquiring () = none
  state : s.state = ⟨burst-n,0,List.replicate n 0⟩
  grants : s.grants = List.replicate n 0

/-- A call that finds a token is granted. -/
theorem oneCall_granted {s : LimiterRun Unit} (hidle : s.acquiring () = none)
    (hturn : (l.acquireTurn s.now s.state).1 = .granted) :
    oneCall.foldl (step l) s = { s with
      state := (l.acquireTurn s.now s.state).2,
      acquiring := Function.update (Function.update s.acquiring () (some s.now)) () none,
      grants := s.grants ++ [s.now] } := by
  simp [oneCall,step,hidle,takeTurn,hturn]

/-- Timestamps of up to a second ago stay. -/
theorem prune_replicate {stamp : ℚ} (n : Nat) (hrecent : durationSince now stamp ≤ 1)
    (hs : s.requestTimestamps = List.replicate n stamp) : RateLimiter.prune now s = s := by
  have hkept : (List.replicate n stamp).dropWhile (fun timestamp =>
      durationSince now timestamp > 1) =
      List.replicate n stamp := by
    cases n with
    | zero => rfl
    | succ n => simp [List.replicate_succ,hrecent]
  cases s
  simp only at hs
  simp [RateLimiter.prune,hs,hkept]

theorem turn_at_start {burst n : Nat} (h : n < burst) :
    (slow burst).acquireTurn 0 ⟨burst-n,0,List.replicate n 0⟩ =
      (.granted,⟨burst-(n+1),0,List.replicate (n+1) 0⟩) := by
  have hnone : (slow burst).tokensToAdd (durationSince 0 0) = 0 := by
    simp [RateLimiter.tokensToAdd,durationSince]
  have hrefill : (slow burst).refill 0 ⟨burst-n,0,List.replicate n 0⟩ =
      ⟨burst-n,0,List.replicate n 0⟩ := by
    simp [RateLimiter.refill,hnone]
  have htokens : 0 < burst - n := by omega
  have hprune := prune_replicate (s := ⟨burst-n,0,List.replicate n 0⟩) n
    (show durationSince 0 0 ≤ 1 by simp [durationSince]) rfl
  simp only [RateLimiter.acquireTurn,hrefill,hprune,gt_iff_lt,htokens,↓reduceIte,
    List.replicate_succ',Prod.mk.injEq,RateLimiterState.mk.injEq,true_and,and_true]
  omega

theorem turn_a_second_later {burst : Nat} (h : 0 < burst) :
    (slow burst).acquireTurn 1 ⟨0,0,List.replicate burst 0⟩ =
      (.granted,⟨0,1,List.replicate burst 0 ++ [1]⟩) := by
  have hone : (slow burst).tokensToAdd (durationSince 1 0) = 1 := by
    simp [RateLimiter.tokensToAdd,durationSince,slow]
  have hrefill : (slow burst).refill 1 ⟨0,0,List.replicate burst 0⟩ =
      ⟨1,1,List.replicate burst 0⟩ := by
    have hmin : min 1 (slow burst).burstCapacity = 1 := by
      simp only [slow]
      omega
    simp [RateLimiter.refill,hone,hmin]
  have hprune := prune_replicate (s := ⟨1,1,List.replicate burst 0⟩) burst
    (show durationSince 1 0 ≤ 1 by simp [durationSince]) rfl
  simp [RateLimiter.acquireTurn,hrefill,hprune]

theorem emptied_run (burst n : Nat) (h : n ≤ burst) :
    Emptied burst n ((List.replicate n oneCall).flatten.foldl (step (slow burst))
      (begin (slow burst) 0)) := by
  induction n with
  | zero => exact ⟨rfl,rfl,rfl,rfl⟩
  | succ n ih =>
    have hbefore := ih (by omega)
    rw [List.replicate_succ',List.flatten_append,List.foldl_append]
    generalize (List.replicate n oneCall).flatten.foldl (step (slow burst)) (begin (slow burst) 0) =
      s at hbefore
    have hturn : (slow burst).acquireTurn s.now s.state =
        (.granted,⟨burst-(n+1),0,List.replicate (n+1) 0⟩) := by
      rw [hbefore.now,hbefore.state]
      exact turn_at_start (by omega)
    have hcall := oneCall_granted (l := slow burst) hbefore.acquiring (by rw [hturn])
    simp only [List.flatten_cons,List.flatten_nil,List.append_nil,hcall]
    exact ⟨hbefore.now,by simp,by rw [hturn],
      by rw [hbefore.grants,hbefore.now,List.replicate_succ']⟩

/-- After the rush the last second has seen one grant more than the bucket holds. -/
theorem rushed {burst : Nat} (h : 0 < burst) :
    (run (slow burst) 0 (rush burst)).granted ((run (slow burst) 0 (rush burst)).now - 1)
      (run (slow burst) 0 (rush burst)).now = burst + 1 := by
  have hbefore := emptied_run burst burst (le_refl burst)
  unfold run rush
  rw [List.foldl_append]
  generalize (List.replicate burst oneCall).flatten.foldl (step (slow burst))
    (begin (slow burst) 0) = s at hbefore
  have hclock : s.step (slow burst) (.advance 1) = { s with now := 1 } := by
    simp [step,hbefore.now]
  have hturn : (slow burst).acquireTurn 1 s.state =
      (.granted,⟨0,1,List.replicate burst 0 ++ [1]⟩) := by
    rw [hbefore.state,Nat.sub_self]
    exact turn_a_second_later h
  have hcall := oneCall_granted (l := slow burst) (s := { s with now := 1 }) hbefore.acquiring
      (by rw [hturn])
  rw [List.foldl_cons,hclock,hcall]
  simp [granted,hbefore.grants,List.countP_replicate]

end Rush

/-- The bucket never holds more than it may, no window sees more grants than a full bucket, the
refill of its length and one more, and the statistics tell the grants of the last second, in 32
bits. -/
theorem rate_enforced {T : Type} [DecidableEq T] (l : RateLimiter) (start : ℚ)
    (acts : List (LimiterAct T)) :
    (run l start acts).state.tokens ≤ l.burstCapacity ∧
    (∀ a b, a ≤ b → ((run l start acts).granted a b : ℚ) ≤
      l.burstCapacity + l.requestsPerSecond * (b - a) + 1) ∧
    (l.stats (run l start acts).now (run l start acts).state).requestsLastSecond =
      (run l start acts).granted ((run l start acts).now - 1) (run l start acts).now % 2^32 ∧
    (l.burstCapacity + l.requestsPerSecond + 1 < 2^32 →
      (l.stats (run l start acts).now (run l start acts).state).requestsLastSecond =
        (run l start acts).granted ((run l start acts).now - 1) (run l start acts).now) := by
  have henforced := enforced_run (l := l) start acts
  have hstats := henforced.stats
  refine ⟨henforced.capped,henforced.window,hstats,fun hfits => ?_⟩
  rw [hstats]
  apply Nat.mod_eq_of_lt
  have hwindow := henforced.window ((run l start acts).now - 1) (run l start acts).now (by linarith)
  have hsecond : within (run l start acts).grants ((run l start acts).now - 1)
      (run l start acts).now ≤
      l.burstCapacity + l.requestsPerSecond + 1 := by
    rw [sub_sub_cancel,mul_one] at hwindow
    exact_mod_cast hwindow
  exact lt_of_le_of_lt hsecond hfits

/-- A bucket of the largest size is emptied at once and gives one more grant within the second. -/
theorem full_rush_shows_zero : (run (slow (2^32-1)) 0 (rush (2^32-1))).granted
      ((run (slow (2^32-1)) 0 (rush (2^32-1))).now - 1)
        (run (slow (2^32-1)) 0 (rush (2^32-1))).now = 2^32 ∧
    ((slow (2^32-1)).stats (run (slow (2^32-1)) 0 (rush (2^32-1))).now
      (run (slow (2^32-1)) 0 (rush (2^32-1))).state).requestsLastSecond = 0 := by
  have hgranted := rushed (show 0 < 2^32-1 by norm_num)
  have hstats := (enforced_run (l := slow (2^32-1)) 0 (rush (2^32-1))).stats
  refine ⟨hgranted,?_⟩
  rw [hstats]
  unfold granted at hgranted
  rw [within,hgranted]
  norm_num

end SpreadArb.Proofs.Rate
