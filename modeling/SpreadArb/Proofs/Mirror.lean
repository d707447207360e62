import SpreadArb.PortfolioStore
import SpreadArb.Proofs.Ledger

namespace SpreadArb.Proofs.Mirror
open Interact

section Keys

theorem key_eq {a b : String} (last : String)
    (h : "strategy:" ++ a ++ last = "strategy:" ++ b ++ last) : a = b := by
  have hlists := congrArg String.toList h
  simp only [String.toList_append] at hlists
  exact String.toList_injective (List.append_cancel_left (List.append_cancel_right hlists))

theorem stateKey_inj {a b : String} (h : stateKey a = stateKey b) : a = b := key_eq _ h

theorem metricsKey_inj {a b : String} (h : metricsKey a = metricsKey b) : a = b := key_eq _ h

theorem stateKey_ne_metricsKey (a b : String) : stateKey a ≠ metricsKey b := by
  intro h
  have hlast := congrArg (fun s : String => s.toList.reverse.head?) h
  simp [stateKey,metricsKey,String.toList_append] at hlast

end Keys

section Readers

/-- The answers of a monitor so far, and the one to the first request of an update under way. -/
structure Seen where
  redisPrefix : String
  answers : List Reads
  half : Option (Except String Stored)

/-- How a monitor's requests go on. -/
inductive Reading : Option Seen → (op : StoreOp) → op.Ans → Option Seen → Prop
  | other {op r} : Reading none op r none
  | metrics {p answers} (r : Except String Stored) :
    Reading (some ⟨p,answers,none⟩) (.get (metricsKey p)) r (some ⟨p,answers,some r⟩)
  | state {p answers m} (r : Except String Stored) :
    Reading (some ⟨p,answers,some m⟩) (.get (stateKey p)) r (some ⟨p,answers ++ [⟨m,r⟩],none⟩)

/-- What a process has at the end. -/
def Saw : StoreProcess → StoreResult → Option Seen → Prop
  | .monitor p _, .watched answers, q => q = some ⟨p,answers,none⟩
  | .monitor .., _, _ => False
  | .manager .., _, q => q = none

theorem reads_reading (p : String) (answers : List Reads) :
    (TradingMonitor.reads p).Obeys (σ := storeSig) Reading
      (fun a q => q = some ⟨p,answers ++ [a],none⟩)
      (some ⟨p,answers,none⟩) :=
  fun m => ⟨_,.metrics m,fun s => ⟨_,.state s,rfl⟩⟩

theorem watch_reading (p : String) (turns : Nat) (answers : List Reads) :
    (TradingMonitor.watch p turns).Obeys (σ := storeSig) Reading
      (fun rest q => q = some ⟨p,answers ++ rest,none⟩) (some ⟨p,answers,none⟩) := by
  induction turns generalizing answers with
  | zero => exact congrArg (fun l => some (Seen.mk p l none)) (List.append_nil answers).symm
  | succ turns ih =>
    refine Prog.Obeys.bind (reads_reading p answers) ?_
    rintro first q rfl
    refine Prog.Obeys.bind (ih (answers ++ [first])) ?_
    rintro rest q rfl
    change some _ = some _
    rw [List.append_assoc]
    rfl

theorem body_reading (process : StoreProcess) :
    ∃ q, process.body.Obeys (σ := storeSig) Reading (Saw process) q ∧
      ∀ seen, q = some seen → seen.answers = [] ∧ seen.half = none := by
  cases process with
  | manager p capital calls =>
    exact ⟨none,Prog.Only.obeys (K := fun _ => True) (fun op r _ => .other) (Machine.only_true _)
      (fun _ => rfl),by simp⟩
  | monitor p turns =>
    refine ⟨some ⟨p,[],none⟩,?_,by simp⟩
    refine Prog.Obeys.bind (watch_reading p turns []) ?_
    rintro answers q rfl
    rfl

variable {env : Nat → StoreMove} {past : List (String → Option Stored)} {p : String}

/-- The two answers of an update, where there are any, are what the keys held at two moments in this
order. -/
def InOrder (past : List (String → Option Stored)) (p : String) (a : Reads) : Prop :=
  ∃ (i j : Nat) (x y : String → Option Stored), i ≤ j ∧ past[i]? = some x ∧ past[j]? = some y ∧
    (∀ m, a.metrics = .ok m → x (metricsKey p) = some m) ∧
      ∀ s, a.state = .ok s → y (stateKey p) = some s

/-- What a monitor has seen was there. -/
structure Honest (past : List (String → Option Stored)) (q : Seen) : Prop where
  answers : ∀ a ∈ q.answers, InOrder past q.redisPrefix a
  half : ∀ r, q.half = some r → ∃ (i : Nat) (x : String → Option Stored), past[i]? = some x ∧
    ∀ m, r = .ok m → x (metricsKey q.redisPrefix) = some m

theorem getElem?_later {x : String → Option Stored} {i : Nat} (h : past[i]? = some x)
    (y : String → Option Stored) : (past ++ [y])[i]? = some x := by
  rw [List.getElem?_append_left (List.getElem?_eq_some_iff.mp h).1]
  exact h

theorem InOrder.later {a : Reads} (h : InOrder past p a) (y : String → Option Stored) :
    InOrder (past ++ [y]) p a := by
  obtain ⟨i,j,x,z,hij,hi,hj,hm,hs⟩ := h
  exact ⟨i,j,x,z,hij,getElem?_later hi y,getElem?_later hj y,hm,hs⟩

theorem Honest.later {q : Seen} (h : Honest past q) (y : String → Option Stored) :
    Honest (past ++ [y]) q where
  answers a ha := (h.answers a ha).later y
  half r hr := by
    obtain ⟨i,x,hi,hm⟩ := h.half r hr
    exact ⟨i,x,getElem?_later hi y,hm⟩

theorem answer_get {move : StoreMove} {strings : String → Option Stored} {key : String}
    {value : Stored} (h : StoreWorld.answer move strings (.get key) = .ok value) :
    strings key = some value := by
  unfold StoreWorld.answer StoreWorld.reply at h
  dsimp only at h
  split at h
  · next kept hkept =>
    split at h
    · cases h
    · cases h
      exact hkept
  · cases h

/-- The state of the strings is the last one of the past. -/
def Present (w : StoreWorld) : Prop := ∃ earlier, w.past = earlier ++ [w.strings]

theorem present_serve (op : StoreOp) (w : StoreWorld) : Present (StoreWorld.serve env op w).2 :=
  ⟨w.past,rfl⟩

theorem Present.last {w : StoreWorld} (h : Present w) :
    w.past[w.past.length - 1]? = some w.strings := by
  obtain ⟨earlier,he⟩ := h
  simp [he]

/-- A request of a monitor's is answered with what is there. -/
theorem honest_step {w : StoreWorld} (hw : Present w) {q q' : Seen} {op : StoreOp}
    (h : Honest w.past q) (hmove : Reading (some q) op (StoreWorld.serve env op w).1 (some q')) :
    Honest (StoreWorld.serve env op w).2.past q' := by
  have hlast := hw.last
  have hlater := h.later (StoreWorld.written (env w.tick) w.strings op)
  cases hmove with
  | metrics r =>
    refine ⟨hlater.answers,?_⟩
    intro r hr
    cases hr
    exact ⟨_,_,getElem?_later hlast _,fun m hm => answer_get hm⟩
  | state r =>
    rename_i p answers m
    refine ⟨?_,by simp⟩
    intro a ha
    obtain ha | ha := List.mem_append.mp ha
    · exact hlater.answers a ha
    · rw [List.mem_singleton.mp ha]
      obtain ⟨i,x,hi,hm⟩ := h.half m rfl
      have hle : i ≤ w.past.length - 1 := by
        have hlt := (List.getElem?_eq_some_iff.mp hi).1
        omega
      exact ⟨i,_,x,_,hle,getElem?_later hi _,getElem?_later hlast _,hm,fun s hs => answer_get hs⟩

/-- Whatever a monitor was answered in an update was there, the metrics no later than the state. -/
theorem monitor_in_order (env : Nat → StoreMove) (strings : String → Option Stored)
    (acts : List (Act StoreProcess)) {n turns : Nat} {c : Call StoreProcess storeSig StoreResult}
    {answers : List Reads} (hc : (Desk.run env strings acts).calls[n]? = some c)
    (hlabel : c.label = .monitor p turns) (hresult : c.result = some (.watched answers)) :
    ∀ a ∈ answers, InOrder (Desk.run env strings acts).shared.past p a := by
  let J : Desk → List (Option Seen) → Prop := fun s ghosts => Present s.shared ∧
    ∀ (k : Nat) (q : Seen), ghosts[k]? = some (some q) → Honest s.shared.past q
  have hrun : ∃ ghosts, Pool.Tracked Reading Saw (Desk.run env strings acts) ghosts ∧
      J (Desk.run env strings acts) ghosts := by
    refine Pool.run_tracked (C := fun _ _ => True) ?_ ?_ (Pool.meets_true _ _ _ _)
      (Pool.tracked_new _) ⟨⟨[],rfl⟩,by simp⟩
    · intro s ghosts label _ _ hj
      obtain ⟨q,hobeys,hfresh⟩ := body_reading label
      refine ⟨q,hobeys,hj.1,?_⟩
      intro k seen hk
      obtain ⟨_,hq⟩ | hold := Pool.ghost_new.mp hk
      · obtain ⟨hanswers,hhalf⟩ := hfresh seen hq.symm
        exact ⟨by simp [hanswers],by simp [hhalf]⟩
      · exact hj.2 k seen hold
    · intro s ghosts k label op next q q' _ _ hj hcall hq hmove
      refine ⟨present_serve op s.shared,?_⟩
      intro i seen hi
      obtain ⟨_,hseen⟩ | ⟨_,hold⟩ := (Pool.ghost_set hq).mp hi
      · cases q with
        | none =>
          cases hmove
          cases hseen
        | some before =>
          subst hseen
          exact honest_step hj.1 (hj.2 k before hq) hmove
      · exact (hj.2 i seen hold).later _
  obtain ⟨ghosts,htracked,_,hhonest⟩ := hrun
  obtain ⟨q,hq,hsaw⟩ := htracked.result hc hresult
  rw [hlabel] at hsaw
  cases hsaw
  exact (hhonest n _ hq).answers

end Readers

section Versions

/-- The call as it is made at this time. -/
def timed (secs : Nat) : ManagerCall → PortfolioCall
  | .openTrade trade => .openTrade trade
  | .closeTrade id actualProfit exitReason => .closeTrade id actualProfit exitReason secs

/-- The state after so many of the calls, made at these times. -/
def stateAt (capital : ℚ) (calls : List ManagerCall) (secs : Nat → Nat) : Nat → PortfolioState
  | 0 => .new capital
  | k+1 =>
    match calls[k]? with
    | some c => ((stateAt capital calls secs k).call {} (timed (secs k) c)).2
    | none => stateAt capital calls secs k

theorem stateAt_congr {capital : ℚ} {calls : List ManagerCall} {secs secs' : Nat → Nat} {k : Nat}
    (h : ∀ i < k, secs' i = secs i) :
    stateAt capital calls secs' k = stateAt capital calls secs k := by
  induction k with
  | zero => rfl
  | succ k ih =>
    rw [stateAt,stateAt,ih (fun i hi => h i (Nat.lt_succ_of_lt hi)),h k (Nat.lt_succ_self k)]

end Versions

section Writers

/-- How far Redis is behind a manager. -/
inductive Stage where
  /-- What an earlier program has left is still there. -/
  | fresh
  | cleared
  /-- The state is there. -/
  | synced
  /-- The state and its metrics are there. -/
  | mirrored
  /-- The deletion has failed. -/
  | over
deriving DecidableEq

/-- A manager, the calls it has told Redis about, and the times of the closes among them. -/
structure Diary where
  redisPrefix : String
  capital : ℚ
  calls : List ManagerCall
  secs : Nat → Nat
  made : Nat
  stage : Stage

namespace Diary

def version (d : Diary) (k : Nat) : PortfolioState := stateAt d.capital d.calls d.secs k

/-- The diary goes on. -/
structure Continued (d d' : Diary) : Prop where
  prefix_eq : d'.redisPrefix = d.redisPrefix
  capital_eq : d'.capital = d.capital
  calls_eq : d'.calls = d.calls
  made_le : d.made ≤ d'.made
  secs_eq : ∀ i < d.made, d'.secs i = d.secs i

theorem Continued.refl (d : Diary) : Continued d d := ⟨rfl,rfl,rfl,le_rfl,fun _ _ => rfl⟩

theorem Continued.trans {a b c : Diary} (h : Continued a b) (k : Continued b c) :
    Continued a c where
  prefix_eq := k.prefix_eq.trans h.prefix_eq
  capital_eq := k.capital_eq.trans h.capital_eq
  calls_eq := k.calls_eq.trans h.calls_eq
  made_le := h.made_le.trans k.made_le
  secs_eq i hi := (k.secs_eq i (hi.trans_le h.made_le)).trans (h.secs_eq i hi)

theorem Continued.version_eq {d d' : Diary} (h : Continued d d') {k : Nat} (hk : k ≤ d.made) :
    d'.version k = d.version k := by
  unfold version
  rw [h.capital_eq,h.calls_eq]
  exact stateAt_congr (fun i hi => h.secs_eq i (hi.trans_le hk))

end Diary

open Diary

/-- How a manager's requests go on. Monitors only read. -/
inductive Writing : Option Diary → (op : StoreOp) → op.Ans → Option Diary → Prop
  | reads {key} (r) : Writing none (.get key) r none
  | clock {d d'} (r) (later : Continued d d') (stage_eq : d'.stage = d.stage)
    (made_eq : d'.made = d.made) :
    Writing (some d) .systemTime r (some d')
  | clears {d} (r : Except String Unit) (fresh : d.stage = .fresh) :
    Writing (some d) (.del [stateKey d.redisPrefix,metricsKey d.redisPrefix]) r
      (some { d with stage := if r.isOk then .cleared else .over })
  | logs {d d' key entry} (r) (later : Continued d d') (before : d.stage = .cleared ∨
    d.stage = .mirrored)
    (stage_eq : d'.stage = .cleared) : Writing (some d) (.lpush key entry) r (some d')
  | state {d} (r : Except String Unit) (before : d.stage = .cleared) :
    Writing (some d) (.set (stateKey d.redisPrefix) (.state (d.version d.made))) r
      (some { d with stage := if r.isOk then .synced else .cleared })
  | metrics {d} (elapsed : Nat) (r : Except String Unit) (before : d.stage = .synced) :
    Writing (some d) (.set (metricsKey d.redisPrefix)
      (.metrics ((d.version d.made).getPortfolioMetrics elapsed))) r
      (some { d with stage := if r.isOk then .mirrored else .cleared })

/-- A manager between two of its calls. -/
structure Between (d : Diary) (m : PortfolioManager) (k : Nat) : Prop where
  prefix_eq : m.redisPrefix = d.redisPrefix
  made_le : d.made ≤ k
  state_eq : m.state = d.version k
  stage : d.stage = .cleared ∨ d.stage = .mirrored
  mirrored : d.stage = .mirrored → m.state = d.version d.made

/-- The state of the portfolio is written, and then its metrics. -/
theorem persistState_writing (d : Diary) (m : PortfolioManager)
    (hkey : m.redisPrefix = d.redisPrefix) (hstate : m.state = d.version d.made)
    (hstage : d.stage = .cleared) :
    Prog.Obeys (σ := storeSig) Writing (fun (r : Except String Unit) q =>
      ∃ stage, q = some { d with stage } ∧ (stage = .cleared ∨ stage = .mirrored) ∧
      (r = .ok () → stage = .mirrored)) m.persistState (some d) := by
  intro r
  rw [hkey,hstate]
  refine ⟨_,.state r hstage,?_⟩
  cases r with
  | error e => exact ⟨.cleared,rfl,.inl rfl,by simp⟩
  | ok u =>
    intro secs
    refine ⟨_,.clock secs (.refl _) rfl rfl,?_⟩
    intro r
    refine ⟨_,.metrics (secs - m.startTime) r rfl,?_⟩
    cases r with
    | error e => exact ⟨.cleared,rfl,.inl rfl,by simp⟩
    | ok u => exact ⟨.mirrored,rfl,.inr rfl,by simp⟩

/-- A call has been made. -/
structure Called (d : Diary) (k : Nat) (out : Except PortfolioError Unit × PortfolioManager)
    (d' : Diary) : Prop where
  later : Continued d d'
  between : Between d' out.2 (k+1)
  kept : d.stage = .mirrored → (∀ e, out.1 ≠ .error (.redis e)) → d'.stage = .mirrored

/-- The end of a call that has changed the state. -/
theorem tell_writing {d : Diary} {m : PortfolioManager} {k : Nat}
    (hkey : m.redisPrefix = d.redisPrefix) (hmade : d.made ≤ k)
    (hstage : d.stage = .cleared ∨ d.stage = .mirrored) (hstate : m.state = d.version (k+1))
    (key : String) (entry : TradeLogEntry) :
    (m.tell (Store.lpush key entry)).Obeys (σ := storeSig) Writing (fun out q => ∃ d', q = some d' ∧
      Called d k out d' ∧ (out.1 = .ok () → d'.stage = .mirrored)) (some d) := by
  have hlater : ∀ stage, Continued d { d with made := k+1, stage } :=
    fun stage => ⟨rfl,rfl,rfl,hmade.trans (Nat.le_succ k),fun _ _ => rfl⟩
  have hbetween : ∀ stage, stage = .cleared ∨ stage = .mirrored →
      Between { d with made := k+1, stage } m (k+1) :=
    fun stage h => ⟨hkey,le_rfl,hstate,h,fun _ => hstate⟩
  have hfailed : ∀ (e : String) stage, stage = .cleared ∨ stage = .mirrored →
      Called d k (.error (.redis e),m) { d with made := k+1, stage } :=
    fun e stage h => ⟨hlater stage,hbetween stage h,fun _ hnone => absurd rfl (hnone e)⟩
  intro r
  refine ⟨_,.logs r (hlater .cleared) hstage rfl,?_⟩
  cases r with
  | error e => exact ⟨_,rfl,hfailed e .cleared (.inl rfl),by simp [Except.mapError]⟩
  | ok u =>
    refine Prog.Obeys.bind (persistState_writing { d with made := k+1, stage := .cleared } m hkey
      hstate rfl) ?_
    rintro r q ⟨stage,rfl,hsome,hok⟩
    cases r with
    | error e => exact ⟨_,rfl,hfailed e stage hsome,by simp [Except.mapError]⟩
    | ok u =>
      rw [hok rfl]
      exact ⟨_,rfl,⟨hlater _,hbetween _ (.inr rfl),fun _ _ => rfl⟩,fun _ => rfl⟩

theorem version_succ {d : Diary} {k : Nat} {c : ManagerCall} (hc : d.calls[k]? = some c) :
    d.version (k+1) = ((d.version k).call {} (timed (d.secs k) c)).2 := by
  simp only [version,stateAt,hc]

theorem openTrade_writing {d : Diary} {m : PortfolioManager} {k : Nat} {trade : PaperTrade}
    (h : Between d m k) (hc : d.calls[k]? = some (.openTrade trade)) :
    (m.openTrade trade).Obeys (σ := storeSig) Writing (fun out q => ∃ d', q = some d' ∧
      Called d k out d' ∧ (out.1 = .ok () → d'.stage = .mirrored)) (some d) := by
  have hnext := version_succ hc
  rw [← h.state_eq] at hnext
  unfold PortfolioManager.openTrade
  cases ho : m.state.openTrade trade with
  | error e =>
    have hsame : d.version (k+1) = m.state := by
      rw [hnext]
      simp [timed,PortfolioState.call,ho]
    refine ⟨d,rfl,⟨.refl d,?_,fun hs _ => hs⟩,by simp⟩
    exact ⟨h.prefix_eq,h.made_le.trans (Nat.le_succ k),hsame.symm,h.stage,h.mirrored⟩
  | ok state =>
    have hstate : state = d.version (k+1) := by
      rw [hnext]
      simp [timed,PortfolioState.call,ho]
    exact tell_writing (m := { m with state }) h.prefix_eq h.made_le h.stage hstate _ _

theorem closeTrade_found {s s' : PortfolioState} {id : TradeId} {profit : ℚ} {reason : ExitReason}
    {secs : Nat} (h : s.closeTrade id profit reason secs = some s') :
    ∃ trade, s.activeTrades.find? (fun t => t.id = id) = some trade := by
  unfold PortfolioState.closeTrade at h
  split at h
  · next hfind => exact ⟨_,hfind⟩
  · cases h

theorem closeTrade_writing {d : Diary} {m : PortfolioManager} {k : Nat} {id : TradeId} {profit : ℚ}
    {reason : ExitReason} (h : Between d m k)
    (hc : d.calls[k]? = some (.closeTrade id profit reason)) :
    (m.closeTrade id profit reason).Obeys (σ := storeSig) Writing (fun out q => ∃ d', q = some d' ∧
      Called d k out d')
      (some d) := by
  intro exitTime
  have hbelow : ∀ i < k, Function.update d.secs k exitTime i = d.secs i :=
    fun i hi => Function.update_of_ne hi.ne exitTime d.secs
  have hlater : Continued d { d with secs := Function.update d.secs k exitTime } :=
    ⟨rfl,rfl,rfl,le_rfl,fun i hi => hbelow i (hi.trans_le h.made_le)⟩
  refine ⟨_,.clock exitTime hlater rfl rfl,?_⟩
  have hstate : m.state = stateAt d.capital d.calls (Function.update d.secs k exitTime) k := by
    rw [stateAt_congr hbelow]
    exact h.state_eq
  have hmirrored : d.stage = .mirrored → m.state =
      { d with secs := Function.update d.secs k exitTime }.version d.made := by
    intro hs
    rw [hlater.version_eq le_rfl]
    exact h.mirrored hs
  have hnext := version_succ (d := { d with secs := Function.update d.secs k exitTime }) hc
  have htime : Function.update d.secs k exitTime k = exitTime := Function.update_self ..
  have hversion : { d with secs := Function.update d.secs k exitTime }.version k = m.state :=
    hstate.symm
  simp only [htime,hversion,timed,PortfolioState.call] at hnext
  change Prog.Obeys _ _ (m.closeTradeAt id profit reason exitTime) _
  unfold PortfolioManager.closeTradeAt
  cases hclose : m.state.closeTrade id profit reason exitTime with
  | none =>
    rw [hclose] at hnext
    refine ⟨_,rfl,hlater,?_,fun hs _ => hs⟩
    exact ⟨h.prefix_eq,h.made_le.trans (Nat.le_succ k),hnext.symm,h.stage,hmirrored⟩
  | some state =>
    rw [hclose] at hnext
    obtain ⟨trade,hfind⟩ := closeTrade_found hclose
    rw [hfind]
    dsimp only
    have htell := tell_writing (d := { d with secs := Function.update d.secs k exitTime })
        (m := { m with state })
      h.prefix_eq h.made_le h.stage hnext.symm
    refine Prog.Obeys.mono (htell "strategy:trade_log:exits" _) ?_
    rintro out q ⟨d',rfl,hcalled,_⟩
    exact ⟨d',rfl,hlater.trans hcalled.later,hcalled.between,hcalled.kept⟩

theorem call_writing {d : Diary} {m : PortfolioManager} {k : Nat} {c : ManagerCall}
    (h : Between d m k) (hc : d.calls[k]? = some c) :
    (m.call c).Obeys (σ := storeSig) Writing (fun out q => ∃ d', q = some d' ∧ Called d k out d' ∧
      ((∃ trade, c = .openTrade trade) → out.1 = .ok () → d'.stage = .mirrored)) (some d) := by
  cases c with
  | openTrade trade =>
    refine Prog.Obeys.mono (openTrade_writing h hc) ?_
    rintro out q ⟨d',rfl,hcalled,hok⟩
    exact ⟨d',rfl,hcalled,fun _ => hok⟩
  | closeTrade id profit reason =>
    refine Prog.Obeys.mono (closeTrade_writing h hc) ?_
    rintro out q ⟨d',rfl,hcalled⟩
    exact ⟨d',rfl,hcalled,by simp⟩

/-- The last call is an open that was accepted. -/
def LastOpened (calls : List ManagerCall) (results : List (Except PortfolioError Unit)) : Prop :=
  ∃ trade, calls.getLast? = some (.openTrade trade) ∧ results.getLast? = some (.ok ())

/-- What so many calls of a manager have left. -/
structure CalledAll (d : Diary) (k : Nat) (calls : List ManagerCall)
    (out : List (Except PortfolioError Unit) × PortfolioManager) (d' : Diary) : Prop where
  later : Continued d d'
  between : Between d' out.2 (k+calls.length)
  length_eq : out.1.length = calls.length
  kept : d.stage = .mirrored → (∀ e, .error (.redis e) ∉ out.1) → d'.stage = .mirrored
  opened : LastOpened calls out.1 → d'.stage = .mirrored

/-- The calls of a manager, by induction on those that are left. -/
theorem calls_writing {d : Diary} {m : PortfolioManager} {k : Nat} (h : Between d m k)
    {rest : List ManagerCall} (hrest : d.calls.drop k = rest) :
    (m.calls rest).Obeys (σ := storeSig) Writing (fun out q => ∃ d', q = some d' ∧
      CalledAll d k rest out d')
      (some d) := by
  induction rest generalizing d m k with
  | nil =>
    refine ⟨d,rfl,.refl d,h,rfl,fun hs _ => hs,?_⟩
    rintro ⟨trade,hlast,_⟩
    cases hlast
  | cons c rest ih =>
    have hc : d.calls[k]? = some c := by
      have hhead := congrArg List.head? hrest
      simpa [List.head?_drop] using hhead
    refine Prog.Obeys.bind (call_writing h hc) ?_
    rintro ⟨result,m'⟩ q ⟨d₁,rfl,hcalled,hopened⟩
    have hdrop : d₁.calls.drop (k+1) = rest := by
      rw [hcalled.later.calls_eq,← List.drop_drop,hrest]
      rfl
    refine Prog.Obeys.bind (ih hcalled.between hdrop) ?_
    rintro ⟨results,m''⟩ q ⟨d₂,rfl,hall⟩
    refine ⟨d₂,rfl,hcalled.later.trans hall.later,?_,?_,?_,?_⟩
    · rw [List.length_cons,Nat.add_comm rest.length,← Nat.add_assoc]
      exact hall.between
    · exact congrArg (· + 1) hall.length_eq
    · intro hs hnone
      apply hall.kept
      · exact hcalled.kept hs (fun e he => hnone e (by simp [← he]))
      · exact fun e he => hnone e (List.mem_cons_of_mem _ he)
    · rintro ⟨trade,hlast,hok⟩
      cases rest with
      | nil =>
        have hnil : results = [] := List.length_eq_zero_iff.mp hall.length_eq
        subst hnil
        simp only [List.getLast?_singleton,Option.some.injEq] at hlast hok
        exact hall.kept (hopened ⟨trade,hlast⟩ hok) (by simp)
      | cons next rest =>
        apply hall.opened
        refine ⟨trade,?_,?_⟩
        · simpa using hlast
        · obtain ⟨second,others,rfl⟩ := List.exists_cons_of_length_eq_add_one hall.length_eq
          simpa using hok

/-- The diary of a manager that has not done anything yet. -/
def begun (p : String) (capital : ℚ) (calls : List ManagerCall) : Diary :=
  ⟨p,capital,calls,fun _ => 0,0,.fresh⟩

/-- Either no call has returned an error of Redis's, or the last one is an open that was
accepted. -/
def InLine (calls : List ManagerCall) (results : List (Except PortfolioError Unit)) : Prop :=
  (∀ e, .error (.redis e) ∉ results) ∨ LastOpened calls results

/-- What a process has left at its end. -/
structure Wrote (calls : List ManagerCall) (result : StoreResult) (d : Diary) : Prop where
  state_eq : ∀ results m, result = .managed results m → m.state = d.version calls.length
  mirrored : ∀ results m, result = .managed results m → InLine calls results →
    d.stage = .mirrored ∧ m.state = d.version d.made

theorem new_writing (p : String) (capital : ℚ) (calls : List ManagerCall) :
    Prog.Obeys (σ := storeSig) Writing
      (Machine.Ends (fun q => ∃ d', q = some d' ∧ Continued (begun p capital calls) d') (fun m q =>
      ∃ d', q = some d' ∧ Continued (begun p capital calls) d' ∧ Between d' m 0 ∧
      d'.stage = .mirrored))
      (PortfolioManager.new p capital : Prog storeSig (Except String PortfolioManager))
        (some (begun p capital calls)) := by
  have hlater : ∀ stage, Continued (begun p capital calls) { begun p capital calls with stage } :=
    fun _ => ⟨rfl,rfl,rfl,le_rfl,fun _ _ => rfl⟩
  refine Prog.Obeys.exceptBind (R := fun _ q => q = some (begun p capital calls)) ?_ ?_
  · intro startTime
    exact ⟨_,.clock startTime (.refl _) rfl rfl,rfl⟩
  rintro startTime q rfl
  refine Prog.Obeys.exceptBind (R := fun _ q =>
    q = some { begun p capital calls with stage := .cleared }) ?_ ?_
  · intro r
    refine ⟨_,.clears r rfl,?_⟩
    cases r with
    | error e => exact ⟨_,rfl,hlater _⟩
    | ok u => rfl
  rintro _ q rfl
  refine Prog.Obeys.exceptBind (R := fun _ q =>
    q = some { begun p capital calls with stage := .mirrored }) ?_ ?_
  · refine Prog.Obeys.mono (persistState_writing { begun p capital calls with stage := .cleared }
      ⟨p,startTime,.new capital⟩ rfl rfl rfl) ?_
    rintro r q ⟨stage,rfl,_,hok⟩
    cases r with
    | error e => exact ⟨_,rfl,hlater stage⟩
    | ok u =>
      rw [hok rfl]
      rfl
  · rintro _ q rfl
    exact ⟨_,rfl,hlater .mirrored,⟨rfl,le_rfl,rfl,.inr rfl,fun _ => rfl⟩,rfl⟩

theorem manager_writing (p : String) (capital : ℚ) (calls : List ManagerCall) :
    (StoreProcess.manager p capital calls).body.Obeys (σ := storeSig) Writing
      (fun result q => ∃ d', q = some d' ∧ Continued (begun p capital calls) d' ∧
        Wrote calls result d')
      (some (begun p capital calls)) := by
  refine Prog.Obeys.bind (new_writing p capital calls) ?_
  intro r q hr
  cases r with
  | error e =>
    obtain ⟨d',rfl,hlater⟩ := hr
    exact ⟨d',rfl,hlater,⟨by simp,by simp⟩⟩
  | ok m =>
    obtain ⟨d₁,rfl,hlater,hbetween,hmirrored⟩ := hr
    have hcalls : d₁.calls.drop 0 = calls := hlater.calls_eq
    refine Prog.Obeys.bind (calls_writing hbetween hcalls) ?_
    rintro ⟨results,m'⟩ q ⟨d₂,rfl,hall⟩
    refine ⟨d₂,rfl,hlater.trans hall.later,?_,?_⟩
    · intro results' m'' h
      cases h
      simpa using hall.between.state_eq
    · intro results' m'' h hline
      cases h
      have hs : d₂.stage = .mirrored := by
        obtain hnone | hlast := hline
        · exact hall.kept hmirrored hnone
        · exact hall.opened hlast
      exact ⟨hs,hall.between.mirrored hs⟩

theorem monitor_writing (p : String) (turns : Nat) :
    (StoreProcess.monitor p turns).body.Obeys (σ := storeSig) Writing
      (fun _ q => q = none) none := by
  have honly : (StoreProcess.monitor p turns).body.Only (fun op : StoreOp =>
      ∃ key, op = .get key) := by
    have hwatch : (TradingMonitor.watch p turns).Only (σ := storeSig) (fun op : StoreOp =>
        ∃ key, op = .get key) := by
      induction turns with
      | zero => trivial
      | succ turns ih =>
        refine Prog.Only.bind ⟨⟨_,rfl⟩,fun _ => ⟨⟨_,rfl⟩,fun _ => trivial⟩⟩ (fun first => ?_)
        exact Prog.Only.bind ih (fun rest => trivial)
    exact Prog.Only.bind hwatch (fun answers => trivial)
  refine Prog.Only.obeys ?_ honly (fun _ => rfl)
  rintro op r ⟨key,rfl⟩
  exact .reads r

end Writers

section Contents

open Diary

variable {env : Nat → StoreMove} {init : String → Option Stored} {d d' : Diary} {w : StoreWorld}

/-- What metrics may have been there by the time that this is the state. Either may be left from an
earlier program. -/
structure Ordered (init : String → Option Stored) (d : Diary)
    (metrics state : Option Stored) : Prop where
  kept : state = none ∨ state = init (stateKey d.redisPrefix) ∨
    ∃ k ≤ d.made, state = some (.state (d.version k))
  newer : metrics = none ∨ metrics = init (metricsKey d.redisPrefix) ∨
    ∃ i k elapsed, i ≤ k ∧ k ≤ d.made ∧
    metrics = some (.metrics ((d.version i).getPortfolioMetrics elapsed)) ∧
      state = some (.state (d.version k))

theorem Ordered.later {metrics state : Option Stored} (h : Ordered init d metrics state)
    (hd : Continued d d') : Ordered init d' metrics state where
  kept := by
    obtain hnone | hinit | ⟨k,hk,hstate⟩ := h.kept
    · exact .inl hnone
    · rw [hd.prefix_eq]
      exact .inr (.inl hinit)
    · refine .inr (.inr ⟨k,hk.trans hd.made_le,?_⟩)
      rw [hd.version_eq hk]
      exact hstate
  newer := by
    obtain hnone | hinit | ⟨i,k,elapsed,hik,hk,hmetrics,hstate⟩ := h.newer
    · exact .inl hnone
    · rw [hd.prefix_eq]
      exact .inr (.inl hinit)
    · refine .inr (.inr ⟨i,k,elapsed,hik,hk.trans hd.made_le,?_,?_⟩)
      · rw [hd.version_eq (hik.trans hk)]
        exact hmetrics
      · rw [hd.version_eq hk]
        exact hstate

/-- The present version is at least as new as any metrics. -/
theorem Ordered.update {metrics state : Option Stored} (h : Ordered init d metrics state) :
    Ordered init d metrics (some (.state (d.version d.made))) where
  kept := .inr (.inr ⟨d.made,le_rfl,rfl⟩)
  newer := by
    obtain hnone | hinit | ⟨i,k,elapsed,hik,hk,hmetrics,_⟩ := h.newer
    · exact .inl hnone
    · exact .inr (.inl hinit)
    · exact .inr (.inr ⟨i,d.made,elapsed,hik.trans hk,le_rfl,hmetrics,rfl⟩)

/-- What the two keys of a manager have held. -/
structure Traced (init : String → Option Stored) (d : Diary) (strings : String → Option Stored)
    (past : List (String → Option Stored)) : Prop where
  ordered : ∀ (i j : Nat) (x y : String → Option Stored), i ≤ j → past[i]? = some x →
    past[j]? = some y →
    Ordered init d (x (metricsKey d.redisPrefix)) (y (stateKey d.redisPrefix))
  fresh : d.stage = .fresh → ∀ x ∈ past, x (metricsKey d.redisPrefix) =
    init (metricsKey d.redisPrefix) ∧
    x (stateKey d.redisPrefix) = init (stateKey d.redisPrefix)
  synced : d.stage = .synced ∨ d.stage = .mirrored → strings (stateKey d.redisPrefix) =
    some (.state (d.version d.made))
  mirrored : d.stage = .mirrored → ∃ elapsed, strings (metricsKey d.redisPrefix) =
    some (.metrics ((d.version d.made).getPortfolioMetrics elapsed))

/-- What was there before is in order with the present state. -/
theorem Traced.present {strings : String → Option Stored} {past : List (String → Option Stored)}
    (h : Traced init d strings past) (hlast : past[past.length - 1]? = some strings)
    {x : String → Option Stored} (hx : x ∈ past) :
    Ordered init d (x (metricsKey d.redisPrefix)) (strings (stateKey d.redisPrefix)) := by
  obtain ⟨i,hi⟩ := List.mem_iff_getElem?.mp hx
  have hlt := (List.getElem?_eq_some_iff.mp hi).1
  exact h.ordered i _ x strings (by omega) hi hlast

/-- Another state of the strings that is in order with all before. -/
theorem ordered_append {past : List (String → Option Stored)} {metrics state : String}
    {next : String → Option Stored}
    (hold : ∀ (i j : Nat) (x y : String → Option Stored), i ≤ j → past[i]? = some x →
    past[j]? = some y → Ordered init d (x metrics) (y state))
    (hnew : ∀ x ∈ past, Ordered init d (x metrics) (next state))
    (hself : Ordered init d (next metrics) (next state)) :
    ∀ (i j : Nat) (x y : String → Option Stored), i ≤ j → (past ++ [next])[i]? = some x →
      (past ++ [next])[j]? = some y →
      Ordered init d (x metrics) (y state) := by
  intro i j x y hij hi hj
  obtain ⟨rfl,rfl⟩ | hj := Pool.ghost_new.mp hj
  · obtain ⟨_,rfl⟩ | hi := Pool.ghost_new.mp hi
    · exact hself
    · exact hnew x (List.mem_of_getElem? hi)
  · obtain ⟨rfl,_⟩ | hi := Pool.ghost_new.mp hi
    · have hlt := (List.getElem?_eq_some_iff.mp hj).1
      omega
    · exact hold i j x y hij hi hj

theorem Traced.ordered_later {strings : String → Option Stored}
    {past : List (String → Option Stored)} (h : Traced init d strings past) (hd : Continued d d')
    (i j : Nat) (x y : String → Option Stored) (hij : i ≤ j) (hi : past[i]? = some x)
    (hj : past[j]? = some y) :
    Ordered init d' (x (metricsKey d'.redisPrefix)) (y (stateKey d'.redisPrefix)) := by
  rw [hd.prefix_eq]
  exact (h.ordered i j x y hij hi hj).later hd

/-- A request that leaves the two keys as they are. -/
theorem Traced.keep {strings next : String → Option Stored} {past : List (String → Option Stored)}
    (h : Traced init d strings past) (hlast : past[past.length - 1]? = some strings)
    (hd : Continued d d') (hstage : (d'.stage = .cleared ∨ d'.stage = .over) ∨ d'.stage = d.stage ∧
    d'.made = d.made) (hstate : next (stateKey d.redisPrefix) = strings (stateKey d.redisPrefix))
    (hmetrics : next (metricsKey d.redisPrefix) = strings (metricsKey d.redisPrefix)) :
    Traced init d' next (past ++ [next]) where
  ordered := by
    apply ordered_append (h.ordered_later hd)
    · intro x hx
      rw [hd.prefix_eq,hstate]
      exact (h.present hlast hx).later hd
    · rw [hd.prefix_eq,hstate,hmetrics]
      exact (h.present hlast (List.mem_of_getElem? hlast)).later hd
  fresh hs x hx := by
    obtain (hquiet | hquiet) | ⟨hsame,_⟩ := hstage
    · simp [hquiet] at hs
    · simp [hquiet] at hs
    · have hold := h.fresh (hsame ▸ hs)
      rw [hd.prefix_eq]
      obtain hx | hx := List.mem_append.mp hx
      · exact hold x hx
      · rw [List.mem_singleton.mp hx,hstate,hmetrics]
        exact hold strings (List.mem_of_getElem? hlast)
  synced hs := by
    obtain (hquiet | hquiet) | ⟨hsame,hmade⟩ := hstage
    · simp [hquiet] at hs
    · simp [hquiet] at hs
    · rw [hsame] at hs
      rw [hd.prefix_eq,hstate,hmade,hd.version_eq le_rfl]
      exact h.synced hs
  mirrored hs := by
    obtain (hquiet | hquiet) | ⟨hsame,hmade⟩ := hstage
    · simp [hquiet] at hs
    · simp [hquiet] at hs
    · rw [hsame] at hs
      obtain ⟨elapsed,he⟩ := h.mirrored hs
      rw [hd.prefix_eq,hmetrics,hmade,hd.version_eq le_rfl]
      exact ⟨elapsed,he⟩

/-- A command that was not carried out was not answered either. -/
theorem reply_lost {move : StoreMove} {r : Except String Unit} (h : StoreWorld.reply move () = r)
    (hlost : StoreWorld.carriedOut move = false) : r.isOk = false := by
  unfold StoreWorld.carriedOut at hlost
  unfold StoreWorld.reply at h
  cases hf : move.failure with
  | none => simp [hf] at hlost
  | some e =>
    rw [← h,hf]
    rfl

theorem traced_clears {r : Except String Unit} (h : Traced init d w.strings w.past) (hw : Present w)
    (fresh : d.stage = .fresh) :
    Traced init { d with stage := if r.isOk then .cleared else .over }
      (StoreWorld.serve env (.del [stateKey d.redisPrefix,metricsKey d.redisPrefix]) w).2.strings
      (StoreWorld.serve env (.del [stateKey d.redisPrefix,metricsKey d.redisPrefix]) w).2.past := by
  have hlater : Continued d { d with stage := if r.isOk then .cleared else .over } :=
    ⟨rfl,rfl,rfl,le_rfl,fun _ _ => rfl⟩
  have hquiet : (if r.isOk then Stage.cleared else .over) = .cleared ∨
      (if r.isOk then Stage.cleared else .over) = .over := by
    split
    · exact .inl rfl
    · exact .inr rfl
  by_cases hdone : StoreWorld.carriedOut (env w.tick) = true
  · refine ⟨ordered_append (h.ordered_later hlater) ?_ ?_,?_,?_,?_⟩
    · intro x hx
      constructor
      · simp [StoreWorld.written,hdone]
      · exact .inr (.inl (h.fresh fresh x hx).1)
    · constructor
      all_goals simp [StoreWorld.written,hdone]
    · intro hs
      obtain hquiet | hquiet := hquiet
      all_goals simp [hquiet] at hs
    · intro hs
      obtain hquiet | hquiet := hquiet
      all_goals simp [hquiet] at hs
    · intro hs
      obtain hquiet | hquiet := hquiet
      all_goals simp [hquiet] at hs
  · have hlost : StoreWorld.carriedOut (env w.tick) = false := by simpa using hdone
    exact h.keep hw.last hlater (.inl hquiet) (by simp [StoreWorld.serve,StoreWorld.written,hlost])
      (by simp [StoreWorld.serve,StoreWorld.written,hlost])

theorem traced_state {r : Except String Unit} (h : Traced init d w.strings w.past) (hw : Present w)
    (hr : StoreWorld.reply (env w.tick) () = r) :
    Traced init { d with stage := if r.isOk then .synced else .cleared }
      (StoreWorld.serve env (.set (stateKey d.redisPrefix) (.state (d.version d.made))) w).2.strings
      (StoreWorld.serve env (.set (stateKey d.redisPrefix) (.state (d.version d.made)))
        w).2.past := by
  have hlater : Continued d { d with stage := if r.isOk then .synced else .cleared } :=
    ⟨rfl,rfl,rfl,le_rfl,fun _ _ => rfl⟩
  have hmetrics : (StoreWorld.serve env
      (.set (stateKey d.redisPrefix) (.state (d.version d.made))) w).2.strings
      (metricsKey d.redisPrefix) = w.strings (metricsKey d.redisPrefix) := by
    simp [StoreWorld.serve,StoreWorld.written,
      (stateKey_ne_metricsKey d.redisPrefix d.redisPrefix).symm]
  by_cases hdone : StoreWorld.carriedOut (env w.tick) = true
  · have hstate : (StoreWorld.serve env
        (.set (stateKey d.redisPrefix) (.state (d.version d.made))) w).2.strings
        (stateKey d.redisPrefix) = some (.state (d.version d.made)) := by
      simp [StoreWorld.serve,StoreWorld.written,hdone]
    refine ⟨ordered_append (h.ordered_later hlater) ?_ ?_,?_,?_,?_⟩
    · intro x hx
      have hnew := ((h.present hw.last hx).update).later hlater
      rw [← hstate] at hnew
      exact hnew
    · have hself := ((h.present hw.last (List.mem_of_getElem? hw.last)).update).later hlater
      rw [← hmetrics,← hstate] at hself
      exact hself
    · intro hs
      dsimp only at hs
      split at hs
      all_goals cases hs
    · intro _
      exact hstate
    · intro hs
      dsimp only at hs
      split at hs
      all_goals cases hs
  · have hlost : StoreWorld.carriedOut (env w.tick) = false := by simpa using hdone
    have hr := reply_lost hr hlost
    exact h.keep hw.last hlater (.inl (.inl (by simp [hr])))
      (by simp [StoreWorld.serve,StoreWorld.written,hlost]) hmetrics

theorem traced_metrics {r : Except String Unit} {elapsed : Nat} (h : Traced init d w.strings w.past)
    (hw : Present w) (hr : StoreWorld.reply (env w.tick) () = r) (before : d.stage = .synced) :
    Traced init { d with stage := if r.isOk then .mirrored else .cleared }
      (StoreWorld.serve env (.set (metricsKey d.redisPrefix)
        (.metrics ((d.version d.made).getPortfolioMetrics elapsed))) w).2.strings
      (StoreWorld.serve env (.set (metricsKey d.redisPrefix)
        (.metrics ((d.version d.made).getPortfolioMetrics elapsed))) w).2.past := by
  have hlater : Continued d { d with stage := if r.isOk then .mirrored else .cleared } :=
    ⟨rfl,rfl,rfl,le_rfl,fun _ _ => rfl⟩
  have hstate : (StoreWorld.serve env (.set (metricsKey d.redisPrefix)
      (.metrics ((d.version d.made).getPortfolioMetrics elapsed))) w).2.strings
        (stateKey d.redisPrefix) =
      some (.state (d.version d.made)) := by
    simpa [StoreWorld.serve,StoreWorld.written,stateKey_ne_metricsKey d.redisPrefix d.redisPrefix]
      using h.synced (.inl before)
  by_cases hdone : StoreWorld.carriedOut (env w.tick) = true
  · have hmetrics : (StoreWorld.serve env (.set (metricsKey d.redisPrefix)
        (.metrics ((d.version d.made).getPortfolioMetrics elapsed))) w).2.strings
          (metricsKey d.redisPrefix) =
        some (.metrics ((d.version d.made).getPortfolioMetrics elapsed)) := by
      simp [StoreWorld.serve,StoreWorld.written,hdone]
    refine ⟨ordered_append (h.ordered_later hlater) ?_ ?_,?_,?_,?_⟩
    · intro x hx
      have hnew := ((h.present hw.last hx).update).later hlater
      rw [← hstate] at hnew
      exact hnew
    · constructor
      · exact .inr (.inr ⟨d.made,le_rfl,hstate⟩)
      · exact .inr (.inr ⟨d.made,d.made,elapsed,le_rfl,le_rfl,hmetrics,hstate⟩)
    · intro hs
      dsimp only at hs
      split at hs
      all_goals cases hs
    · intro _
      exact hstate
    · intro _
      exact ⟨elapsed,hmetrics⟩
  · have hlost : StoreWorld.carriedOut (env w.tick) = false := by simpa using hdone
    have hr := reply_lost hr hlost
    refine h.keep hw.last hlater (.inl (.inl (by simp [hr]))) ?_
      (by simp [StoreWorld.serve,StoreWorld.written,hlost])
    exact hstate.trans (h.synced (.inl before)).symm

/-- The request of a manager. -/
theorem traced_own {op : StoreOp} (h : Traced init d w.strings w.past) (hw : Present w)
    (hmove : Writing (some d) op (StoreWorld.serve env op w).1 (some d')) :
    Traced init d' (StoreWorld.serve env op w).2.strings (StoreWorld.serve env op w).2.past := by
  generalize hr : (StoreWorld.serve env op w).1 = r at hmove
  cases hmove with
  | clock _ later stage_eq made_eq => exact h.keep hw.last later (.inr ⟨stage_eq,made_eq⟩) rfl rfl
  | logs _ later before stage_eq => exact h.keep hw.last later (.inl (.inl stage_eq)) rfl rfl
  | clears _ fresh => exact traced_clears h hw fresh
  | state _ before => exact traced_state h hw hr
  | metrics elapsed _ before => exact traced_metrics h hw hr before

/-- The request of another program. -/
theorem untouched {p : String} {q q' : Option Diary} {op : StoreOp} {r : op.Ans}
    (hmove : Writing q op r q') (hother : ∀ d, q = some d → d.redisPrefix ≠ p) (move : StoreMove)
    (strings : String → Option Stored) :
    StoreWorld.written move strings op (stateKey p) = strings (stateKey p) ∧
      StoreWorld.written move strings op (metricsKey p) = strings (metricsKey p) := by
  have hstate : ∀ d, q = some d → stateKey p ≠ stateKey d.redisPrefix :=
    fun d hd h => hother d hd (stateKey_inj h).symm
  have hmetrics : ∀ d, q = some d → metricsKey p ≠ metricsKey d.redisPrefix :=
    fun d hd h => hother d hd (metricsKey_inj h).symm
  cases hmove with
  | reads _ => exact ⟨rfl,rfl⟩
  | clock _ _ _ _ => exact ⟨rfl,rfl⟩
  | logs _ _ _ _ => exact ⟨rfl,rfl⟩
  | clears _ _ =>
    simp [StoreWorld.written,hstate _ rfl,hmetrics _ rfl,stateKey_ne_metricsKey,
      (stateKey_ne_metricsKey _ _).symm]
  | state _ _ => simp [StoreWorld.written,hstate _ rfl,(stateKey_ne_metricsKey _ _).symm]
  | metrics _ _ _ => simp [StoreWorld.written,hmetrics _ rfl,stateKey_ne_metricsKey]

end Contents

section Runs
open Diary

variable {env : Nat → StoreMove} {init : String → Option Stored}

/-- A manager's writes go on from its last ones, and no other program writes. -/
theorem writing_goes_on {q q' : Option Diary} {op : StoreOp} {r : op.Ans} (h : Writing q op r q') :
    Option.Rel Continued q q' := by
  cases h with
  | reads _ => exact .none
  | clock _ later _ _ => exact .some later
  | logs _ later _ _ => exact .some later
  | clears _ _ => exact .some ⟨rfl,rfl,rfl,le_rfl,fun _ _ => rfl⟩
  | state _ _ => exact .some ⟨rfl,rfl,rfl,le_rfl,fun _ _ => rfl⟩
  | metrics _ _ _ => exact .some ⟨rfl,rfl,rfl,le_rfl,fun _ _ => rfl⟩

/-- The diary that a program begins with. -/
def started : StoreProcess → Option Diary
  | .manager redisPrefix startingCapital calls => some (begun redisPrefix startingCapital calls)
  | .monitor .. => none

/-- The prefix that a program writes under. -/
def owner (process : StoreProcess) : Option String := (started process).map Diary.redisPrefix

/-- No two managers are started for one prefix. -/
def OneWriter (s : Desk) : Act StoreProcess → Prop
  | .start label => owner label = none ∨ ∀ c ∈ s.calls, owner c.label ≠ owner label
  | .step _ => True

instance (s : Desk) (a : Act StoreProcess) : Decidable (OneWriter s a) :=
  match a with
  | .start _ => inferInstanceAs (Decidable (_ ∨ _))
  | .step _ => inferInstanceAs (Decidable True)

/-- What a program has at its end. -/
def Finished (process : StoreProcess) (result : StoreResult) (q : Option Diary) : Prop :=
  match process with
  | .manager _ _ calls => ∃ d, q = some d ∧ Wrote calls result d
  | .monitor .. => q = none

theorem body_writing (process : StoreProcess) :
    process.body.Obeys (σ := storeSig) Writing (Finished process) (started process) := by
  cases process with
  | manager p capital calls =>
    refine Prog.Obeys.mono (manager_writing p capital calls) ?_
    rintro result q ⟨d,rfl,_,hwrote⟩
    exact ⟨d,rfl,hwrote⟩
  | monitor p turns => exact monitor_writing p turns

/-- What holds of the keys while the programs run. -/
structure Kept (init : String → Option Stored) (s : Desk)
    (ghosts : List (Option Diary)) : Prop where
  present : Present s.shared
  follows : ∀ (n : Nat) (c : Call StoreProcess storeSig StoreResult) (q : Option Diary),
    s.calls[n]? = some c →
    ghosts[n]? = some q → Option.Rel Continued (started c.label) q
  apart : ∀ (n k : Nat) (d e : Diary), ghosts[n]? = some (some d) → ghosts[k]? = some (some e) →
    d.redisPrefix = e.redisPrefix → n = k
  traced : ∀ (n : Nat) (d : Diary), ghosts[n]? = some (some d) →
    Traced init d s.shared.strings s.shared.past
  left : ∀ p, (∀ (n : Nat) (d : Diary), ghosts[n]? = some (some d) → d.redisPrefix ≠ p) →
    ∀ x ∈ s.shared.past,
    x (metricsKey p) = init (metricsKey p) ∧ x (stateKey p) = init (stateKey p)

theorem kept_new : Kept init ⟨.new init,[]⟩ [] where
  present := ⟨[],rfl⟩
  follows := by simp
  apart := by simp
  traced := by simp
  left p _ x hx := by
    rw [List.mem_singleton.mp hx]
    exact ⟨rfl,rfl⟩

/-- What a manager finds is what was there at the beginning. -/
theorem traced_new {p : String} {capital : ℚ} {calls : List ManagerCall}
    {strings : String → Option Stored} {past : List (String → Option Stored)}
    (h : ∀ x ∈ past, x (metricsKey p) = init (metricsKey p) ∧ x (stateKey p) = init (stateKey p)) :
    Traced init (begun p capital calls) strings past where
  ordered i j x y _ hi hj := by
    constructor
    · exact .inr (.inl (h y (List.mem_of_getElem? hj)).2)
    · exact .inr (.inl (h x (List.mem_of_getElem? hi)).1)
  fresh _ := h
  synced hs := by simp [begun] at hs
  mirrored hs := by simp [begun] at hs

/-- A manager of another prefix is not in the way. -/
theorem Kept.other_key {s : Desk} {ghosts : List (Option Diary)} (h : Kept init s ghosts)
    (htracked : Pool.Tracked Writing Finished s ghosts) {label : StoreProcess} {d e : Diary}
    {n : Nat} (hlabel : OneWriter s (.start label)) (hd : started label = some d)
    (he : ghosts[n]? = some (some e)) : e.redisPrefix ≠ d.redisPrefix := by
  have hn : n < s.calls.length := by
    rw [htracked.length_eq]
    exact (List.getElem?_eq_some_iff.mp he).1
  have hcall := List.getElem?_eq_getElem hn
  have hrel := h.follows n _ _ hcall he
  obtain hnone | hother := hlabel
  · simp [owner,hd] at hnone
  · have hne := hother _ (List.mem_of_getElem? hcall)
    cases hfirst : started s.calls[n].label with
    | none =>
      rw [hfirst] at hrel
      cases hrel
    | some first =>
      rw [hfirst] at hrel
      cases hrel with
      | some hlater =>
        rw [hlater.prefix_eq]
        simpa [owner,hfirst,hd] using hne

theorem Kept.start {s : Desk} {ghosts : List (Option Diary)} (h : Kept init s ghosts)
    (htracked : Pool.Tracked Writing Finished s ghosts) {label : StoreProcess}
    (hlabel : OneWriter s (.start label)) :
    Kept init (s.act (Desk.machine env) StoreProcess.body (.start label))
      (ghosts ++ [started label]) where
  present := h.present
  follows n c q hc hq := by
    obtain ⟨rfl,rfl⟩ | hc := Pool.ghost_new.mp hc
    · rw [htracked.length_eq,List.getElem?_concat_length] at hq
      cases hq
      cases started label with
      | none => exact .none
      | some d => exact .some (.refl d)
    · have hn := (List.getElem?_eq_some_iff.mp hc).1
      obtain ⟨rfl,_⟩ | hq := Pool.ghost_new.mp hq
      · rw [htracked.length_eq] at hn
        exact absurd hn (lt_irrefl _)
      · exact h.follows n c q hc hq
  apart n k d e hd he hsame := by
    obtain ⟨hn,hd⟩ | hd := Pool.ghost_new.mp hd
    · obtain ⟨hk,_⟩ | he := Pool.ghost_new.mp he
      · exact hn.trans hk.symm
      · exact absurd hsame.symm (h.other_key htracked hlabel hd.symm he)
    · obtain ⟨_,he⟩ | he := Pool.ghost_new.mp he
      · exact absurd hsame (h.other_key htracked hlabel he.symm hd)
      · exact h.apart n k d e hd he hsame
  traced n d hd := by
    obtain ⟨_,hd⟩ | hd := Pool.ghost_new.mp hd
    · have hleft := h.left d.redisPrefix (fun k e he => h.other_key htracked hlabel hd.symm he)
      cases label with
      | manager p capital calls =>
        cases hd
        exact traced_new hleft
      | monitor p turns => cases hd
    · exact h.traced n d hd
  left p hp := h.left p (fun n d hd => hp n d (Pool.ghost_new.mpr (.inr hd)))

/-- A request of one of the programs. -/
theorem Kept.step {s : Desk} {ghosts : List (Option Diary)} (h : Kept init s ghosts) {n : Nat}
    {label : StoreProcess} {op : StoreOp} {next : op.Ans → Prog storeSig StoreResult}
    {q q' : Option Diary} (hcall : s.calls[n]? = some ⟨label,.call op next⟩)
    (hq : ghosts[n]? = some q) (hmove : Writing q op (StoreWorld.serve env op s.shared).1 q') :
    Kept init ⟨(StoreWorld.serve env op s.shared).2,
      s.calls.set n ⟨label,next (StoreWorld.serve env op s.shared).1⟩⟩
      (ghosts.set n q') := by
  have hon := writing_goes_on hmove
  -- the ghost of each program comes from one of the same prefix
  have hback : ∀ (k : Nat) (e : Diary), (ghosts.set n q')[k]? = some (some e) →
      ∃ d, ghosts[k]? = some (some d) ∧ d.redisPrefix = e.redisPrefix := by
    intro k e he
    obtain ⟨rfl,rfl⟩ | ⟨_,he⟩ := (Pool.ghost_set hq).mp he
    · cases hon with
      | some hlater => exact ⟨_,hq,hlater.prefix_eq.symm⟩
    · exact ⟨e,he,rfl⟩
  constructor
  case present => exact present_serve op s.shared
  case follows =>
    intro k c p hc hp
    obtain ⟨rfl,rfl⟩ | ⟨hk,hc⟩ := (Pool.ghost_set hcall).mp hc
    · obtain ⟨_,rfl⟩ | ⟨hk,_⟩ := (Pool.ghost_set hq).mp hp
      · have hold := h.follows k _ q hcall hq
        cases hon with
        | none => exact hold
        | some hlater =>
          generalize hfirst : started label = first at hold
          cases hold with
          | some hfirst => exact .some (hfirst.trans hlater)
      · exact absurd rfl hk
    · obtain ⟨hsame,_⟩ | ⟨_,hp⟩ := (Pool.ghost_set hq).mp hp
      · exact absurd hsame hk
      · exact h.follows k c p hc hp
  case apart =>
    intro i k d e hd he hsame
    obtain ⟨d₀,hd₀,hdp⟩ := hback i d hd
    obtain ⟨e₀,he₀,hep⟩ := hback k e he
    exact h.apart i k d₀ e₀ hd₀ he₀ (hdp.trans (hsame.trans hep.symm))
  case traced =>
    intro k e he
    obtain ⟨rfl,rfl⟩ | ⟨hk,he⟩ := (Pool.ghost_set hq).mp he
    · cases hon with
      | some hlater => exact traced_own (h.traced k _ hq) h.present hmove
    · have hother : ∀ d, q = some d → d.redisPrefix ≠ e.redisPrefix :=
        fun d hd hsame => hk (h.apart k n e d he (hd ▸ hq) hsame.symm)
      have hsame := untouched hmove hother (env s.shared.tick) s.shared.strings
      exact (h.traced k e he).keep h.present.last (.refl e) (.inr ⟨rfl,rfl⟩) hsame.1 hsame.2
  case left =>
    intro p hp x hx
    have hfree : ∀ (k : Nat) (d : Diary), ghosts[k]? = some (some d) → d.redisPrefix ≠ p := by
      intro k d hd
      by_cases hk : k = n
      · subst hk
        rw [hd] at hq
        cases hq
        cases hon with
        | some hlater =>
          rw [← hlater.prefix_eq]
          exact hp k _ ((Pool.ghost_set hd).mpr (.inl ⟨rfl,rfl⟩))
      · exact hp k d ((Pool.ghost_set hq).mpr (.inr ⟨hk,hd⟩))
    obtain hx | hx := List.mem_append.mp hx
    · exact h.left p hfree x hx
    · have hsame := untouched hmove (fun d hd => hfree n d (hd ▸ hq)) (env s.shared.tick)
          s.shared.strings
      rw [List.mem_singleton.mp hx,hsame.1,hsame.2]
      exact h.left p hfree s.shared.strings (List.mem_of_getElem? h.present.last)

theorem run_kept (env : Nat → StoreMove) (init : String → Option Stored)
    {acts : List (Act StoreProcess)}
    (hacts : Pool.Meets (Desk.machine env) StoreProcess.body OneWriter ⟨.new init,[]⟩ acts) :
    ∃ ghosts, Pool.Tracked Writing Finished (Desk.run env init acts) ghosts ∧
      Kept init (Desk.run env init acts) ghosts := by
  refine Pool.run_tracked ?_ ?_ hacts (Pool.tracked_new _) kept_new
  · intro s ghosts label hlabel htracked hkept
    exact ⟨started label,body_writing label,hkept.start htracked hlabel⟩
  · intro s ghosts n label op next q q' _ _ hkept hcall hq hmove
    exact hkept.step hcall hq hmove

end Runs

section Results

variable {env : Nat → StoreMove} {init : String → Option Stored} {acts : List (Act StoreProcess)}
  {n k turns : Nat}
variable {p : String} {capital : ℚ} {calls : List ManagerCall} {answers : List Reads}
variable {cm cw : Call StoreProcess storeSig StoreResult}

theorem rel_begun {q : Option Diary}
    (h : Option.Rel Diary.Continued (some (begun p capital calls)) q) :
    ∃ d, q = some d ∧ Diary.Continued (begun p capital calls) d := by
  cases h with
  | some hlater => exact ⟨_,rfl,hlater⟩

theorem later_version {d : Diary} (h : Diary.Continued (begun p capital calls) d) (i : Nat) :
    d.version i = stateAt capital calls d.secs i := by
  unfold Diary.version
  rw [h.capital_eq,h.calls_eq]
  rfl

/-- A manager opens a trade and closes it. A monitor reads the metrics before the trade is in them,
and the state at the end. -/
def oneTrade (capital : ℚ) : List (Act StoreProcess) :=
  [.start (.manager "demo" capital [.openTrade (Ledger.tradeOf 1 100),.closeTrade 1 5 .manualExit]),
    .start (.monitor "demo" 1)] ++
    (List.replicate 8 (.step 0) ++ (.step 1 :: List.replicate 6 (.step 0) ++ [.step 1]))

/-- On an empty Redis that does all it is asked to. -/
def oneTradeRun (capital : ℚ) : Desk := Desk.run (fun _ => {}) (fun _ => none) (oneTrade capital)

/-- Once all calls of a manager have returned, none of them with an error of Redis's, Redis holds
its state and the metrics of it, whatever the other programs do. It is enough that the last one was
an open that went well. -/
theorem finished_manager_mirrored {results : List (Except PortfolioError Unit)}
    {m : PortfolioManager} (hacts : Pool.Meets (Desk.machine env) StoreProcess.body OneWriter
    ⟨.new init,[]⟩ acts) (hm : (Desk.run env init acts).calls[n]? = some cm)
    (hlabel : cm.label = .manager p capital calls) (hresult : cm.result = some (.managed results m))
    (hline : InLine calls results) :
    (Desk.run env init acts).shared.strings (stateKey p) = some (.state m.state) ∧
      ∃ elapsed, (Desk.run env init acts).shared.strings (metricsKey p) =
        some (.metrics (m.state.getPortfolioMetrics elapsed)) := by
  obtain ⟨ghosts,htracked,hkept⟩ := run_kept env init hacts
  obtain ⟨q,hq,hfinished⟩ := htracked.result hm hresult
  have hrel := hkept.follows n cm q hm hq
  rw [hlabel] at hfinished hrel
  obtain ⟨d,rfl,hwrote⟩ := hfinished
  obtain ⟨_,hd,hlater⟩ := rel_begun hrel
  cases hd
  obtain ⟨hstage,hstate⟩ := hwrote.mirrored results m rfl hline
  have htraced := hkept.traced n d hq
  have hkey : d.redisPrefix = p := hlater.prefix_eq
  have hmetrics := htraced.mirrored hstage
  have hsynced := htraced.synced (.inr hstage)
  rw [hkey,← hstate] at hmetrics hsynced
  exact ⟨hsynced,hmetrics⟩

theorem trade_mirrored : ∃ c results m, (oneTradeRun 1000).calls[0]? = some c ∧
    c.result = some (.managed results m) ∧ m.state.cumulativePnl = 5 ∧
    (oneTradeRun 1000).shared.strings (stateKey "demo") = some (.state m.state) := by
  have hended : ∃ c results m, (oneTradeRun 1000).calls[0]? = some c ∧
      c.label = .manager "demo" 1000
      [.openTrade (Ledger.tradeOf 1 100),.closeTrade 1 5 .manualExit] ∧
      c.result = some (.managed results m) ∧ results = [.ok (),.ok ()] ∧
        m.state.cumulativePnl = 5 :=
    ⟨_,_,_,rfl,rfl,rfl,rfl,by decide +kernel⟩
  obtain ⟨c,results,m,hc,hlabel,hresult,hall,hpnl⟩ := hended
  have hline : InLine [.openTrade (Ledger.tradeOf 1 100),.closeTrade 1 5 .manualExit] results := by
    simp [InLine,hall]
  exact ⟨c,results,m,hc,hresult,hpnl,
    (finished_manager_mirrored (by decide +kernel) hc hlabel hresult hline).1⟩

/-- What an update reads was left in Redis before, or it is a version of the manager's, the metrics'
one no later than the state's. -/
structure Shown (init : String → Option Stored) (p : String) (version : Nat → PortfolioState)
    (a : Reads) : Prop where
  state : ∀ s, a.state = .ok s → init (stateKey p) = some s ∨ ∃ k, s = .state (version k)
  metrics : ∀ m, a.metrics = .ok m → init (metricsKey p) = some m ∨ ∃ i k elapsed, i ≤ k ∧
    m = .metrics ((version i).getPortfolioMetrics elapsed) ∧
      ∀ s, a.state = .ok s → s = .state (version k)

theorem shown_of_ordered {d : Diary} (hlater : Diary.Continued (begun p capital calls) d)
    {x y : String → Option Stored}
    (h : Ordered init d (x (metricsKey d.redisPrefix)) (y (stateKey d.redisPrefix))) {a : Reads}
    (hmetrics : ∀ m, a.metrics = .ok m → x (metricsKey p) = some m)
    (hstate : ∀ s, a.state = .ok s → y (stateKey p) = some s) :
    Shown init p (stateAt capital calls d.secs) a := by
  have hkey : d.redisPrefix = p := hlater.prefix_eq
  obtain ⟨hkept,hnewer⟩ := h
  rw [hkey] at hkept hnewer
  simp only [later_version hlater] at hkept hnewer
  constructor
  case state =>
    intro s hs
    rw [hstate s hs] at hkept
    obtain hnone | hinit | ⟨k,_,hversion⟩ := hkept
    · cases hnone
    · exact .inl hinit.symm
    · exact .inr ⟨k,Option.some.inj hversion⟩
  case metrics =>
    intro m hm
    rw [hmetrics m hm] at hnewer
    obtain hnone | hinit | ⟨i,k,elapsed,hik,_,hversion,hlast⟩ := hnewer
    · cases hnone
    · exact .inl hinit.symm
    · refine .inr ⟨i,k,elapsed,hik,Option.some.inj hversion,?_⟩
      intro s hs
      exact Option.some.inj ((hstate s hs).symm.trans hlast)

/-- What was there in the order of a monitor's reads are versions of the manager's state. -/
theorem shown_in_order
    (hacts : Pool.Meets (Desk.machine env) StoreProcess.body OneWriter ⟨.new init,[]⟩ acts)
    (hm : (Desk.run env init acts).calls[n]? = some cm)
    (hmlabel : cm.label = .manager p capital calls) :
    ∃ secs, ∀ a, InOrder (Desk.run env init acts).shared.past p a →
      Shown init p (stateAt capital calls secs) a := by
  obtain ⟨ghosts,htracked,hkept⟩ := run_kept env init hacts
  obtain ⟨q,hq⟩ := htracked.ghost hm
  have hrel := hkept.follows n cm q hm hq
  rw [hmlabel] at hrel
  obtain ⟨d,rfl,hlater⟩ := rel_begun hrel
  refine ⟨d.secs,?_⟩
  intro a ha
  obtain ⟨i,j,x,y,hij,hi,hj,hmetrics,hstate⟩ := ha
  exact shown_of_ordered hlater ((hkept.traced n d hq).ordered i j x y hij hi hj) hmetrics hstate

/-- What a monitor reads while a manager trades, at any time and however the requests fail: versions
of the manager's state, each with its own metrics or older ones. -/
theorem monitor_shows_versions (hacts : Pool.Meets (Desk.machine env) StoreProcess.body OneWriter
    ⟨.new init,[]⟩ acts) (hm : (Desk.run env init acts).calls[n]? = some cm)
    (hmlabel : cm.label = .manager p capital calls)
    (hw : (Desk.run env init acts).calls[k]? = some cw) (hwlabel : cw.label = .monitor p turns)
    (hresult : cw.result = some (.watched answers)) :
    ∃ secs, ∀ a ∈ answers, Shown init p (stateAt capital calls secs) a := by
  obtain ⟨secs,hshown⟩ := shown_in_order hacts hm hmlabel
  exact ⟨secs,fun a ha => hshown a (monitor_in_order env init acts hw hwlabel hresult a ha)⟩

theorem oneTrade_read : ∃ c answers s, (oneTradeRun 1000).calls[1]? = some c ∧
      c.label = .monitor "demo" 1 ∧
    c.result = some (.watched answers) ∧ answers.length = 1 ∧
      (AppState.after answers).state = some s ∧
    s.cumulativePnl = 5 :=
  ⟨_,_,_,rfl,rfl,rfl,rfl,rfl,by decide +kernel⟩

/-- The metrics are those of the state before the trade. -/
theorem trade_watched : ∃ c answers, (oneTradeRun 1000).calls[1]? = some c ∧
      c.result = some (.watched answers) ∧
    answers.length = 1 ∧ ∃ secs, ∀ a ∈ answers, Shown (fun _ => none) "demo"
      (stateAt 1000 [.openTrade (Ledger.tradeOf 1 100),.closeTrade 1 5 .manualExit] secs) a := by
  obtain ⟨c,answers,_,hc,hlabel,hresult,hlength,_⟩ := oneTrade_read
  exact ⟨c,answers,hc,hresult,hlength,
    monitor_shows_versions (n := 0) (by decide +kernel) rfl rfl hc hlabel hresult⟩

/-- The trades that the calls open. -/
def opened : ManagerCall → Option TradeId
  | .openTrade trade => some trade.id
  | .closeTrade .. => none

theorem opens_timed (secs : Nat) (c : ManagerCall) : Ledger.opens (timed secs c) = opened c := by
  cases c with
  | openTrade trade => rfl
  | closeTrade id profit reason => rfl

theorem calls_concat (s : PortfolioState) (calls : List (PortfolioCall × RedisAnswers))
    (c : PortfolioCall) (io : RedisAnswers) :
    s.calls (calls ++ [(c,io)]) = ((s.calls calls).call io c).2 := by
  induction calls generalizing s with
  | nil => rfl
  | cons head rest ih => exact ih _

/-- A version is what the first calls have made. -/
theorem stateAt_eq_calls (capital : ℚ) (calls : List ManagerCall) (secs : Nat → Nat) (k : Nat) :
    stateAt capital calls secs k =
      (PortfolioState.new capital).calls
        ((calls.take k).zipIdx.map (fun c => (timed (secs c.2) c.1,{}))) := by
  induction k with
  | zero => rfl
  | succ k ih =>
    rw [stateAt,ih,List.take_add_one]
    cases hc : calls[k]? with
    | none => simp
    | some c =>
      have hk := (List.getElem?_eq_some_iff.mp hc).1
      have hlen : (calls.take k).length = k := by simp [hk.le]
      simp [List.zipIdx_append,hlen,calls_concat]

/-- The totals of every version agree with its trades. -/
theorem stateAt_balanced (hdistinct : (calls.filterMap opened).Nodup) (secs : Nat → Nat) (k : Nat) :
    Ledger.Balanced (stateAt capital calls secs k) := by
  rw [stateAt_eq_calls]
  apply Ledger.balanced_calls _ (Ledger.balanced_new capital)
  · rw [List.filterMap_map]
    have hopens : (fun c : PortfolioCall × RedisAnswers => Ledger.opens c.1) ∘
        (fun c : ManagerCall × Nat => (timed (secs c.2) c.1,{})) = opened ∘ Prod.fst := by
      funext c
      exact opens_timed (secs c.2) c.1
    rw [hopens,← List.filterMap_map,List.zipIdx_map_fst]
    exact hdistinct.sublist ((List.take_sublist k calls).filterMap opened)
  · intro id _ hid
    simp [Ledger.ids,PortfolioState.new] at hid

theorem readState_eq {json : Stored} {s : PortfolioState}
    (h : TradingMonitor.readState json = some s) : json = .state s := by
  cases json with
  | state kept =>
    unfold TradingMonitor.readState at h
    dsimp only at h
    split at h
    · cases h
      rfl
    · cases h
  | metrics m => cases h
  | other text => cases h

/-- Only metrics with a gain in percent can be read. -/
theorem readMetrics_eq {json : Stored} {m : PortfolioMetrics}
    (h : TradingMonitor.readMetrics json = some m) :
    json = .metrics m ∧ m.pnlPercentage ≠ none := by
  cases json with
  | metrics kept =>
    unfold TradingMonitor.readMetrics at h
    dsimp only at h
    split at h
    · next hall =>
      cases h
      simp only [Bool.and_eq_true] at hall
      exact ⟨rfl,Option.isSome_iff_ne_none.mp hall.1.1.2⟩
    · cases h
  | state s => cases h
  | other text => cases h

theorem after_concat (answers : List Reads) (a : Reads) :
    AppState.after (answers ++ [a]) = (AppState.after answers).updateFromRedis a := by
  simp [AppState.after]

/-- The state that a monitor shows comes from one of its updates. -/
theorem after_state {s : PortfolioState} (h : (AppState.after answers).state = some s) :
    ∃ a ∈ answers, a.state = .ok (.state s) := by
  induction answers using List.reverseRecOn with
  | nil => cases h
  | append_singleton answers a ih =>
    rw [after_concat] at h
    unfold AppState.updateFromRedis at h
    dsimp only at h
    split at h
    · next json hjson =>
      have hs := readState_eq h
      subst hs
      exact ⟨a,by simp,hjson⟩
    · obtain ⟨b,hb,hs⟩ := ih h
      exact ⟨b,List.mem_append_left _ hb,hs⟩

theorem after_metrics {m : PortfolioMetrics} (h : (AppState.after answers).metrics = some m) :
    m.pnlPercentage ≠ none ∧ ∃ a ∈ answers, a.metrics = .ok (.metrics m) := by
  induction answers using List.reverseRecOn with
  | nil => cases h
  | append_singleton answers a ih =>
    rw [after_concat] at h
    unfold AppState.updateFromRedis at h
    dsimp only at h
    split at h
    · next json hjson =>
      obtain ⟨hm,hgain⟩ := readMetrics_eq h
      subst hm
      exact ⟨hgain,a,by simp,hjson⟩
    · obtain ⟨hgain,b,hb,hm⟩ := ih h
      exact ⟨hgain,b,List.mem_append_left _ hb,hm⟩

/-- Whatever a monitor shows of a manager adds up, as long as no two of its trades have one id. -/
theorem monitor_adds_up (hacts : Pool.Meets (Desk.machine env) StoreProcess.body OneWriter
    ⟨.new init,[]⟩ acts) (hm : (Desk.run env init acts).calls[n]? = some cm)
    (hmlabel : cm.label = .manager p capital calls)
    (hw : (Desk.run env init acts).calls[k]? = some cw) (hwlabel : cw.label = .monitor p turns)
    (hresult : cw.result = some (.watched answers)) (hdistinct : (calls.filterMap opened).Nodup)
    {s : PortfolioState} (hs : (AppState.after answers).state = some s) :
    init (stateKey p) = some (.state s) ∨ Ledger.Balanced s := by
  obtain ⟨secs,hshown⟩ := shown_in_order hacts hm hmlabel
  obtain ⟨a,ha,hstate⟩ := after_state hs
  obtain hinit | ⟨i,hversion⟩ :=
    (hshown a (monitor_in_order env init acts hw hwlabel hresult a ha)).state _ hstate
  · exact .inl hinit
  · cases hversion
    exact .inr (stateAt_balanced hdistinct secs i)

theorem trade_adds_up : ∃ c answers s, (oneTradeRun 1000).calls[1]? = some c ∧
    c.result = some (.watched answers) ∧ (AppState.after answers).state = some s ∧
      s.cumulativePnl = 5 ∧
    Ledger.Balanced s := by
  obtain ⟨c,answers,s,hc,hlabel,hresult,_,hs,hpnl⟩ := oneTrade_read
  have hor := monitor_adds_up (n := 0) (by decide +kernel) rfl rfl hc hlabel hresult
      (by decide +kernel) hs
  obtain hinit | hbalanced := hor
  · cases hinit
  · exact ⟨c,answers,s,hc,hresult,hs,hpnl,hbalanced⟩

theorem call_startingCapital (s : PortfolioState) (io : RedisAnswers) (c : PortfolioCall) :
    (s.call io c).2.startingCapital = s.startingCapital := by
  cases c with
  | openTrade trade =>
    obtain ⟨_,he⟩ | ⟨_,he⟩ := Ledger.openTrade_cases s trade
    · simp [PortfolioState.call,he]
    · simp [PortfolioState.call,he]
  | closeTrade id profit reason secs =>
    obtain ⟨_,he⟩ | ⟨before,trade,after,_,_,_,he⟩ := Ledger.closeTrade_cases s id profit reason secs
    · simp [PortfolioState.call,he]
    · simp [PortfolioState.call,he,PortfolioState.settle]

theorem stateAt_capital (secs : Nat → Nat) (i : Nat) :
    (stateAt capital calls secs i).startingCapital = capital := by
  induction i with
  | zero => rfl
  | succ i ih =>
    rw [stateAt]
    cases calls[i]? with
    | none => exact ih
    | some c =>
      dsimp only
      rw [call_startingCapital]
      exact ih

/-- Without capital at the start the ratios to it are no numbers. -/
theorem penniless_ratios (calls : List ManagerCall) (secs : Nat → Nat) (i elapsed : Nat) :
    ((stateAt 0 calls secs i).getPortfolioMetrics elapsed).pnlPercentage = none ∧
      ((stateAt 0 calls secs i).getPortfolioMetrics elapsed).utilizationPct = none ∧
      (0 < elapsed → ((stateAt 0 calls secs i).getPortfolioMetrics elapsed).realisticApr =
        none) := by
  simp only [PortfolioState.getPortfolioMetrics,PortfolioState.quotient,stateAt_capital,if_true,
    Option.map_none]
  refine ⟨trivial,trivial,fun hpos => ?_⟩
  have hdays : (0 : ℚ) < elapsed / 86400 := by positivity
  rw [if_pos hdays]

/-- Without capital at the start no version of the metrics has ratios that are numbers, and the
monitor shows no metrics but those that were left. -/
theorem penniless_metrics_never_shown
    (hacts : Pool.Meets (Desk.machine env) StoreProcess.body OneWriter ⟨.new init,[]⟩ acts)
    (hm : (Desk.run env init acts).calls[n]? = some cm) (hmlabel : cm.label = .manager p 0 calls)
    (hw : (Desk.run env init acts).calls[k]? = some cw) (hwlabel : cw.label = .monitor p turns)
    (hresult : cw.result = some (.watched answers)) :
    (∀ secs i elapsed,
      ((stateAt 0 calls secs i).getPortfolioMetrics elapsed).pnlPercentage = none ∧
      ((stateAt 0 calls secs i).getPortfolioMetrics elapsed).utilizationPct = none ∧
      (0 < elapsed →
        ((stateAt 0 calls secs i).getPortfolioMetrics elapsed).realisticApr = none)) ∧
    ((AppState.after answers).metrics = none ∨
      ∃ m, (AppState.after answers).metrics = some m ∧
        init (metricsKey p) = some (.metrics m)) := by
  refine ⟨penniless_ratios calls,?_⟩
  obtain ⟨secs,hversions⟩ := shown_in_order hacts hm hmlabel
  cases hshown : (AppState.after answers).metrics with
  | none => exact .inl rfl
  | some m =>
    obtain ⟨hgain,a,ha,hmetrics⟩ := after_metrics hshown
    have hversion := hversions a (monitor_in_order env init acts hw hwlabel hresult a ha)
    obtain hinit | ⟨i,j,elapsed,_,hm,_⟩ := hversion.metrics _ hmetrics
    · exact .inr ⟨m,rfl,hinit⟩
    · cases hm
      exact absurd (penniless_ratios calls secs i elapsed).1 hgain

/-- On an empty Redis it shows none at all. -/
theorem penniless_watched :
    ∃ c answers, (oneTradeRun 0).calls[1]? = some c ∧ c.result = some (.watched answers) ∧
    answers.length = 1 ∧ (AppState.after answers).metrics = none := by
  have hended : ∃ c answers, (oneTradeRun 0).calls[1]? = some c ∧ c.label = .monitor "demo" 1 ∧
      c.result = some (.watched answers) ∧ answers.length = 1 := ⟨_,_,rfl,rfl,rfl,rfl⟩
  obtain ⟨c,answers,hc,hlabel,hresult,hlength⟩ := hended
  have hor := penniless_metrics_never_shown (n := 0) (by decide +kernel) rfl rfl hc hlabel hresult
  obtain hnone | ⟨m,_,hinit⟩ := hor.2
  · exact ⟨c,answers,hc,hresult,hlength,hnone⟩
  · cases hinit

end Results

end SpreadArb.Proofs.Mirror
