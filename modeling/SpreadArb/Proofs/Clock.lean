import SpreadArb.DemoClient
import SpreadArb.Numeric.ClockOffset

namespace SpreadArb.Proofs.Clock
open Interact DemoClient Numeric

variable {api : DemoApi} {lib : Library} {env : DemoEnv}

/-- A request of a call with its answer. -/
abbrev Own := (op : DemoOp) × op.Ans

def own (e : DemoServed) : Own := ⟨e.op,e.ans⟩

variable (api lib) in
/-- The offset that a call computes from the time request it has just made. -/
def Measured (q : List Own) (offset : Int) : Prop :=
  ∃ (start mid : List Own) (before after : Nat) (response : HttpResponse) (json : Json)
    (server : Int),
    q = start ++ ⟨.systemTime,.ok before⟩ ::
      mid ++ [⟨.get api.timeUrl,.ok response⟩,⟨.systemTime,.ok after⟩] ∧
    decode lib response.text = .ok json ∧ api.serverTime json = some server ∧
    offset = ClockOffset.estimate server before after

variable (api lib) in
/-- The calls of a run keep what they were answered; an offset they store is measured. -/
def Moves (q : List Own) (op : DemoOp) (r : op.Ans) (q' : List Own) : Prop :=
  q' = q ++ [⟨op,r⟩] ∧ ∀ offset, op = .storeOffset offset → Measured api lib q offset

/-- A timestamp is the time of the clock and the offset, read in this order. -/
def Stamped (text : String) (q : List Own) : Prop :=
  ∃ (start : List Own) (localTime : Nat) (offset : Int),
    q = start ++ [⟨.systemTime,.ok localTime⟩,⟨.readOffset,offset⟩] ∧
      text = toString (localTime + offset : Int)

def Results (r : Except DemoError DemoReply) (q : List Own) : Prop :=
  ∀ text, r = .ok (.timestamp text) → Stamped text q

section Obeys

/-- Requests other than the store of an offset. -/
def Free : DemoOp → Prop
  | .storeOffset _ => False
  | _ => True

theorem free_moves (q : List Own) (op : DemoOp) (r : op.Ans) (h : Free op) :
    Moves api lib q op r (q ++ [⟨op,r⟩]) :=
  ⟨rfl,fun offset he => by subst he; exact h.elim⟩

theorem Free.obeys {α : Type} {Q : α → List Own → Prop} {p : Prog demoSig α} (hp : p.Only Free)
    (hq : ∀ a q, Q a q) (q : List Own) : p.Obeys (Moves api lib) Q q :=
  Prog.Only.obeysKept (I := fun _ => True) (fun q op r _ h =>
    ⟨_,free_moves q op r h,trivial⟩) hp trivial
    (fun a q _ => hq a q)

theorem getServerTime_obeys (q : List Own) :
    Prog.Obeys (Moves api lib) (Machine.Ends (fun _ => True)
      (fun response q' => ∃ mid, q' = q ++ mid ++ [⟨.get api.timeUrl,.ok response⟩]))
      (getServerTime api : Prog demoSig (Except DemoError HttpResponse)) q := by
  unfold getServerTime
  split
  · intro u
    refine ⟨_,free_moves q .acquire u trivial,fun r => ⟨_,free_moves _ (.get _) r trivial,?_⟩⟩
    cases r with
    | error e => trivial
    | ok response => exact ⟨[⟨.acquire,u⟩],rfl⟩
  · intro r
    refine ⟨_,free_moves q (.get _) r trivial,?_⟩
    cases r with
    | error e => trivial
    | ok response => exact ⟨[],by simp⟩

theorem syncServerTime_obeys (q : List Own) :
    Prog.Obeys (Moves api lib) (Machine.Ends (fun _ => True) (fun _ _ => True))
      (syncServerTime api lib : Prog demoSig (Except DemoError Unit)) q := by
  intro before
  refine ⟨_,free_moves q .systemTime before trivial,?_⟩
  cases before with
  | error e => trivial
  | ok before =>
    refine Prog.Obeys.exceptBind (getServerTime_obeys _) ?_
    rintro response q' ⟨mid,rfl⟩
    refine Prog.Obeys.ofExcept trivial (fun json hjson after =>
      ⟨_,free_moves _ .systemTime after trivial,?_⟩)
    cases after with
    | error e => trivial
    | ok after =>
      cases hserver : api.serverTime json with
      | none => trivial
      | some server =>
        refine fun u => ⟨_,⟨rfl,fun offset he => ?_⟩,fun u =>
          ⟨_,free_moves _ .storeLastSync u trivial,trivial⟩⟩
        cases he
        exact ⟨q,mid,before,after,response,json,server,by simp,hjson,hserver,
          by simp [ClockOffset.estimate]⟩

theorem resync_obeys (q : List Own) :
    Prog.Obeys (Moves api lib) (Machine.Ends (fun _ => True) (fun _ _ => True))
      (resync api lib : Prog demoSig (Except DemoError Unit)) q := by
  have hlift : Prog.Obeys (Moves api lib) (Machine.Ends (fun _ => True) (fun _ _ => True))
      ((liftM (syncServerTime api lib : Prog demoSig (Except DemoError Unit)) : DemoM
        (Except DemoError Unit)) : Prog demoSig (Except DemoError (Except DemoError Unit))) q :=
    Prog.Obeys.bind (syncServerTime_obeys q) (fun _ _ _ => trivial)
  exact Prog.Obeys.exceptBind hlift (fun _ _ _ => trivial)

theorem getTimestamp_obeys (q : List Own) :
    Prog.Obeys (Moves api lib) (Machine.Ends (fun _ => True) Stamped)
      (getTimestamp api lib : Prog demoSig (Except DemoError String)) q := by
  have hstamp : ∀ q : List Own,
      Prog.Obeys (Moves api lib) (Machine.Ends (fun _ => True) Stamped) ((do
      let localTime ← systemTime
      let offset ← readOffset
      return toString (localTime + offset : Int) : DemoM String) :
        Prog demoSig (Except DemoError String)) q := by
    intro q localTime
    refine ⟨_,free_moves q .systemTime localTime trivial,?_⟩
    cases localTime with
    | error e => trivial
    | ok localTime =>
      refine fun offset => ⟨_,free_moves _ .readOffset offset trivial,?_⟩
      exact ⟨q,localTime,offset,by simp,rfl⟩
  intro elapsed
  refine ⟨_,free_moves q .lastSyncElapsed elapsed trivial,?_⟩
  change Prog.Obeys _ _ ((if elapsed > resyncAfter then _ else _ : DemoM String) : Prog demoSig _) _
  split
  · exact Prog.Obeys.exceptBind (resync_obeys _) (fun _ q' _ => hstamp q')
  · exact hstamp _

theorem fetchOrderBookDepth_free (symbol : String) (levels : Nat) :
    Prog.Only Free (fetchOrderBookDepth api lib symbol levels : Prog demoSig
      (Except DemoError DemoDepth)) := by
  refine Prog.Only.exceptBind ⟨trivial,fun _ => trivial⟩ (fun response => ?_)
  refine Prog.Only.exceptBind trivial (fun sides => ?_)
  refine Prog.Only.exceptBind ⟨trivial,fun _ => trivial⟩ (fun timestamp => ?_)
  exact ⟨trivial,fun _ => trivial⟩

theorem getOrderBookDepth_free (symbol : String) (levels : Nat) :
    Prog.Only Free (getOrderBookDepth api lib symbol levels : Prog demoSig
      (Except DemoError DemoDepth)) := by
  refine Prog.Only.exceptBind ⟨trivial,fun _ => trivial⟩ (fun found => ?_)
  split
  · split
    · trivial
    · exact fetchOrderBookDepth_free symbol levels
  · exact fetchOrderBookDepth_free symbol levels

theorem getBestBid_free (symbol : String) :
    Prog.Only Free (getBestBid api lib symbol : Prog demoSig (Except DemoError F64)) :=
  Prog.Only.exceptBind (getOrderBookDepth_free symbol 5) (fun _ => trivial)

theorem getBestAsk_free (symbol : String) :
    Prog.Only Free (getBestAsk api lib symbol : Prog demoSig (Except DemoError F64)) :=
  Prog.Only.exceptBind (getOrderBookDepth_free symbol 5) (fun _ => trivial)

/-- Calls that neither store an offset nor reply with a timestamp. -/
theorem free_results {α : Type} {p : DemoM α}
    (hp : Prog.Only Free (p : Prog demoSig (Except DemoError α))) {reply : α → DemoReply}
    (hr : ∀ a text, reply a ≠ .timestamp text) (q : List Own) :
    Prog.Obeys (Moves api lib) Results
      ((do return reply (← p) : DemoM DemoReply) : Prog demoSig (Except DemoError DemoReply))
        q := by
  refine Prog.Obeys.bind (Free.obeys hp (Q := fun _ _ => True) (fun _ _ => trivial) q)
    (fun r q _ => ?_)
  cases r with
  | error e => exact fun text he => by cases he
  | ok a =>
    intro text he
    exact absurd (Except.ok.inj he) (hr a text)

theorem body_obeys (label : DemoCall) (q : List Own) :
    (body api lib label).Obeys (Moves api lib) Results q := by
  cases label with
  | syncServerTime =>
    refine Prog.Obeys.bind (syncServerTime_obeys q) (fun r q _ => ?_)
    cases r with
    | error e => exact fun text he => by cases he
    | ok u => exact fun text he => by cases he
  | getTimestamp =>
    refine Prog.Obeys.bind (getTimestamp_obeys q) (fun r q h => ?_)
    cases r with
    | error e => exact fun text he => by cases he
    | ok text =>
      intro text' he
      cases he
      exact h
  | getOrderBookDepth symbol levels =>
    exact free_results (getOrderBookDepth_free symbol levels) (by simp) q
  | getBestBid symbol => exact free_results (getBestBid_free symbol) (by simp) q
  | getBestAsk symbol => exact free_results (getBestAsk_free symbol) (by simp) q

end Obeys

section Steps

/-- An offset with the time request that it was measured with. -/
structure Sample (api : DemoApi) (lib : Library) (history : List DemoServed) (offset : Int) where
  caller : Nat
  sent : Nat
  answered : Nat
  received : Nat
  before : Nat
  after : Nat
  response : HttpResponse
  json : Json
  server : Int
  sent_mem : ⟨caller,sent,.systemTime,.ok before⟩ ∈ history
  answered_mem : ⟨caller,answered,.get api.timeUrl,.ok response⟩ ∈ history
  received_mem : ⟨caller,received,.systemTime,.ok after⟩ ∈ history
  sent_le : sent ≤ answered
  answered_le : answered ≤ received
  decoded : decode lib response.text = .ok json
  read : api.serverTime json = some server
  offset_eq : offset = ClockOffset.estimate server before after

variable (api lib) in
/-- The offset is zero, and none was stored yet, or it was measured. -/
def Stored (history : List DemoServed) (offset : Int) : Prop :=
  (offset = 0 ∧ ∀ e ∈ history, ∀ x, e.op ≠ .storeOffset x) ∨
    Nonempty (Sample api lib history offset)

variable (api lib env) in
/-- The clocks, what was served, and what each call was answered. -/
structure Kept (w : DemoWorld) (ghosts : List (List Own)) : Prop where
  past : ∀ e ∈ w.history, e.instant ≤ w.now
  sorted : w.history.Pairwise (fun e f => e.instant ≤ f.instant)
  callers : ∀ e ∈ w.history, e.caller < ghosts.length
  owned : ∀ {n q}, ghosts[n]? = some q → (w.history.filter (fun e => e.caller = n)).map own = q
  clock : ∀ {n t} {m : Nat}, ⟨n,t,.systemTime,.ok m⟩ ∈ w.history → (m : Int) = env.systemClock t
  offset : Stored api lib w.history w.timeOffset
  reads : ∀ {n t offset}, ⟨n,t,.readOffset,offset⟩ ∈ w.history →
    ∃ before after, w.history = before ++ ⟨n,t,.readOffset,offset⟩ :: after ∧
      Stored api lib before offset

variable {w w' : DemoWorld} {ghosts : List (List Own)} {q q' : List Own} {n : Nat} {op : DemoOp}

theorem kept_new (start : Nat) : Kept api lib env (.new start) [] where
  past e he := by cases he
  sorted := .nil
  callers e he := by cases he
  owned h := by cases h
  clock h := by cases h
  offset := .inl ⟨rfl,by simp [DemoWorld.new]⟩
  reads h := by cases h

def Sample.mono {history history' : List DemoServed} {offset : Int}
    (h : Sample api lib history offset) (hsub : ∀ e ∈ history, e ∈ history') :
    Sample api lib history' offset :=
  { h with
    sent_mem := hsub _ h.sent_mem
    answered_mem := hsub _ h.answered_mem
    received_mem := hsub _ h.received_mem }

theorem own_served {e : DemoServed} {r : op.Ans} (hn : e.caller = n) (h : own e = ⟨op,r⟩) :
    e = ⟨n,e.instant,op,r⟩ := by
  obtain ⟨caller,instant,op',ans⟩ := e
  cases h
  cases hn
  rfl

/-- An event of a call stands in the history. -/
theorem served_of_own {events : List DemoServed}
    (hf : w.history.filter (fun e => e.caller = n) = events) {e : DemoServed} (he : e ∈ events)
    {r : op.Ans} (ho : own e = ⟨op,r⟩) : ⟨n,e.instant,op,r⟩ ∈ w.history := by
  rw [← hf] at he
  obtain ⟨hin,hc⟩ := List.mem_filter.mp he
  rw [← own_served (by simpa using hc) ho]
  exact hin

/-- What a call was answered one after another stands in the history in this order. -/
theorem Kept.sample (h : Kept api lib env w ghosts) (hq : ghosts[n]? = some q) {offset : Int}
    (hm : Measured api lib q offset) : Nonempty (Sample api lib w.history offset) := by
  obtain ⟨start,mid,before,after,response,json,server,hshape,hjson,hserver,hoffset⟩ := hm
  have howned := h.owned hq
  have hsorted := h.sorted.filter (fun e => e.caller = n)
  rw [hshape] at howned
  obtain ⟨front,back,hfilter,hfront,hback⟩ := List.map_eq_append_iff.mp howned
  obtain ⟨_,sends,rfl,_,hsends⟩ := List.map_eq_append_iff.mp hfront
  obtain ⟨e,_,rfl,he,_⟩ := List.map_eq_cons_iff.mp hsends
  obtain ⟨f,_,rfl,hf,hrest⟩ := List.map_eq_cons_iff.mp hback
  obtain ⟨g,_,rfl,hg,_⟩ := List.map_eq_cons_iff.mp hrest
  rw [hfilter] at hsorted
  have hef : e.instant ≤ f.instant := (List.pairwise_append.mp hsorted).2.2 e (by simp) f (by simp)
  have hfg : f.instant ≤ g.instant :=
    (List.pairwise_cons.mp (List.pairwise_append.mp hsorted).2.1).1 g (by simp)
  exact ⟨⟨n,e.instant,f.instant,g.instant,before,after,response,json,server,
    served_of_own hfilter (by simp) he,served_of_own hfilter (by simp) hf,
      served_of_own hfilter (by simp) hg,
    hef,hfg,hjson,hserver,hoffset⟩⟩

theorem Stored.append {history : List DemoServed} {offset : Int} {e : DemoServed}
    (h : Stored api lib history offset) (he : ∀ x, e.op ≠ .storeOffset x) :
    Stored api lib (history ++ [e]) offset := by
  rcases h with ⟨hzero,hnone⟩ | hsample
  · refine .inl ⟨hzero,fun f hf => ?_⟩
    rcases List.mem_append.mp hf with hf | hf
    · exact hnone f hf
    · rw [List.mem_singleton.mp hf]
      exact he
  · obtain ⟨sample⟩ := hsample
    exact .inr ⟨sample.mono (fun _ he => List.mem_append_left _ he)⟩

theorem serve_systemTime {m : Nat} (h : ((machine env n).serve .systemTime w).1 = .ok m) :
    (m : Int) = env.systemClock (w.now + (env.move w.tick).delay) := by
  change (if 0 ≤ env.systemClock (w.now + (env.move w.tick).delay) then _ else _) = _ at h
  split at h
  · rename_i hpos
    rw [← Except.ok.inj h]
    exact Int.toNat_of_nonneg hpos
  · cases h

/-- What the next request leaves stored. -/
theorem Kept.stored (h : Kept api lib env w ghosts) (hq : ghosts[n]? = some q)
    (hstore : ∀ offset, op = .storeOffset offset → Measured api lib q offset) :
    Stored api lib ((machine env n).serve op w).2.history
      ((machine env n).serve op w).2.timeOffset := by
  rw [serve_history]
  by_cases hop : ∃ offset, op = .storeOffset offset
  · obtain ⟨offset,rfl⟩ := hop
    obtain ⟨sample⟩ := h.sample hq (hstore offset rfl)
    exact .inr ⟨sample.mono (fun _ he => List.mem_append_left _ he)⟩
  · have hne : ∀ offset, op ≠ .storeOffset offset := fun offset he => hop ⟨offset,he⟩
    rw [serve_offset hne]
    exact h.offset.append hne

/-- The next request of a call. -/
theorem kept_step (h : Kept api lib env w ghosts) (hq : ghosts[n]? = some q)
    (hm : Moves api lib q op ((machine env n).serve op w).1 q') :
    Kept api lib env ((machine env n).serve op w).2 (ghosts.set n q') := by
  have hlater : w.now ≤ ((machine env n).serve op w).2.now := by simp [serve_now]
  have hn : n < ghosts.length := (List.getElem?_eq_some_iff.mp hq).1
  obtain ⟨rfl,hstore⟩ := hm
  constructor
  case past =>
    intro e he
    rw [serve_history] at he
    rcases List.mem_append.mp he with he | he
    · exact (h.past e he).trans hlater
    · rw [List.mem_singleton.mp he,serve_now]
  case sorted =>
    rw [serve_history,List.pairwise_append]
    refine ⟨h.sorted,List.pairwise_singleton _ _,fun e he f hf => ?_⟩
    rw [List.mem_singleton.mp hf]
    exact (h.past e he).trans (Nat.le_add_right ..)
  case callers =>
    intro e he
    rw [List.length_set]
    rw [serve_history] at he
    rcases List.mem_append.mp he with he | he
    · exact h.callers e he
    · rw [List.mem_singleton.mp he]
      exact hn
  case owned =>
    intro k p hk
    rw [serve_history,List.filter_append,List.map_append]
    rcases (Pool.ghost_set hq).mp hk with ⟨rfl,rfl⟩ | ⟨hne,hk⟩
    · rw [h.owned hq]
      simp [own]
    · rw [h.owned hk]
      simp [Ne.symm hne]
  case clock =>
    intro k t m he
    rw [serve_history] at he
    rcases List.mem_append.mp he with he | he
    · exact h.clock he
    · generalize hans : ((machine env n).serve op w).1 = ans at he
      cases List.mem_singleton.mp he
      exact serve_systemTime hans
  case offset => exact h.stored hq hstore
  case reads =>
    intro k t offset he
    rw [serve_history] at he ⊢
    rcases List.mem_append.mp he with he | he
    · obtain ⟨before,after,hsplit,hstored⟩ := h.reads he
      exact ⟨before,after ++ [_],by rw [hsplit,List.append_assoc,List.cons_append],hstored⟩
    · generalize hans : ((machine env n).serve op w).1 = ans at he ⊢
      cases List.mem_singleton.mp he
      exact ⟨w.history,[],rfl,hans ▸ h.offset⟩

/-- A call begins. -/
theorem Kept.start (h : Kept api lib env w ghosts) : Kept api lib env w (ghosts ++ [[]]) where
  past := h.past
  sorted := h.sorted
  callers e he := by simpa using Nat.lt_succ_of_lt (h.callers e he)
  owned hk := by
    rcases Pool.ghost_new.mp hk with ⟨rfl,rfl⟩ | hk
    · have hnone : w.history.filter (fun e => e.caller = ghosts.length) = [] := by
        apply List.filter_eq_nil_iff.mpr
        intro e he
        simpa using Nat.ne_of_lt (h.callers e he)
      rw [hnone]
      rfl
    · exact h.owned hk
  clock := h.clock
  offset := h.offset
  reads := h.reads

end Steps

section Runs

variable (api lib env) in
theorem run_kept (start : Nat) (acts : List (Act DemoCall)) :
    ∃ ghosts, Pool.Tracked (Moves api lib) (fun _ => Results) (run api lib env start acts) ghosts ∧
      Kept api lib env (run api lib env start acts).shared ghosts := by
  refine Pool.run_tracked (C := fun _ _ => True) (J := fun s gs =>
    Kept api lib env s.shared gs) ?_ ?_
    (Pool.meets_true _ _ _ _) (Pool.tracked_new _) (kept_new start)
  · intro s gs label _ ht hj
    exact ⟨[],body_obeys label [],hj.start⟩
  · intro s gs n label op next q q' _ _ hj hc hq hm
    exact kept_step hj hq hm

variable {start : Nat} {acts : List (Act DemoCall)} {n : Nat}
  {c : Call DemoCall demoSig (Except DemoError DemoReply)}

/-- What a timestamp was made of: the local time, read at `instant`, and the offset that was kept
when it was read. -/
theorem timestamp_made (hc : (run api lib env start acts).calls[n]? = some c) {text : String}
    (hr : c.result = some (.ok (.timestamp text))) :
    ∃ (localTime : Nat) (offset : Int) (instant : Nat) (before after : List DemoServed) (t : Nat),
      text = toString (localTime + offset : Int) ∧ (localTime : Int) = env.systemClock instant ∧
      ⟨n,instant,.systemTime,.ok localTime⟩ ∈ (run api lib env start acts).shared.history ∧
      (run api lib env start acts).shared.history = before ++ ⟨n,t,.readOffset,offset⟩ :: after ∧
      Stored api lib before offset := by
  obtain ⟨ghosts,ht,hkept⟩ := run_kept api lib env start acts
  obtain ⟨q,hq,hresult⟩ := ht.result hc hr
  obtain ⟨front,localTime,offset,hshape,htext⟩ := hresult text rfl
  have howned := hkept.owned hq
  rw [hshape] at howned
  obtain ⟨_,back,hfilter,_,hback⟩ := List.map_eq_append_iff.mp howned
  obtain ⟨e,_,rfl,he,hrest⟩ := List.map_eq_cons_iff.mp hback
  obtain ⟨f,_,rfl,hf,_⟩ := List.map_eq_cons_iff.mp hrest
  have hein := served_of_own hfilter (by simp) he
  obtain ⟨before,after,hsplit,hstored⟩ := hkept.reads (served_of_own hfilter (by simp) hf)
  exact ⟨localTime,offset,e.instant,before,after,f.instant,htext,hkept.clock hein,hein,
    hsplit,hstored⟩

/-- The time in a timestamp is the system clock's while no offset has been stored. From then on it
is off the server's, which is never set back, by at most half of a round trip that a call of the run
measured, rounded up, by what the clocks drifted apart and by the error of the server's answers. -/
theorem timestamps_follow_server (hc : (run api lib env start acts).calls[n]? = some c)
    {text : String} (hr : c.result = some (.ok (.timestamp text))) {server : Nat → Int}
    (hmono : Monotone server) {drift err : Int}
    (hdrift : ∀ t u, |(server t - env.systemClock t) - (server u - env.systemClock u)| ≤ drift)
    (htrue : ∀ caller t response json reading,
    ⟨caller,t,.get api.timeUrl,.ok response⟩ ∈ (run api lib env start acts).shared.history →
    decode lib response.text = .ok json → api.serverTime json = some reading →
    |reading - server t| ≤ err) :
    ∃ (time : Int) (instant : Nat), text = toString time ∧
      ⟨n,instant,.systemTime,.ok (env.systemClock instant).toNat⟩ ∈
        (run api lib env start acts).shared.history ∧
      ((time = env.systemClock instant ∧ ∃ before after t,
          (run api lib env start acts).shared.history =
            before ++ ⟨n,t,.readOffset,(0 : Int)⟩ :: after ∧
          ∀ e ∈ before, ∀ x, e.op ≠ .storeOffset x) ∨
        ∃ sample : Sample api lib (run api lib env start acts).shared.history (time -
          env.systemClock instant),
          2 * |time - server instant| ≤
            sample.after - sample.before + 1 + 2 * drift + 2 * err) := by
  obtain ⟨ghosts,_,hkept⟩ := run_kept api lib env start acts
  obtain ⟨localTime,offset,instant,before,after,t,htext,hlocal,hread,hsplit,hstored⟩ :=
    timestamp_made hc hr
  refine ⟨localTime + offset,instant,htext,?_,?_⟩
  · rw [← hlocal]
    exact hread
  · rcases hstored with ⟨rfl,hnone⟩ | hsample
    · exact .inl ⟨by rw [hlocal,add_zero],before,after,t,hsplit,hnone⟩
    · right
      obtain ⟨sample⟩ := hsample
      have hoffset : (localTime : Int) + offset - env.systemClock instant =
          offset := by rw [hlocal,add_sub_cancel_left]
      have hin : ∀ e ∈ before, e ∈ (run api lib env start acts).shared.history := fun e he => by
        rw [hsplit]
        exact List.mem_append_left _ he
      rw [hoffset]
      refine ⟨sample.mono hin,?_⟩
      have hclose := ClockOffset.adjusted_close hmono sample.sent_le sample.answered_le
        (fun u => hdrift u instant)
        (htrue _ _ _ _ _ (hin _ sample.answered_mem) sample.decoded sample.read)
      rw [← hkept.clock (hin _ sample.sent_mem),← hkept.clock (hin _ sample.received_mem),
        ← sample.offset_eq,← hlocal] at hclose
      exact hclose

end Runs

section Example

def fiveSecondsLib : Library := ⟨fun _ => some (.obj [("serverTime",.number "5000")]),id⟩

/-- Every request takes twenty milliseconds. -/
def slowEnv : DemoEnv where
  move := fun _ => ⟨20 * 10^6,.ok ⟨"200 OK",true,""⟩⟩
  systemClock := fun t => 1000 + t / 10^6

/-- A sync, and a timestamp after it. -/
def syncThenStamp : List (Act DemoCall) :=
  .start .syncServerTime :: List.replicate 6 (.step 0) ++ .start .getTimestamp ::
    List.replicate 3 (.step 1)

def stampRun : Calls := run binanceDemo fiveSecondsLib slowEnv 0 syncThenStamp

def isGet (e : DemoServed) : Bool :=
  match e.op with
  | .get _ => true
  | _ => false

/-- The server's clock is 3940 milliseconds ahead. -/
def serverClock (t : Nat) : Int := 4940 + t / 10^6

theorem stamp_within_round_trip : ∃ (time : Int) (instant : Nat), "5110" = toString time ∧
    ⟨1,instant,.systemTime,.ok (slowEnv.systemClock instant).toNat⟩ ∈ stampRun.shared.history ∧
    ((time = slowEnv.systemClock instant ∧ ∃ before after t,
        stampRun.shared.history = before ++ ⟨1,t,.readOffset,(0 : Int)⟩ :: after ∧
        ∀ e ∈ before, ∀ x, e.op ≠ .storeOffset x) ∨
      ∃ sample : Sample binanceDemo fiveSecondsLib stampRun.shared.history (time -
        slowEnv.systemClock instant),
        2 * |time - serverClock instant| ≤ sample.after - sample.before + 1 + 2 * 0 + 2 * 0) := by
  have hc : (run binanceDemo fiveSecondsLib slowEnv 0 syncThenStamp).calls[1]? = some _ := rfl
  refine timestamps_follow_server hc rfl ?_ (fun t u => ?_) ?_
  · intro t u h
    have hdiv : (t : Int) / 10^6 ≤ u / 10^6 := Int.ediv_le_ediv (by norm_num) (by exact_mod_cast h)
    simpa [serverClock] using hdiv
  · simp [serverClock,slowEnv]
  · intro caller t response json reading hget hjson hread
    have hgets : (run binanceDemo fiveSecondsLib slowEnv 0 syncThenStamp).shared.history.filter
        isGet =
        [⟨0,60 * 10^6,.get binanceDemo.timeUrl,.ok ⟨"200 OK",true,""⟩⟩] := rfl
    have hin := List.mem_filter.mpr ⟨hget,show isGet _ = true from rfl⟩
    rw [hgets] at hin
    cases List.mem_singleton.mp hin
    cases hjson
    have hserver : binanceDemo.serverTime (.obj [("serverTime",.number "5000")]) = some 5000 := by
      decide +kernel
    cases hserver.symm.trans hread
    decide

end Example

end SpreadArb.Proofs.Clock
