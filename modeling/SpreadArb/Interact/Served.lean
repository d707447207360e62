import SpreadArb.Interact.Join
import SpreadArb.Interact.Pool

namespace Interact

variable {ι : Type} {σ τ : Sig} {W α β ε : Type}

namespace Prog

/-- A fallible program goes on with what another one returned. -/
theorem Obeys.liftBind {S : Type} {T : S → (op : σ.Op) → σ.Ans op → S → Prop} {E : S → Prop}
    {p : Prog σ α} {f : α → ExceptT ε (Prog σ) β} {R : α → S → Prop} {Q : β → S → Prop} {q : S}
    (hp : p.Obeys T R q) (hf : ∀ a q', R a q' →
    Prog.Obeys T (Machine.Ends E Q) (f a : Prog σ (Except ε β)) q') :
    Prog.Obeys T (Machine.Ends E Q) (liftM p >>= f : ExceptT ε (Prog σ) β) q := by
  have hlift : Prog.Obeys T (Machine.Ends E R)
      ((liftM p : ExceptT ε (Prog σ) α) : Prog σ (Except ε α)) q :=
    Obeys.bind hp (fun _ _ h => h)
  exact Obeys.exceptBind hlift hf

end Prog

/-- A request that was served. -/
structure Served (σ : Sig) where
  caller : Nat
  op : σ.Op
  ans : σ.Ans op

/-- A request with its answer, as its caller knows it. -/
abbrev Own (σ : Sig) := (op : σ.Op) × σ.Ans op

/-- What a caller was answered. -/
def ownOf (n : Nat) (history : List (Served σ)) : List (Own σ) :=
  (history.filter (fun e => e.caller = n)).map (fun e => ⟨e.op,e.ans⟩)

theorem mem_of_own {n : Nat} {history : List (Served σ)} {op : σ.Op} {r : σ.Ans op}
    (h : ⟨op,r⟩ ∈ ownOf n history) : ⟨n,op,r⟩ ∈ history := by
  obtain ⟨e,he,heq⟩ := List.mem_map.mp h
  obtain ⟨hin,hcaller⟩ := List.mem_filter.mp he
  obtain ⟨caller,op',ans⟩ := e
  simp only [decide_eq_true_eq] at hcaller
  cases heq
  exact hcaller ▸ hin

/-- A shared state with the history of what was served. -/
structure Recorded (σ : Sig) (W : Type) where
  world : W
  history : List (Served σ)

/-- The machines with the history kept. -/
def recorded (m : Nat → Machine σ W) (n : Nat) : Machine σ (Recorded σ W) where
  serve op w :=
    (((m n).serve op w.world).1,
      ⟨((m n).serve op w.world).2,w.history ++ [⟨n,op,((m n).serve op w.world).1⟩]⟩)

/-- A call makes a request only where `L` allows it after what it was answered before. -/
def Told (L : ι → List (Own σ) → σ.Op → Prop) (q : ι × List (Own σ)) (op : σ.Op) (r : σ.Ans op)
    (q' : ι × List (Own σ)) : Prop :=
  q' = (q.1,q.2 ++ [⟨op,r⟩]) ∧ L q.1 q.2 op

variable {L : ι → List (Own σ) → σ.Op → Prop}

/-- Requests that are allowed at any time. -/
theorem Prog.Only.told {K : σ.Op → Prop} {label : ι} (hk : ∀ q op, K op → L label q op)
    {p : Prog σ α} (hp : p.Only K) (q : List (Own σ)) :
    p.Obeys (Told L) (fun _ q' => ∃ mid, q' = (label,q ++ mid) ∧ ∀ e ∈ mid, K e.1) (label,q) := by
  induction p generalizing q with
  | ret a => exact ⟨[],by simp,by simp⟩
  | call op next ih =>
    intro r
    refine ⟨_,⟨rfl,hk q op hp.1⟩,?_⟩
    refine Prog.Obeys.mono (ih r (hp.2 r) (q ++ [⟨op,r⟩])) ?_
    rintro a q' ⟨mid,rfl,hmid⟩
    refine ⟨⟨op,r⟩ :: mid,by simp,?_⟩
    intro e he
    obtain rfl | he := List.mem_cons.mp he
    · exact hp.1
    · exact hmid e he

/-- Each request of a call was allowed when it was made. -/
def Lawful (L : ι → List (Own σ) → σ.Op → Prop) (label : ι) (q : List (Own σ)) : Prop :=
  ∀ before e after, q = before ++ e :: after → L label before e.1

theorem Lawful.append {label : ι} {q : List (Own σ)} (h : Lawful L label q) {op : σ.Op}
    (hop : L label q op) (r : σ.Ans op) : Lawful L label (q ++ [⟨op,r⟩]) := by
  intro before e after heq
  obtain rfl | hlast := List.eq_nil_or_concat after
  · obtain ⟨rfl,he⟩ := List.append_inj' heq rfl
    cases he
    exact hop
  · obtain ⟨rest,last,rfl⟩ := hlast
    have hsplit : q ++ [⟨op,r⟩] = (before ++ e :: rest) ++ [last] := by simpa using heq
    obtain ⟨hq,_⟩ := List.append_inj' hsplit rfl
    exact h before e rest hq

namespace Pool

variable {m : Nat → Machine σ W} {body : ι → Prog σ α} {J : Recorded σ W → Prop} {Q : ι → α →
  List (Own σ) → Prop}

/-- What is known of a pool whose calls obey `L`. -/
structure KeptTold (L : ι → List (Own σ) → σ.Op → Prop) (J : Recorded σ W → Prop)
    (s : Pool ι σ (Recorded σ W) α) (ghosts : List (ι × List (Own σ))) : Prop where
  shared : J s.shared
  callers : ∀ e ∈ s.shared.history, e.caller < ghosts.length
  owned : ∀ (n : Nat) q, ghosts[n]? = some q → ownOf n s.shared.history = q.2
  labels : ∀ (n : Nat) c q, s.calls[n]? = some c → ghosts[n]? = some q → q.1 = c.label
  lawful : ∀ (n : Nat) q, ghosts[n]? = some q → Lawful L q.1 q.2

theorem ownOf_append {n k : Nat} {history : List (Served σ)} {op : σ.Op} {r : σ.Ans op} :
    ownOf k (history ++ [⟨n,op,r⟩]) = ownOf k history ++ if n = k then [⟨op,r⟩] else [] := by
  simp only [ownOf,List.filter_append,List.map_append]
  congr 1
  split
  · next h => simp [h]
  · next h => simp [h]

theorem ownOf_new {k : Nat} {history : List (Served σ)} (h : ∀ e ∈ history, e.caller < k) :
    ownOf k history = [] := by
  have hnone : history.filter (fun e => e.caller = k) = [] := by
    apply List.filter_eq_nil_iff.mpr
    intro e he
    simpa using Nat.ne_of_lt (h e he)
  rw [ownOf,hnone]
  rfl

theorem KeptTold.start {s : Pool ι σ (Recorded σ W) α} {ghosts : List (ι × List (Own σ))}
    (h : KeptTold L J s ghosts) (hlen : s.calls.length = ghosts.length) (label : ι) :
    KeptTold L J (s.act (recorded m) body (.start label)) (ghosts ++ [(label,[])]) where
  shared := h.shared
  callers e he := by simpa using Nat.lt_succ_of_lt (h.callers e he)
  owned n q hq := by
    obtain ⟨rfl,rfl⟩ | hq := ghost_new.mp hq
    · exact ownOf_new h.callers
    · exact h.owned n q hq
  labels n c q hc hq := by
    obtain ⟨rfl,rfl⟩ | hc := ghost_new.mp hc
    · obtain ⟨_,rfl⟩ | hq := ghost_new.mp hq
      · rfl
      · have hlt := (List.getElem?_eq_some_iff.mp hq).1
        exact absurd hlt (by omega)
    · obtain ⟨rfl,_⟩ | hq := ghost_new.mp hq
      · have hlt := (List.getElem?_eq_some_iff.mp hc).1
        exact absurd hlt (by omega)
      · exact h.labels n c q hc hq
  lawful n q hq := by
    obtain ⟨_,rfl⟩ | hq := ghost_new.mp hq
    · intro before e after heq
      simp at heq
    · exact h.lawful n q hq

theorem KeptTold.step {s : Pool ι σ (Recorded σ W) α} {ghosts : List (ι × List (Own σ))}
    (h : KeptTold L J s ghosts)
    (hserve : ∀ n w op label, J w → L label (ownOf n w.history) op →
    J ((recorded m n).serve op w).2) {n : Nat} {label : ι} {op : σ.Op} {next : σ.Ans op → Prog σ α}
    {q q' : ι × List (Own σ)} (hcall : s.calls[n]? = some ⟨label,.call op next⟩)
    (hq : ghosts[n]? = some q) (hmove : Told L q op ((recorded m n).serve op s.shared).1 q') :
    KeptTold L J ⟨((recorded m n).serve op s.shared).2,
      s.calls.set n ⟨label,next ((recorded m n).serve op s.shared).1⟩⟩ (ghosts.set n q') := by
  obtain ⟨rfl,hallowed⟩ := hmove
  have hown := h.owned n q hq
  have hn := (List.getElem?_eq_some_iff.mp hq).1
  constructor
  case shared =>
    rw [← hown] at hallowed
    exact hserve n s.shared op q.1 h.shared hallowed
  case callers =>
    intro e he
    rw [List.length_set]
    obtain he | he := List.mem_append.mp he
    · exact h.callers e he
    · rw [List.mem_singleton.mp he]
      exact hn
  case owned =>
    intro k p hk
    change ownOf k (s.shared.history ++ [⟨n,op,_⟩]) = p.2
    rw [ownOf_append]
    obtain ⟨rfl,rfl⟩ | ⟨hne,hk⟩ := (ghost_set hq).mp hk
    · rw [if_pos rfl,hown]
      rfl
    · rw [if_neg (Ne.symm hne),List.append_nil]
      exact h.owned k p hk
  case labels =>
    intro k c p hc hp
    obtain ⟨rfl,rfl⟩ | ⟨hne,hc⟩ := (ghost_set hcall).mp hc
    · obtain ⟨_,rfl⟩ | ⟨hne,_⟩ := (ghost_set hq).mp hp
      · exact h.labels k ⟨label,.call op next⟩ q hcall hq
      · exact absurd rfl hne
    · obtain ⟨rfl,_⟩ | ⟨_,hp⟩ := (ghost_set hq).mp hp
      · exact absurd rfl hne
      · exact h.labels k c p hc hp
  case lawful =>
    intro k p hk
    obtain ⟨_,rfl⟩ | ⟨_,hk⟩ := (ghost_set hq).mp hk
    · exact (h.lawful n q hq).append hallowed _
    · exact h.lawful k p hk

/-- What each call knows of itself holds of the history, whatever the others do meanwhile, and so
does what the requests that are allowed keep. -/
theorem run_told (hbody : ∀ label,
    (body label).Obeys (Told L) (fun a q => Q label a q.2) (label,[]))
    (hserve : ∀ n w op label, J w → L label (ownOf n w.history) op →
    J ((recorded m n).serve op w).2) {w : Recorded σ W} (hw : w.history = []) (hj : J w)
    (acts : List (Act ι)) :
    J (run (recorded m) body ⟨w,[]⟩ acts).shared ∧
      ∀ (n : Nat) c, (run (recorded m) body ⟨w,[]⟩ acts).calls[n]? = some c →
        Lawful L c.label (ownOf n (run (recorded m) body ⟨w,[]⟩ acts).shared.history) ∧
        ∀ a, c.result = some a →
          Q c.label a (ownOf n (run (recorded m) body ⟨w,[]⟩ acts).shared.history) := by
  have hrun : ∃ ghosts, Tracked (Told L) (fun label a q => Q label a q.2)
      (run (recorded m) body ⟨w,[]⟩ acts) ghosts ∧
      KeptTold L J (run (recorded m) body ⟨w,[]⟩ acts) ghosts := by
    refine run_tracked (C := fun _ _ => True) ?_ ?_ (meets_true _ _ _ _) (tracked_new w) ?_
    · intro s ghosts label _ htracked hkept
      exact ⟨(label,[]),hbody label,hkept.start htracked.length_eq label⟩
    · intro s ghosts n label op next q q' _ _ hkept hcall hq hmove
      exact hkept.step hserve hcall hq hmove
    · exact ⟨hj,by simp [hw],by simp,by simp,by simp⟩
  obtain ⟨ghosts,htracked,hkept⟩ := hrun
  refine ⟨hkept.shared,?_⟩
  intro n c hc
  obtain ⟨q,hq⟩ := htracked.ghost hc
  have hlabel := hkept.labels n c q hc hq
  have hown := hkept.owned n q hq
  constructor
  · rw [hown,← hlabel]
    exact hkept.lawful n q hq
  · intro a ha
    obtain ⟨q',hq',hresult⟩ := htracked.result hc ha
    rw [hq] at hq'
    cases hq'
    rw [hown]
    exact hresult

end Pool

end Interact
