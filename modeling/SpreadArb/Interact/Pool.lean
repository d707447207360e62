import SpreadArb.Interact.Program
import Mathlib.Data.List.Basic

namespace Interact

variable {ι : Type} {σ : Sig} {W S α β ε : Type}

namespace Prog

/-- Whatever the answers, each request moves the ghost state by `T`, and `Q` holds of the result
and of the ghost state it comes with. -/
def Obeys (T : S → (op : σ.Op) → σ.Ans op → S → Prop) (Q : α → S → Prop) : Prog σ α → S → Prop
  | .ret a, q => Q a q
  | .call op next, q => ∀ r, ∃ q', T q op r q' ∧ (next r).Obeys T Q q'

variable {T : S → (op : σ.Op) → σ.Ans op → S → Prop}

theorem Obeys.mono {p : Prog σ α} {Q Q' : α → S → Prop} {q : S} (h : p.Obeys T Q q)
    (hq : ∀ a q', Q a q' → Q' a q') : p.Obeys T Q' q := by
  induction p generalizing q with
  | ret a => exact hq a q h
  | call op next ih =>
    intro r
    obtain ⟨q',ht,hnext⟩ := h r
    exact ⟨q',ht,ih r hnext⟩

theorem Obeys.bind {p : Prog σ α} {f : α → Prog σ β} {R : α → S → Prop} {Q : β → S → Prop} {q : S}
    (hp : p.Obeys T R q) (hf : ∀ a q', R a q' → (f a).Obeys T Q q') : (p >>= f).Obeys T Q q := by
  change (Prog.bind p f).Obeys T Q q
  induction p generalizing q with
  | ret a => exact hf a q hp
  | call op next ih =>
    intro r
    obtain ⟨q',ht,hnext⟩ := hp r
    exact ⟨q',ht,ih r hnext⟩

/-- Requests that do not move the ghost state. -/
theorem Only.obeys {K : σ.Op → Prop} {Q : α → S → Prop} {q : S} (hk : ∀ op r, K op → T q op r q)
    {p : Prog σ α} (hp : p.Only K) (hq : ∀ a, Q a q) : p.Obeys T Q q := by
  induction p with
  | ret a => exact hq a
  | call op next ih => exact fun r => ⟨q,hk op r hp.1,ih r (hp.2 r)⟩

/-- Requests that keep an invariant of the ghost state. -/
theorem Only.obeysKept {K : σ.Op → Prop} {I : S → Prop} {Q : α → S → Prop} {q : S}
    (hk : ∀ q op r, I q → K op → ∃ q', T q op r q' ∧ I q') {p : Prog σ α} (hp : p.Only K) (hi : I q)
    (hq : ∀ a q, I q → Q a q) : p.Obeys T Q q := by
  induction p generalizing q with
  | ret a => exact hq a q hi
  | call op next ih =>
    intro r
    obtain ⟨q',ht,hi'⟩ := hk q op r hi hp.1
    exact ⟨q',ht,ih r (hp.2 r) hi'⟩

/-- A fallible program: `E` holds where it fails. -/
theorem Obeys.exceptBind {E : S → Prop} {x : ExceptT ε (Prog σ) α} {f : α → ExceptT ε (Prog σ) β}
    {R : α → S → Prop} {Q : β → S → Prop} {q : S}
    (hx : Prog.Obeys T (Machine.Ends E R) (x : Prog σ (Except ε α)) q)
    (hf : ∀ a q', R a q' → Prog.Obeys T (Machine.Ends E Q) (f a : Prog σ (Except ε β)) q') :
    Prog.Obeys T (Machine.Ends E Q) (x >>= f : ExceptT ε (Prog σ) β) q := by
  refine Obeys.bind hx (fun r q' h => ?_)
  cases r with
  | ok a => exact hf a q' h
  | error e => exact h

/-- A value that is there or not is no request. -/
theorem Obeys.ofExcept {E : S → Prop} {x : Except ε α} {f : α → ExceptT ε (Prog σ) β}
    {Q : β → S → Prop} {q : S} (he : E q)
    (hf : ∀ a, x = .ok a → Prog.Obeys T (Machine.Ends E Q) (f a : Prog σ (Except ε β)) q) :
    Prog.Obeys T (Machine.Ends E Q) (liftM x >>= f : ExceptT ε (Prog σ) β) q := by
  cases x with
  | ok a => exact hf a rfl
  | error e => exact he

end Prog

/-- A call under way: what was called, and what is left of it. -/
structure Call (ι : Type) (σ : Sig) (α : Type) where
  label : ι
  rest : Prog σ α

/-- What the call has returned. -/
def Call.result (c : Call ι σ α) : Option α :=
  match c.rest with
  | .ret a => some a
  | .call .. => none

theorem Call.result_eq_some {c : Call ι σ α} {a : α} : c.result = some a ↔ c.rest = .ret a := by
  obtain ⟨label,rest⟩ := c
  cases rest <;> simp [Call.result]

/-- The call has returned. -/
def Call.Done (c : Call ι σ α) : Prop := c.result.isSome = true

instance (c : Call ι σ α) : Decidable c.Done := inferInstanceAs (Decidable (_ = true))

/-- Calls that run against one shared state. One that has returned stays with its result. -/
structure Pool (ι : Type) (σ : Sig) (W α : Type) where
  shared : W
  calls : List (Call ι σ α)

/-- A call begins, or the call with this number makes its next request. -/
inductive Act (ι : Type) where
  | start (label : ι)
  | step (n : Nat)

namespace Pool

variable (m : Nat → Machine σ W) (body : ι → Prog σ α)

/-- The machine may tell the calls apart. -/
def act (s : Pool ι σ W α) : Act ι → Pool ι σ W α
  | .start label => { s with calls := s.calls ++ [⟨label,body label⟩] }
  | .step n =>
    match s.calls[n]? with
    | some ⟨label,.call op next⟩ =>
      ⟨((m n).serve op s.shared).2,s.calls.set n ⟨label,next ((m n).serve op s.shared).1⟩⟩
    | _ => s

def run (s : Pool ι σ W α) : List (Act ι) → Pool ι σ W α
  | [] => s
  | a :: acts => (s.act m body a).run acts

/-- Every act of the run meets `C` in the state before it. -/
def Meets (C : Pool ι σ W α → Act ι → Prop) (s : Pool ι σ W α) : List (Act ι) → Prop
  | [] => True
  | a :: acts => C s a ∧ (s.act m body a).Meets C acts

instance decidableMeets {C : Pool ι σ W α → Act ι → Prop} [hC : ∀ s a, Decidable (C s a)] :
    (s : Pool ι σ W α) → (acts : List (Act ι)) → Decidable (s.Meets m body C acts)
  | _, [] => .isTrue trivial
  | s, a :: acts =>
    have := decidableMeets (C := C) (s.act m body a) acts
    inferInstanceAs (Decidable (_ ∧ _))

theorem meets_true (s : Pool ι σ W α) (acts : List (Act ι)) :
    s.Meets m body (fun _ _ => True) acts := by
  induction acts generalizing s with
  | nil => trivial
  | cons a acts ih => exact ⟨trivial,ih _⟩

/-- What a step of a call does. -/
theorem step_cases (s : Pool ι σ W α) (n : Nat) :
    s.act m body (.step n) = s ∨ ∃ label op next, s.calls[n]? = some ⟨label,.call op next⟩ ∧
      s.act m body (.step n) =
        ⟨((m n).serve op s.shared).2,s.calls.set n ⟨label,next ((m n).serve op s.shared).1⟩⟩ := by
  cases hc : s.calls[n]? with
  | none =>
    left
    simp [act,hc]
  | some c =>
    obtain ⟨label,rest⟩ := c
    cases rest with
    | ret a =>
      left
      simp [act,hc]
    | call op next =>
      right
      exact ⟨label,op,next,rfl,by simp [act,hc]⟩

theorem run_cons (s : Pool ι σ W α) (a : Act ι) (acts : List (Act ι)) :
    s.run m body (a :: acts) = (s.act m body a).run m body acts := rfl

variable {m body}

section Ghosts

theorem ghost_set {ghosts : List S} {n k : Nat} {q q' e : S} (h : ghosts[n]? = some q) :
    (ghosts.set n q')[k]? = some e ↔ (k = n ∧ e = q') ∨ (k ≠ n ∧ ghosts[k]? = some e) := by
  have hn : n < ghosts.length := (List.getElem?_eq_some_iff.mp h).1
  by_cases hk : k = n
  · subst hk
    rw [List.getElem?_set_self hn]
    simp [eq_comm]
  · rw [List.getElem?_set_ne (Ne.symm hk)]
    simp [hk]

theorem ghost_new {ghosts : List S} {k : Nat} {q e : S} :
    (ghosts ++ [q])[k]? = some e ↔ (k = ghosts.length ∧ e = q) ∨ ghosts[k]? = some e := by
  rcases Nat.lt_trichotomy k ghosts.length with hk | rfl | hk
  · rw [List.getElem?_append_left hk]
    simp [Nat.ne_of_lt hk]
  · simp [eq_comm]
  · rw [List.getElem?_eq_none (by simp; omega),List.getElem?_eq_none (Nat.le_of_lt hk)]
    simp [Nat.ne_of_gt hk]

theorem ghost_same {ghosts : List S} {n : Nat} {q : S} (h : ghosts[n]? = some q) :
    ghosts.set n q = ghosts := by
  apply List.ext_getElem?
  intro k
  apply Option.ext
  intro e
  rw [ghost_set h]
  constructor
  · rintro (⟨rfl,rfl⟩ | ⟨_,he⟩)
    · exact h
    · exact he
  · intro he
    by_cases hk : k = n
    · subst hk
      exact .inl ⟨rfl,Option.some.inj (he.symm.trans h)⟩
    · exact .inr ⟨hk,he⟩

variable {T : S → (op : σ.Op) → σ.Ans op → S → Prop} {Q : ι → α → S → Prop}

/-- Each call obeys `T` from its own ghost state on. -/
structure Tracked (T : S → (op : σ.Op) → σ.Ans op → S → Prop) (Q : ι → α → S → Prop)
    (s : Pool ι σ W α) (ghosts : List S) : Prop where
  length_eq : s.calls.length = ghosts.length
  obeys : ∀ (n : Nat) (c : Call ι σ α) (q : S), s.calls[n]? = some c → ghosts[n]? = some q →
    c.rest.Obeys T (Q c.label) q

theorem Tracked.ghost {s : Pool ι σ W α} {ghosts : List S} (h : Tracked T Q s ghosts) {n : Nat}
    {c : Call ι σ α} (hc : s.calls[n]? = some c) : ∃ q, ghosts[n]? = some q := by
  have hn : n < s.calls.length := (List.getElem?_eq_some_iff.mp hc).1
  exact ⟨_,List.getElem?_eq_getElem (h.length_eq ▸ hn)⟩

theorem Tracked.result {s : Pool ι σ W α} {ghosts : List S} (h : Tracked T Q s ghosts) {n : Nat}
    {c : Call ι σ α} {a : α} (hc : s.calls[n]? = some c) (ha : c.result = some a) :
    ∃ q, ghosts[n]? = some q ∧ Q c.label a q := by
  obtain ⟨q,hq⟩ := h.ghost hc
  have hobeys := h.obeys n c q hc hq
  rw [Call.result_eq_some.mp ha] at hobeys
  exact ⟨q,hq,hobeys⟩

theorem tracked_new (w : W) : Tracked T Q (⟨w,[]⟩ : Pool ι σ W α) [] where
  length_eq := rfl
  obeys n c q hc := by simp at hc

theorem Tracked.start {s : Pool ι σ W α} {ghosts : List S} (h : Tracked T Q s ghosts) {label : ι}
    {q : S} (hb : (body label).Obeys T (Q label) q) :
    Tracked T Q (s.act m body (.start label)) (ghosts ++ [q]) where
  length_eq := by simp [act,h.length_eq]
  obeys n c q' hc hq := by
    simp only [act] at hc
    rcases Nat.lt_or_ge n s.calls.length with hn | hn
    · rw [List.getElem?_append_left hn] at hc
      rw [List.getElem?_append_left (h.length_eq ▸ hn)] at hq
      exact h.obeys n c q' hc hq
    · rw [List.getElem?_append_right hn] at hc
      rw [List.getElem?_append_right (h.length_eq ▸ hn)] at hq
      rw [← h.length_eq] at hq
      cases hk : n - s.calls.length with
      | zero =>
        rw [hk] at hc hq
        cases hc
        cases hq
        exact hb
      | succ k =>
        rw [hk] at hc
        cases hc

theorem Tracked.step {s : Pool ι σ W α} {ghosts : List S} (h : Tracked T Q s ghosts) {n : Nat}
    {label : ι} {op : σ.Op} {next : σ.Ans op → Prog σ α} {q : S}
    (hc : s.calls[n]? = some ⟨label,.call op next⟩) (hq : ghosts[n]? = some q)
    (r : σ.Ans op) (w : W) :
    ∃ q', T q op r q' ∧ Tracked T Q ⟨w,s.calls.set n ⟨label,next r⟩⟩ (ghosts.set n q') := by
  obtain ⟨q',ht,hnext⟩ := h.obeys n _ q hc hq r
  refine ⟨q',ht,by simp [h.length_eq],fun k c p hk hp => ?_⟩
  have hn : n < s.calls.length := (List.getElem?_eq_some_iff.mp hc).1
  by_cases hkn : n = k
  · subst hkn
    rw [List.getElem?_set_self hn] at hk
    rw [List.getElem?_set_self (h.length_eq ▸ hn)] at hp
    cases hk
    cases hp
    exact hnext
  · rw [List.getElem?_set_ne hkn] at hk hp
    exact h.obeys k c p hk hp

/-- What holds of the pool and of the ghost states is kept by a run if it is kept by the calls that
begin and by each request of a call. -/
theorem run_tracked {C : Pool ι σ W α → Act ι → Prop} {J : Pool ι σ W α → List S → Prop}
    (hstart : ∀ s ghosts label, C s (.start label) → Tracked T Q s ghosts → J s ghosts →
      ∃ q, (body label).Obeys T (Q label) q ∧ J (s.act m body (.start label)) (ghosts ++ [q]))
    (hstep : ∀ (s : Pool ι σ W α) (ghosts : List S) (n : Nat) (label : ι) (op : σ.Op)
      (next : σ.Ans op → Prog σ α) (q q' : S), C s (.step n) → Tracked T Q s ghosts → J s ghosts →
      s.calls[n]? = some ⟨label,.call op next⟩ → ghosts[n]? = some q →
      T q op ((m n).serve op s.shared).1 q' →
      J ⟨((m n).serve op s.shared).2,s.calls.set n ⟨label,next ((m n).serve op s.shared).1⟩⟩
        (ghosts.set n q'))
    {acts : List (Act ι)} {s : Pool ι σ W α} {ghosts : List S} (hm : s.Meets m body C acts)
    (ht : Tracked T Q s ghosts) (hj : J s ghosts) :
    ∃ ghosts', Tracked T Q (s.run m body acts) ghosts' ∧ J (s.run m body acts) ghosts' := by
  induction acts generalizing s ghosts with
  | nil => exact ⟨ghosts,ht,hj⟩
  | cons a acts ih =>
    obtain ⟨hc,hm⟩ := hm
    cases a with
    | start label =>
      obtain ⟨q,hb,hj'⟩ := hstart s ghosts label hc ht hj
      exact ih hm (ht.start hb) hj'
    | step n =>
      rcases step_cases m body s n with hsame | ⟨label,op,next,hcall,hact⟩
      · rw [run_cons]
        rw [hsame] at hm ⊢
        exact ih hm ht hj
      · obtain ⟨q,hq⟩ := ht.ghost hcall
        obtain ⟨q',hstepped,ht'⟩ :=
          ht.step hcall hq ((m n).serve op s.shared).1 ((m n).serve op s.shared).2
        rw [run_cons]
        rw [hact] at hm ⊢
        exact ih hm ht' (hstep s ghosts n label op next q q' hc ht hj hcall hq hstepped)

end Ghosts

end Pool

end Interact
