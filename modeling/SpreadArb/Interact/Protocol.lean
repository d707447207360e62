import SpreadArb.Interact.Join

namespace Interact

variable {σ τ : Sig} {V S α β ε : Type}

namespace Prog

/-- Whatever the answers, the program makes requests that the automaton `δ` admits from `q` on,
and `Q` holds of its result and of the state the automaton ends in. -/
def Follows (δ : S → σ.Op → Option S) (Q : α → S → Prop) : Prog σ α → S → Prop
  | .ret a, q => Q a q
  | .call op next, q => ∃ q', δ q op = some q' ∧ ∀ r, (next r).Follows δ Q q'

variable {δ : S → σ.Op → Option S}

theorem Follows.bind {p : Prog σ α} {f : α → Prog σ β} {R : α → S → Prop} {Q : β → S → Prop} {q : S}
    (hp : p.Follows δ R q) (hf : ∀ a q', R a q' → (f a).Follows δ Q q') :
    (p >>= f).Follows δ Q q := by
  change (Prog.bind p f).Follows δ Q q
  induction p generalizing q with
  | ret a => exact hf a q hp
  | call op next ih =>
    obtain ⟨q',hop,hnext⟩ := hp
    exact ⟨q',hop,fun r => ih r (hnext r)⟩

/-- Requests that do not move the automaton. -/
theorem Only.follows {K : σ.Op → Prop} {Q : α → S → Prop} {q : S}
    (hk : ∀ op, K op → δ q op = some q) {p : Prog σ α} (hp : p.Only K) (hq : ∀ a, Q a q) :
    p.Follows δ Q q := by
  induction p with
  | ret a => exact hq a
  | call op next ih => exact ⟨q,hk op hp.1,fun r => ih r (hp.2 r)⟩

/-- A fallible program: `E` holds where it fails. -/
theorem Follows.exceptBind {E : S → Prop} {x : ExceptT ε (Prog σ) α} {f : α → ExceptT ε (Prog σ) β}
    {R : α → S → Prop} {Q : β → S → Prop} {q : S}
    (hx : Prog.Follows δ (Machine.Ends E R) (x : Prog σ (Except ε α)) q)
    (hf : ∀ a q', R a q' → Prog.Follows δ (Machine.Ends E Q) (f a : Prog σ (Except ε β)) q') :
    Prog.Follows δ (Machine.Ends E Q) (x >>= f : ExceptT ε (Prog σ) β) q := by
  refine Follows.bind hx (fun r q' h => ?_)
  cases r with
  | ok a => exact hf a q' h
  | error e => exact h

theorem Follows.lift {E : S → Prop} {p : Prog σ α} {Q : α → S → Prop} {q : S}
    (hp : p.Follows δ Q q) : Prog.Follows δ (Machine.Ends E Q) (liftM p : ExceptT ε (Prog σ) α) q :=
  Follows.bind hp (fun _ _ h => h)

end Prog

namespace Machine

variable {m : Machine τ V} {C : V → τ.Op → Prop} {G : V → τ.Op → V → Prop}

/-- A program that keeps to the automaton keeps `J`, which ties the automaton to the machine. -/
theorem wpr_follows {f : σ.Op → τ.Op} {g : ∀ op, τ.Ans (f op) → σ.Ans op} {δ : S → σ.Op → Option S}
    {J : S → V → Prop}
    (hstep : ∀ q op q' v, δ q op = some q' → C v (f op) → J q v →
      G v (f op) (m.serve (f op) v).2 ∧ J q' (m.serve (f op) v).2)
    {p : Prog σ α} {Q : α → S → Prop} {q : S} (hp : p.Follows δ Q q) {v : V} (hv : J q v) :
    m.wpr (· = ·) C G (p.embed f g) (fun a u => ∃ q', Q a q' ∧ J q' u) v := by
  induction p generalizing q v with
  | ret a => exact ⟨q,hp,hv⟩
  | call op next ih =>
    obtain ⟨q',hop,hnext⟩ := hp
    intro u hu hc
    subst hu
    obtain ⟨hg,hj⟩ := hstep q op q' v hop hc hv
    exact ⟨hg,ih _ (hnext _) hj⟩

section Comes

variable {m : Machine σ V} {K : σ.Op → Prop}

/-- The run of the first program makes requests of `K` and goes on as the second one. -/
inductive Comes (m : Machine σ V) (K : σ.Op → Prop) : Prog σ α → V → Prog σ α → V → Prop
  | here (p : Prog σ α) (w : V) : Comes m K p w p w
  | call {op : σ.Op} {next : σ.Ans op → Prog σ α} {w v : V} {q : Prog σ α} (hk : K op)
    (h : Comes m K (next (m.serve op w).1) (m.serve op w).2 q v) : Comes m K (.call op next) w q v

theorem Comes.run_eq {p q : Prog σ α} {w v : V} (h : Comes m K p w q v) :
    m.run p w = m.run q v := by
  induction h with
  | here p w => rfl
  | call hk h ih => exact ih

theorem Comes.along {C : V → σ.Op → Prop} {p q : Prog σ α} {w v : V} (h : Comes m K p w q v)
    (hp : m.Along C p w) : m.Along C q v := by
  induction h with
  | here p w => exact hp
  | call hk h ih => exact ih hp.2

theorem Comes.along_of {C : V → σ.Op → Prop} (hc : ∀ w op, K op → C w op) {p q : Prog σ α} {w v : V}
    (h : Comes m K p w q v) (hq : m.Along C q v) : m.Along C p w := by
  induction h with
  | here p w => exact hq
  | call hk h ih => exact ⟨hc _ _ hk,ih hq⟩

theorem Comes.seq {p : Prog σ α} {f : α → Prog σ β} {q : Prog σ β} {w v u : V} {a : α}
    (hp : p.Only K) (hrun : m.run p w = (a,v)) (h : Comes m K (f a) v q u) :
    Comes m K (p >>= f) w q u := by
  change Comes m K (p.bind f) w q u
  induction p generalizing w with
  | ret b =>
    obtain ⟨rfl,rfl⟩ := Prod.mk.inj hrun
    exact h
  | call op next ih => exact .call hp.1 (ih _ (hp.2 _) hrun)

theorem Comes.bind {p q : Prog σ α} {f : α → Prog σ β} {w v : V} (h : Comes m K p w q v) :
    Comes m K (p >>= f) w (q >>= f) v := by
  induction h with
  | here p w => exact .here _ _
  | call hk h ih => exact .call hk ih

theorem along_only {p : Prog σ α} (hp : p.Only K) (w : V) : m.Along (fun _ op => K op) p w := by
  induction p generalizing w with
  | ret a => trivial
  | call op next ih => exact ⟨hp.1,ih _ (hp.2 _) _⟩

end Comes

end Machine

end Interact
