import SpreadArb.Interact.Program

namespace Interact

variable {σ τ : Sig} {W V α β γ ε : Type}

namespace Prog

/-- A program that makes some of the requests of a larger signature. -/
def embed (f : σ.Op → τ.Op) (g : ∀ op, τ.Ans (f op) → σ.Ans op) : Prog σ α → Prog τ α
  | .ret a => .ret a
  | .call op next => .call (f op) (fun r => (next (g op r)).embed f g)

theorem Only.embed {f : σ.Op → τ.Op} {g : ∀ op, τ.Ans (f op) → σ.Ans op} {K : σ.Op → Prop}
    {L : τ.Op → Prop} (hk : ∀ op, K op → L (f op)) {p : Prog σ α} (hp : p.Only K) :
    (p.embed f g).Only L := by
  induction p with
  | ret a => trivial
  | call op next ih => exact ⟨hk op hp.1,fun r => ih _ (hp.2 _)⟩

theorem Returns.embed {f : σ.Op → τ.Op} {g : ∀ op, τ.Ans (f op) → σ.Ans op} {Q : α → Prop}
    {p : Prog σ α} (hp : p.Returns Q) : (p.embed f g).Returns Q := by
  induction p with
  | ret a => exact hp
  | call op next ih => exact fun r => ih _ (hp _)

/-- Which of two joined programs makes the next request. One that has just made a request
it need not wait for (`busy`) goes on until it reaches one that it awaits; elsewhere the
scheduler chooses. -/
def goesLeft (await : σ.Op → Bool) (busy : Option Bool) (left right : σ.Op)
    (choice : Bool) : Bool :=
  match busy with
  | some true => !await left || choice
  | some false => await right && choice
  | none => choice

/-- After an awaited request the other program may run before its answer is looked at. -/
def after (await : σ.Op → Bool) (op : σ.Op) (side : Bool) : Option Bool :=
  if await op then none else some side

/-- The left program stands before the request `op`, and `left` goes on with its answer. -/
def joinCall (await : σ.Op → Bool) (schedule : Nat → Bool) (op : σ.Op)
    (left : σ.Ans op → Prog σ β → Option Bool → Nat → Prog σ (α × β)) :
    Prog σ β → Option Bool → Nat → Prog σ (α × β)
  | .ret b, _, n => .call op (fun r => left r (.ret b) none n)
  | .call op' next, busy, n =>
    if goesLeft await busy op op' (schedule n) then
      .call op (fun r => left r (.call op' next) (after await op true) (n+1))
    else
      .call op' (fun r => joinCall await schedule op left (next r) (after await op' false) (n+1))

/-- Two programs that one task runs in turns, switching at awaited requests only. -/
def join (await : σ.Op → Bool) (schedule : Nat → Bool) :
    Prog σ α → Prog σ β → Option Bool → Nat → Prog σ (α × β)
  | .ret a, q, _, _ => q.bind (fun b => .ret (a,b))
  | .call op next, q, busy, n =>
    joinCall await schedule op (fun r => join await schedule (next r)) q busy n

/-- Joined programs make no requests but their own. -/
theorem Only.join {await : σ.Op → Bool} {schedule : Nat → Bool} {K : σ.Op → Prop} {p : Prog σ α}
    (hp : p.Only K) : ∀ {q : Prog σ β} {busy : Option Bool} {n : Nat}, q.Only K →
    (p.join await schedule q busy n).Only K := by
  induction p with
  | ret a => exact fun hq => Only.bind hq (fun _ => trivial)
  | call op next ih =>
    intro q
    induction q with
    | ret b => exact fun hq => ⟨hp.1,fun r => ih r (hp.2 r) hq⟩
    | call op' next' ih' =>
      intro busy n hq
      change (joinCall await schedule op (fun r => (next r).join await schedule)
        (.call op' next') busy n).Only K
      unfold joinCall
      split
      · exact ⟨hp.1,fun r => ih r (hp.2 r) hq⟩
      · exact ⟨hq.1,fun r => ih' r (hq.2 r)⟩

end Prog

namespace Machine

variable (m : Machine σ W)

/-- `S` holds of every step that is reached by steps meeting `C` and meets it itself. -/
def Upholds (C S : W → σ.Op → Prop) : Prog σ α → W → Prop
  | .ret _, _ => True
  | .call op next, w => C w op → S w op ∧ Upholds C S (next (m.serve op w).1) (m.serve op w).2

/-- The run visits this state, and the steps up to it meet `C`. -/
def Visits (C : W → σ.Op → Prop) : Prog σ α → W → W → Prop
  | .ret _, w, v => v = w
  | .call op next, w, v => v = w ∨ (C w op ∧ Visits C (next (m.serve op w).1) (m.serve op w).2 v)

/-- Weakest precondition of a program that others interfere with: before each of its
requests the state may have moved by `R`, and each of its own steps guarantees `G`. -/
def wpr (R : W → W → Prop) (C : W → σ.Op → Prop) (G : W → σ.Op → W → Prop) :
    Prog σ α → (α → W → Prop) → W → Prop
  | .ret a, Q, w => Q a w
  | .call op next, Q, w => ∀ v, R w v → C v op →
    G v op (m.serve op v).2 ∧ wpr R C G (next (m.serve op v).1) Q (m.serve op v).2

instance decidableUpholds {C S : W → σ.Op → Prop} [hC : ∀ w op, Decidable (C w op)]
    [hS : ∀ w op, Decidable (S w op)] : (p : Prog σ α) → (w : W) → Decidable (m.Upholds C S p w)
  | .ret _, _ => .isTrue trivial
  | .call op next, w =>
    have := decidableUpholds (C := C) (S := S) (next (m.serve op w).1) (m.serve op w).2
    inferInstanceAs (Decidable (C w op → S w op ∧ _))

variable {m} {R R₁ R₂ : W → W → Prop} {C : W → σ.Op → Prop} {G G₁ G₂ : W → σ.Op → W → Prop}

@[simp] theorem wpr_ret {a : α} {Q : α → W → Prop} {w : W} :
    m.wpr R C G (.ret a) Q w ↔ Q a w := Iff.rfl

@[simp] theorem wpr_pure {a : α} {Q : α → W → Prop} {w : W} :
    m.wpr R C G (pure a) Q w ↔ Q a w := Iff.rfl

@[simp] theorem wpr_bind {p : Prog σ α} {f : α → Prog σ β} {Q : β → W → Prop} {w : W} :
    m.wpr R C G (p >>= f) Q w ↔ m.wpr R C G p (fun a => m.wpr R C G (f a) Q) w := by
  change m.wpr R C G (p.bind f) Q w ↔ _
  induction p generalizing w with
  | ret a => rfl
  | call op next ih => simp only [wpr,Prog.bind,ih]

theorem wpr_mono {p : Prog σ α} {Q Q' : α → W → Prop} {w : W} (h : m.wpr R C G p Q w)
    (hq : ∀ a v, Q a v → Q' a v) : m.wpr R C G p Q' w := by
  induction p generalizing w with
  | ret a => exact hq a w h
  | call op next ih =>
    intro v hr hc
    obtain ⟨hg,hn⟩ := h v hr hc
    exact ⟨hg,ih _ hn⟩

/-- Less interference and a weaker guarantee. -/
theorem wpr_weaken {p : Prog σ α} {Q : α → W → Prop} {w : W} (hr : ∀ a b, R₂ a b → R₁ a b)
    (hg : ∀ a op b, G₁ a op b → G₂ a op b) (h : m.wpr R₁ C G₁ p Q w) : m.wpr R₂ C G₂ p Q w := by
  induction p generalizing w with
  | ret a => exact h
  | call op next ih =>
    intro v hv hc
    obtain ⟨hgv,hn⟩ := h v (hr w v hv) hc
    exact ⟨hg _ _ _ hgv,ih _ hn⟩

/-- What holds now still holds after interference. -/
theorem wpr_shift {p : Prog σ α} {Q : α → W → Prop} {w v : W}
    (htrans : ∀ a b c, R a b → R b c → R a c) (hq : ∀ a w v, R w v → Q a w → Q a v)
    (h : m.wpr R C G p Q w) (hv : R w v) : m.wpr R C G p Q v := by
  cases p with
  | ret a => exact hq a w v hv h
  | call op next => exact fun u hu hc => h u (htrans _ _ _ hv hu) hc

/-- An invariant that neither the interference nor the program's requests break, and under
which they guarantee `G`. -/
theorem wpr_invariant {I : W → Prop} {K : σ.Op → Prop} (hr : ∀ a b, R a b → I a → I b)
    (hstep : ∀ op w, K op → C w op → I w → G w op (m.serve op w).2 ∧ I (m.serve op w).2)
    {p : Prog σ α} (hp : p.Only K) {w : W} (hw : I w) : m.wpr R C G p (fun _ v => I v) w := by
  induction p generalizing w with
  | ret a => exact hw
  | call op next ih =>
    intro v hv hc
    obtain ⟨hg,hi⟩ := hstep op v hp.1 hc (hr w v hv hw)
    exact ⟨hg,ih _ (hp.2 _) hi⟩

/-- A program that always returns results meeting `Q`, under a relation `F` that neither the
interference nor the program's requests break. -/
theorem wpr_returns {F : W → W → Prop} (hrefl : ∀ w, F w w)
    (htrans : ∀ a b c, F a b → F b c → F a c) (hr : ∀ a b, R a b → F a b) {K : σ.Op → Prop}
    (hstep : ∀ op w, K op → C w op → G w op (m.serve op w).2 ∧ F w (m.serve op w).2)
    {Q : α → Prop} {p : Prog σ α} (hp : p.Only K) (hq : p.Returns Q) (w : W) :
    m.wpr R C G p (fun a v => Q a ∧ F w v) w := by
  induction p generalizing w with
  | ret a => exact ⟨hq,hrefl w⟩
  | call op next ih =>
    intro v hv hc
    obtain ⟨hg,hf⟩ := hstep op v hp.1 hc
    refine ⟨hg,wpr_mono (ih _ (hp.2 _) (hq _) _) (fun _ u hu => ⟨hu.1,?_⟩)⟩
    exact htrans _ _ _ (htrans _ _ _ (hr _ _ hv) hf) hu.2

theorem wpr_ends_bind {E : W → Prop} {x : ExceptT ε (Prog σ) α} {f : α → ExceptT ε (Prog σ) β}
    {P : α → W → Prop} {Q : β → W → Prop} {w : W}
    (hx : m.wpr R C G (x : Prog σ (Except ε α)) (Ends E P) w)
    (hf : ∀ a w', P a w' → m.wpr R C G (f a : Prog σ (Except ε β)) (Ends E Q) w') :
    m.wpr R C G (x >>= f : ExceptT ε (Prog σ) β) (Ends E Q) w := by
  refine wpr_bind.mpr (wpr_mono hx (fun r w' h => ?_))
  cases r with
  | error e => exact h
  | ok a => exact hf a w' h

theorem wpr_ends_lift {p : Prog σ α} {f : α → ExceptT ε (Prog σ) β} {Q : Except ε β → W → Prop}
    {w : W} (h : m.wpr R C G p (fun a w' => m.wpr R C G (f a : Prog σ (Except ε β)) Q w') w) :
    m.wpr R C G (liftM p >>= f : ExceptT ε (Prog σ) β) Q w := by
  have hlift : m.wpr R C G (liftM p : ExceptT ε (Prog σ) α)
      (Ends (fun _ => False) (fun a w' => m.wpr R C G (f a : Prog σ (Except ε β)) Q w')) w :=
    wpr_bind.mpr h
  refine wpr_bind.mpr (wpr_mono hlift (fun r w' hr => ?_))
  cases r with
  | error e => exact hr.elim
  | ok a => exact hr

section Join

variable {await : σ.Op → Bool} {schedule : Nat → Bool}

/-- What one program leaves behind the other one does not break. -/
theorem wpr_keep {p : Prog σ α} {Q : α → W → Prop} {P : W → Prop} {w : W} (hrefl : ∀ w, R₂ w w)
    (hp : ∀ w op v, G₂ w op v → P w → P v) (h : m.wpr R₂ C G₂ p Q w) (hw : P w) :
    m.wpr (· = ·) C G₂ p (fun a v => P v ∧ Q a v) w := by
  induction p generalizing w with
  | ret a => exact ⟨hw,h⟩
  | call op next ih =>
    intro v hv hc
    obtain ⟨hg,hn⟩ := h v (hv ▸ hrefl w) hc
    exact ⟨hg,ih _ hn (hp _ _ _ hg (hv ▸ hw))⟩

variable (h₁refl : ∀ w, R₁ w w) (h₂refl : ∀ w, R₂ w w)
  (h₁trans : ∀ a b c, R₁ a b → R₁ b c → R₁ a c) (h₂trans : ∀ a b c, R₂ a b → R₂ b c → R₂ a c)
  (h₁₂ : ∀ w op v, G₁ w op v → R₂ w v) (h₂₁ : ∀ w op v, G₂ w op v → R₁ w v)
  {Q₁ : α → W → Prop} {Q₂ : β → W → Prop} (hq₁ : ∀ a w v, R₁ w v → Q₁ a w → Q₁ a v)
  (hq₂ : ∀ b w v, R₂ w v → Q₂ b w → Q₂ b v)

include h₁refl h₂refl h₁trans h₂trans h₁₂ h₂₁ hq₁ hq₂

/-- Two programs that each guarantee what the other relies on run together as they run
alone, whatever the schedule. -/
theorem wpr_join (p : Prog σ α) : ∀ (q : Prog σ β) (busy : Option Bool) (n : Nat) (w : W),
    m.wpr R₁ C G₁ p Q₁ w → m.wpr R₂ C G₂ q Q₂ w →
    m.wpr (· = ·) C (fun a op b => G₁ a op b ∨ G₂ a op b) (p.join await schedule q busy n)
      (fun r v => Q₁ r.1 v ∧ Q₂ r.2 v) w := by
  induction p with
  | ret a =>
    intro q busy n w hp hq
    have hkeep := wpr_keep (P := fun v => Q₁ a v) h₂refl
      (fun u op v hg => hq₁ a u v (h₂₁ u op v hg)) hq hp
    refine wpr_bind.mpr (wpr_mono (wpr_weaken (fun _ _ h => h) (fun _ _ _ h => .inr h) hkeep) ?_)
    exact fun b v h => h
  | call op next ih =>
    intro q
    induction q with
    | ret b =>
      intro busy n w hp hq v hv hc
      subst hv
      obtain ⟨hg,hn⟩ := hp w (h₁refl w) hc
      exact ⟨.inl hg,ih _ _ _ _ _ hn (hq₂ b w _ (h₁₂ _ _ _ hg) hq)⟩
    | call op' next' ih' =>
      intro busy n w hp hq
      have hstep : m.wpr (· = ·) C (fun a op b => G₁ a op b ∨ G₂ a op b)
          (Prog.joinCall await schedule op (fun r => (next r).join await schedule)
            (.call op' next') busy n) (fun r v => Q₁ r.1 v ∧ Q₂ r.2 v) w := by
        unfold Prog.joinCall
        split
        · intro v hv hc
          subst hv
          obtain ⟨hg,hn⟩ := hp w (h₁refl w) hc
          exact ⟨.inl hg,ih _ _ _ _ _ hn (wpr_shift h₂trans hq₂ hq (h₁₂ _ _ _ hg))⟩
        · intro v hv hc
          subst hv
          obtain ⟨hg,hn⟩ := hq w (h₂refl w) hc
          exact ⟨.inr hg,ih' _ _ _ _ (wpr_shift h₁trans hq₁ hp (h₂₁ _ _ _ hg)) hn⟩
      exact hstep

end Join

/-- A program that runs undisturbed inside a larger machine runs as it runs alone. `view` is
the part of the larger state it works on, and its requests keep `I`. -/
theorem wpr_embed {m' : Machine τ V} {f : σ.Op → τ.Op} {g : ∀ op, τ.Ans (f op) → σ.Ans op}
    {view : V → W} {C' : V → τ.Op → Prop} {G' : V → τ.Op → V → Prop} {I : V → Prop}
    (hans : ∀ op v, g op (m'.serve (f op) v).1 = (m.serve op (view v)).1)
    (hview : ∀ op v, view (m'.serve (f op) v).2 = (m.serve op (view v)).2)
    (hstep : ∀ op v, I v → G' v (f op) (m'.serve (f op) v).2 ∧ I (m'.serve (f op) v).2)
    {p : Prog σ α} {Q : α → W → Prop} {v : V} (h : m.wp (fun _ _ => True) p Q (view v)) (hv : I v) :
    m'.wpr (· = ·) C' G' (p.embed f g) (fun a u => I u ∧ Q a (view u)) v := by
  induction p generalizing v with
  | ret a => exact ⟨hv,h⟩
  | call op next ih =>
    intro u hu _
    subst hu
    obtain ⟨hg,hi⟩ := hstep op v hv
    refine ⟨hg,ih _ ?_ hi⟩
    rw [hans,hview]
    exact h trivial

/-- What an undisturbed program ends with. -/
theorem run_of_wpr {p : Prog σ α} {Q : α → W → Prop} {w : W}
    (h : m.wpr (· = ·) (fun _ _ => True) G p Q w) : Q (m.run p w).1 (m.run p w).2 := by
  induction p generalizing w with
  | ret a => exact h
  | call op next ih => exact ih _ (h w rfl trivial).2

/-- A guarantee that gives `S` at every step. -/
theorem upholds_of_wpr {S : W → σ.Op → Prop} {p : Prog σ α} {Q : α → W → Prop} {w : W}
    (hs : ∀ a op b, G a op b → S a op) (h : m.wpr (· = ·) C G p Q w) : m.Upholds C S p w := by
  induction p generalizing w with
  | ret a => trivial
  | call op next ih =>
    intro hc
    obtain ⟨hg,hn⟩ := h w rfl hc
    exact ⟨hs _ _ _ hg,ih _ hn⟩

/-- The state at the end is visited. -/
theorem visits_run {p : Prog σ α} {w : W} (h : m.Along C p w) : m.Visits C p w (m.run p w).2 := by
  induction p generalizing w with
  | ret a => rfl
  | call op next ih => exact .inr ⟨h.1,ih _ h.2⟩

/-- A guarantee that keeps `I` makes it hold in every state visited. -/
theorem visits_of_wpr {I : W → Prop} {p : Prog σ α} {Q : α → W → Prop} {w v : W}
    (hi : ∀ a op b, C a op → G a op b → I a → I b) (h : m.wpr (· = ·) C G p Q w) (hw : I w)
    (hv : m.Visits C p w v) : I v := by
  induction p generalizing w with
  | ret a =>
    cases hv
    exact hw
  | call op next ih =>
    rcases hv with rfl | ⟨hc,hv⟩
    · exact hw
    · obtain ⟨hg,hn⟩ := h w rfl hc
      exact ih _ hn (hi _ _ _ hc hg hw) hv

end Machine

end Interact
