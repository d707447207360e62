import Mathlib.Logic.Basic

namespace Interact

/-- The requests a program may make of its surroundings, and the type of the
answer to each. -/
structure Sig where
  Op : Type
  Ans : Op → Type

/-- A program is a tree of requests, resumed with the answer to each one. -/
inductive Prog (σ : Sig) (α : Type) where
  | ret (a : α)
  | call (op : σ.Op) (next : σ.Ans op → Prog σ α)

/-- A machine answers requests and changes its state while doing so. -/
structure Machine (σ : Sig) (W : Type) where
  serve : (op : σ.Op) → W → σ.Ans op × W

variable {σ : Sig} {W α β ε : Type}

namespace Prog

def bind : Prog σ α → (α → Prog σ β) → Prog σ β
  | .ret a, f => f a
  | .call op next, f => .call op (fun r => (next r).bind f)

instance : Monad (Prog σ) where
  pure := .ret
  bind := .bind

/-- Whatever the answers, the program makes no other requests than those of `K`. -/
def Only (K : σ.Op → Prop) : Prog σ α → Prop
  | .ret _ => True
  | .call op next => K op ∧ ∀ r, (next r).Only K

@[simp] theorem only_pure {K : σ.Op → Prop} (a : α) : (pure a : Prog σ α).Only K := trivial

@[simp] theorem only_ret {K : σ.Op → Prop} (a : α) : (.ret a : Prog σ α).Only K := trivial

@[simp] theorem only_call {K : σ.Op → Prop} (op : σ.Op) (next : σ.Ans op → Prog σ α) :
    (Prog.call op next).Only K ↔ K op ∧ ∀ r, (next r).Only K := Iff.rfl

theorem Only.bind {K : σ.Op → Prop} {p : Prog σ α} {f : α → Prog σ β} (hp : p.Only K)
    (hf : ∀ a, (f a).Only K) : (p >>= f).Only K := by
  change (Prog.bind p f).Only K
  induction p with
  | ret a => exact hf a
  | call op next ih => exact ⟨hp.1,fun r => ih r (hp.2 r)⟩

theorem Only.exceptBind {K : σ.Op → Prop} {x : ExceptT ε (Prog σ) α}
    {f : α → ExceptT ε (Prog σ) β} (hx : Prog.Only K (x : Prog σ (Except ε α)))
    (hf : ∀ a, Prog.Only K (f a : Prog σ (Except ε β))) :
    Prog.Only K (x >>= f : ExceptT ε (Prog σ) β) := by
  refine Only.bind hx (fun r => ?_)
  cases r with
  | ok a => exact hf a
  | error e => trivial

theorem Only.lift {K : σ.Op → Prop} {p : Prog σ α} (hp : p.Only K) :
    Prog.Only K (liftM p : ExceptT ε (Prog σ) α) :=
  Only.bind hp (fun _ => trivial)

theorem Only.mono {K L : σ.Op → Prop} (hk : ∀ op, K op → L op) {p : Prog σ α} (hp : p.Only K) :
    p.Only L := by
  induction p with
  | ret a => trivial
  | call op next ih => exact ⟨hk op hp.1,fun r => ih r (hp.2 r)⟩

/-- Whatever the answers, the program returns a result that meets `Q`. -/
def Returns (Q : α → Prop) : Prog σ α → Prop
  | .ret a => Q a
  | .call _ next => ∀ r, (next r).Returns Q

theorem Returns.mono {Q R : α → Prop} (h : ∀ a, R a → Q a) {p : Prog σ α} (hp : p.Returns R) :
    p.Returns Q := by
  induction p with
  | ret a => exact h a hp
  | call op next ih => exact fun r => ih r (hp r)

theorem Returns.bind {R : α → Prop} {Q : β → Prop} {p : Prog σ α} {f : α → Prog σ β}
    (hp : p.Returns R) (hf : ∀ a, R a → (f a).Returns Q) : (p >>= f).Returns Q := by
  change (Prog.bind p f).Returns Q
  induction p with
  | ret a => exact hf a hp
  | call op next ih => exact fun r => ih r (hp r)

/-- The rest of a program may count on what the first part returns. -/
theorem Only.bind_returns {K : σ.Op → Prop} {R : α → Prop} {p : Prog σ α} {f : α → Prog σ β}
    (hp : p.Only K) (hr : p.Returns R) (hf : ∀ a, R a → (f a).Only K) : (p >>= f).Only K := by
  change (Prog.bind p f).Only K
  induction p with
  | ret a => exact hf a hr
  | call op next ih => exact ⟨hp.1,fun r => ih r (hp.2 r) (hr r)⟩

/-- There are answers with which the program returns `a`. -/
def Yields (a : α) : Prog σ α → Prop
  | .ret b => b = a
  | .call _ next => ∃ r, (next r).Yields a

theorem Returns.yields {Q : α → Prop} {p : Prog σ α} (hp : p.Returns Q) {a : α}
    (ha : p.Yields a) : Q a := by
  induction p with
  | ret b => exact ha ▸ hp
  | call op next ih =>
    obtain ⟨r,hr⟩ := ha
    exact ih r (hp r) hr

theorem returns_true (p : Prog σ α) : p.Returns (fun _ => True) := by
  induction p with
  | ret a => trivial
  | call op next ih => exact ih

/-- What a fallible program returns when it does not fail. -/
def Gives (Q : α → Prop) (x : ExceptT ε (Prog σ) α) : Prop :=
  Returns (fun r => ∀ a, r = .ok a → Q a) (x : Prog σ (Except ε α))

theorem Gives.bind {Q : β → Prop} (x : ExceptT ε (Prog σ) α) {f : α → ExceptT ε (Prog σ) β}
    (hf : ∀ a, Gives Q (f a)) : Gives Q (x >>= f) := by
  refine Returns.bind (R := fun _ => True) (returns_true _) (fun r _ => ?_)
  cases r with
  | ok a => exact hf a
  | error e =>
    intro b hb
    cases hb

theorem Gives.lift {Q : α → Prop} {p : Prog σ α} (hp : p.Returns Q) :
    Gives Q (liftM p : ExceptT ε (Prog σ) α) :=
  Returns.bind hp (fun a ha b hb => by
    cases hb
    exact ha)

end Prog

namespace Machine

variable (m : Machine σ W) (C : W → σ.Op → Prop)

/-- The result and the state a program leaves behind. -/
def run : Prog σ α → W → α × W
  | .ret a, w => (a,w)
  | .call op next, w => run (next (m.serve op w).1) (m.serve op w).2

/-- Every step of the run meets `C`, a condition on the state just before the
step and on the request made there. -/
def Along : Prog σ α → W → Prop
  | .ret _, _ => True
  | .call op next, w => C w op ∧ Along (next (m.serve op w).1) (m.serve op w).2

instance decidableAlong [hC : ∀ w op, Decidable (C w op)] :
    (p : Prog σ α) → (w : W) → Decidable (m.Along C p w)
  | .ret _, _ => .isTrue trivial
  | .call op next, w =>
    have := decidableAlong (next (m.serve op w).1) (m.serve op w).2
    inferInstanceAs (Decidable (_ ∧ _))

/-- Weakest precondition for `Q` over the runs whose steps all meet `C`. -/
def wp : Prog σ α → (α → W → Prop) → W → Prop
  | .ret a, Q, w => Q a w
  | .call op next, Q, w => C w op → wp (next (m.serve op w).1) Q (m.serve op w).2

theorem wp_iff (p : Prog σ α) (Q : α → W → Prop) (w : W) :
    m.wp C p Q w ↔ (m.Along C p w → Q (m.run p w).1 (m.run p w).2) := by
  induction p generalizing w with
  | ret a => simp [wp,Along,run]
  | call op next ih => simp [wp,Along,run,ih]

variable {m C}

@[simp] theorem wp_pure {a : α} {Q : α → W → Prop} {w : W} :
    m.wp C (pure a) Q w ↔ Q a w := Iff.rfl

@[simp] theorem wp_call {op : σ.Op} {next : σ.Ans op → Prog σ α} {Q : α → W → Prop} {w : W} :
    m.wp C (.call op next) Q w ↔
      (C w op → m.wp C (next (m.serve op w).1) Q (m.serve op w).2) := Iff.rfl

@[simp] theorem wp_ret {a : α} {Q : α → W → Prop} {w : W} :
    m.wp C (.ret a) Q w ↔ Q a w := Iff.rfl

@[simp] theorem wp_bind {p : Prog σ α} {f : α → Prog σ β} {Q : β → W → Prop} {w : W} :
    m.wp C (p >>= f) Q w ↔ m.wp C p (fun a => m.wp C (f a) Q) w := by
  change m.wp C (p.bind f) Q w ↔ _
  induction p generalizing w with
  | ret a => rfl
  | call op next ih => simp only [wp,Prog.bind,ih]

theorem along_true (p : Prog σ α) (w : W) : m.Along (fun _ _ => True) p w := by
  induction p generalizing w with
  | ret a => trivial
  | call op next ih => exact ⟨trivial,ih _ _⟩

/-- Postconditions may be weakened. -/
theorem wp_mono {p : Prog σ α} {Q R : α → W → Prop} {w : W}
    (h : m.wp C p Q w) (hr : ∀ a w', Q a w' → R a w') : m.wp C p R w := by
  induction p generalizing w with
  | ret a => exact hr a w h
  | call op next ih => exact fun hc => ih _ (h hc)

theorem wp_and {p : Prog σ α} {Q R : α → W → Prop} {w : W} (hq : m.wp C p Q w) (hr : m.wp C p R w) :
    m.wp C p (fun a w' => Q a w' ∧ R a w') w := by
  induction p generalizing w with
  | ret a => exact ⟨hq,hr⟩
  | call op next ih => exact fun hc => ih _ (hq hc) (hr hc)

@[simp] theorem run_pure (a : α) (w : W) : m.run (pure a : Prog σ α) w = (a,w) := rfl

@[simp] theorem run_ret (a : α) (w : W) : m.run (.ret a : Prog σ α) w = (a,w) := rfl

@[simp] theorem run_call (op : σ.Op) (next : σ.Ans op → Prog σ α) (w : W) :
    m.run (.call op next) w = m.run (next (m.serve op w).1) (m.serve op w).2 := rfl

/-- The run of a sequence is the run of its parts. -/
@[simp] theorem run_bind (p : Prog σ α) (f : α → Prog σ β) (w : W) :
    m.run (p >>= f) w = m.run (f (m.run p w).1) (m.run p w).2 := by
  change m.run (p.bind f) w = _
  induction p generalizing w with
  | ret a => rfl
  | call op next ih => simp only [run,Prog.bind,ih]

@[simp] theorem along_pure (a : α) (w : W) : m.Along C (pure a : Prog σ α) w := trivial

@[simp] theorem along_ret (a : α) (w : W) : m.Along C (.ret a : Prog σ α) w := trivial

@[simp] theorem along_call (op : σ.Op) (next : σ.Ans op → Prog σ α) (w : W) :
    m.Along C (.call op next) w ↔
      C w op ∧ m.Along C (next (m.serve op w).1) (m.serve op w).2 := Iff.rfl

@[simp] theorem along_bind (p : Prog σ α) (f : α → Prog σ β) (w : W) :
    m.Along C (p >>= f) w ↔ m.Along C p w ∧ m.Along C (f (m.run p w).1) (m.run p w).2 := by
  change m.Along C (p.bind f) w ↔ _
  induction p generalizing w with
  | ret a => simp only [Along,run,Prog.bind,true_and]
  | call op next ih => simp only [Along,run,Prog.bind,ih,and_assoc]

/-- A relation between states that none of the requests of `K` breaks holds across
the whole run of a program that makes no other requests. -/
theorem wp_only {R : W → W → Prop} (hrefl : ∀ w, R w w)
    (htrans : ∀ a b c, R a b → R b c → R a c) {K : σ.Op → Prop}
    (hstep : ∀ op w, K op → C w op → R w (m.serve op w).2) {p : Prog σ α} (hp : p.Only K) (w : W) :
    m.wp C p (fun _ w' => R w w') w := by
  induction p generalizing w with
  | ret a => exact hrefl w
  | call op next ih =>
    intro hc
    exact wp_mono (ih _ (hp.2 _) _) (fun _ w' h => htrans _ _ _ (hstep op w hp.1 hc) h)

theorem only_true (p : Prog σ α) : p.Only (fun _ => True) := by
  induction p with
  | ret a => trivial
  | call op next ih => exact ⟨trivial,ih⟩

/-- A program that always returns results meeting `Q`, under a relation that no step breaks. -/
theorem wp_returns {R : W → W → Prop} (hrefl : ∀ w, R w w)
    (htrans : ∀ a b c, R a b → R b c → R a c) (hstep : ∀ op w, R w (m.serve op w).2)
    {Q : α → Prop} {p : Prog σ α} (hp : p.Returns Q) (w : W) :
    m.wp C p (fun a w' => Q a ∧ R w w') w := by
  induction p generalizing w with
  | ret a => exact ⟨hp,hrefl w⟩
  | call op next ih =>
    intro _
    exact wp_mono (ih _ (hp _) _) (fun _ w' h => ⟨h.1,htrans _ _ _ (hstep op w) h.2⟩)

/-- A relation between states that no step breaks holds across the whole run. -/
theorem run_frame {R : W → W → Prop} (hrefl : ∀ w, R w w)
    (htrans : ∀ a b c, R a b → R b c → R a c)
    (hstep : ∀ op w, R w (m.serve op w).2) (p : Prog σ α) (w : W) : R w (m.run p w).2 :=
  (m.wp_iff (fun _ _ => True) p (fun _ w' => R w w') w).mp
    (wp_only hrefl htrans (fun op w _ _ => hstep op w) (only_true p) w) (along_true p w)

section Fallible

@[simp] theorem wp_except_pure {a : α} {Q : Except ε α → W → Prop} {w : W} :
    m.wp C (pure a : ExceptT ε (Prog σ) α) Q w ↔ Q (.ok a) w := Iff.rfl

@[simp] theorem wp_throw {e : ε} {Q : Except ε α → W → Prop} {w : W} :
    m.wp C (throw e : ExceptT ε (Prog σ) α) Q w ↔ Q (.error e) w := Iff.rfl

/-- The postcondition a failing program carries past its continuation. -/
def orElse (C : W → σ.Op → Prop) (m : Machine σ W) (f : α → ExceptT ε (Prog σ) β)
    (Q : Except ε β → W → Prop) : Except ε α → W → Prop
  | .ok a, w => m.wp C (f a) Q w
  | .error e, w => Q (.error e) w

@[simp] theorem orElse_ok {f : α → ExceptT ε (Prog σ) β} {Q : Except ε β → W → Prop}
    {a : α} {w : W} : orElse C m f Q (.ok a) w ↔ m.wp C (f a) Q w := Iff.rfl

@[simp] theorem orElse_error {f : α → ExceptT ε (Prog σ) β} {Q : Except ε β → W → Prop}
    {e : ε} {w : W} : orElse C m f Q (.error e) w ↔ Q (.error e) w := Iff.rfl

@[simp] theorem wp_except_bind {x : ExceptT ε (Prog σ) α} {f : α → ExceptT ε (Prog σ) β}
    {Q : Except ε β → W → Prop} {w : W} :
    m.wp C (x >>= f : ExceptT ε (Prog σ) β) Q w ↔
      m.wp C (x : Prog σ (Except ε α)) (orElse C m f Q) w := by
  change m.wp C (Prog.bind _ _) Q w ↔ _
  refine wp_bind.trans ⟨fun h => wp_mono h ?_,fun h => wp_mono h ?_⟩
  all_goals
    intro r w' h
    cases r <;> exact h

@[simp] theorem wp_lift {p : Prog σ α} {Q : Except ε α → W → Prop} {w : W} :
    m.wp C (liftM p : ExceptT ε (Prog σ) α) Q w ↔ m.wp C p (fun a => Q (.ok a)) w := by
  change m.wp C (Prog.bind _ _) Q w ↔ _
  exact wp_bind

/-- A postcondition of a fallible program: `E` after a failure, `Q` after a result. -/
def Ends (E : W → Prop) (Q : α → W → Prop) : Except ε α → W → Prop
  | .error _, w => E w
  | .ok a, w => Q a w

theorem ends_bind {E : W → Prop} {x : ExceptT ε (Prog σ) α} {f : α → ExceptT ε (Prog σ) β}
    {R : α → W → Prop} {Q : β → W → Prop} {w : W}
    (hx : m.wp C (x : Prog σ (Except ε α)) (Ends E R) w)
    (hf : ∀ a w', R a w' → m.wp C (f a : Prog σ (Except ε β)) (Ends E Q) w') :
    m.wp C (x >>= f : ExceptT ε (Prog σ) β) (Ends E Q) w := by
  refine wp_except_bind.mpr (wp_mono hx (fun r w' h => ?_))
  cases r with
  | error e => exact h
  | ok a => exact hf a w' h

theorem ends_lift {p : Prog σ α} {f : α → ExceptT ε (Prog σ) β} {Q : Except ε β → W → Prop} {w : W}
    (h : m.wp C p (fun a w' => m.wp C (f a : Prog σ (Except ε β)) Q w') w) :
    m.wp C (liftM p >>= f : ExceptT ε (Prog σ) β) Q w :=
  wp_except_bind.mpr (wp_lift.mpr h)

end Fallible

end Machine

end Interact
