import SpreadArb.Interact.Protocol
import Mathlib.Algebra.Group.Defs

namespace Interact

variable {σ : Sig} {W G α β : Type}

namespace Machine

variable (m : Machine σ W)

/-- The steps of a run: the state before each one, and the request made there. -/
def trace : Prog σ α → W → List (W × σ.Op)
  | .ret _, _ => []
  | .call op next, w => (w,op) :: trace (next (m.serve op w).1) (m.serve op w).2

variable {m} {C S : W → σ.Op → Prop}

/-- What is upheld holds of every step of the trace. -/
theorem Upholds.trace {p : Prog σ α} {w : W} (h : m.Upholds (fun _ _ => True) S p w) :
    ∀ step ∈ m.trace p w, S step.1 step.2 := by
  induction p generalizing w with
  | ret a => simp [Machine.trace]
  | call op next ih =>
    obtain ⟨hs,hnext⟩ := h trivial
    simp only [Machine.trace,List.mem_cons,forall_eq_or_imp]
    exact ⟨hs,ih _ hnext⟩

section Total

variable {M : Type} [AddMonoid M]

/-- What `f` counts in the steps of a run. -/
def total (m : Machine σ W) (f : W → σ.Op → M) : Prog σ α → W → M
  | .ret _, _ => 0
  | .call op next, w => f w op + total m f (next (m.serve op w).1) (m.serve op w).2

variable {f : W → σ.Op → M}

@[simp] theorem total_pure (a : α) (w : W) : m.total f (pure a : Prog σ α) w = 0 := rfl

@[simp] theorem total_ret (a : α) (w : W) : m.total f (.ret a : Prog σ α) w = 0 := rfl

@[simp] theorem total_call (op : σ.Op) (next : σ.Ans op → Prog σ α) (w : W) :
    m.total f (.call op next) w = f w op + m.total f (next (m.serve op w).1) (m.serve op w).2 := rfl

/-- The total of a sequence is that of its parts. -/
@[simp] theorem total_bind (p : Prog σ α) (g : α → Prog σ β) (w : W) :
    m.total f (p >>= g) w = m.total f p w + m.total f (g (m.run p w).1) (m.run p w).2 := by
  change m.total f (p.bind g) w = _
  induction p generalizing w with
  | ret a => exact (zero_add _).symm
  | call op next ih => simp only [total,run,Prog.bind,ih,add_assoc]

theorem Comes.total {K : σ.Op → Prop} (hf : ∀ w op, K op → f w op = 0) {p q : Prog σ α} {w v : W}
    (h : Comes m K p w q v) : m.total f p w = m.total f q v := by
  induction h with
  | here p w => rfl
  | call hk h ih => rw [total_call,hf _ _ hk,zero_add,ih]

end Total

variable (m)

/-- The machine with a record, kept by `δ`, of the steps made so far. -/
def watch (δ : G → W → σ.Op → G) : Machine σ (W × G) where
  serve op w := ((m.serve op w.1).1,((m.serve op w.1).2,δ w.2 w.1 op))

end Machine

end Interact
