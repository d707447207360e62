import Mathlib.Data.List.Induction

namespace Interact.Steps

variable {S A : Type} (step : S → A → S) (C : S → A → Prop)

/-- Every act of the run meets `C` in the state before it. -/
def Meets (s : S) : List A → Prop
  | [] => True
  | a :: acts => C s a ∧ Meets (step s a) acts

instance decidableMeets [hC : ∀ s a, Decidable (C s a)] :
    (s : S) → (acts : List A) → Decidable (Meets step C s acts)
  | _, [] => .isTrue trivial
  | s, a :: acts =>
    have := decidableMeets (step s a) acts
    inferInstanceAs (Decidable (_ ∧ _))

variable {step C}

theorem meets_concat {s : S} {acts : List A} {a : A} :
    Meets step C s (acts ++ [a]) ↔ Meets step C s acts ∧ C (acts.foldl step s) a := by
  induction acts generalizing s with
  | nil => simp [Meets]
  | cons b acts ih => simp [Meets,ih,and_assoc]

/-- What a run comes to, along with whether each of its acts met `C`. -/
theorem run_induction {P : Prop → S → Prop} {s : S} (h0 : P True s)
    (hstep : ∀ b s a, P b s → P (b ∧ C s a) (step s a)) (acts : List A) :
    P (Meets step C s acts) (acts.foldl step s) := by
  induction acts using List.reverseRecOn with
  | nil => exact h0
  | append_singleton acts a ih =>
    rw [meets_concat,List.foldl_append]
    exact hstep _ _ a ih

theorem run_invariant {I : S → Prop} {s : S} (h0 : I s) (hstep : ∀ s a, I s → I (step s a))
    (acts : List A) : I (acts.foldl step s) :=
  run_induction (C := fun _ _ => True) (P := fun _ s => I s) h0 (fun _ s a h => hstep s a h) acts

end Interact.Steps
