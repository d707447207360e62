import SpreadArb.Interact.Pool

namespace Interact

variable {ι : Type} {σ : Sig} {W α β γ ε : Type}

namespace Prog

theorem bind_assoc (p : Prog σ α) (f : α → Prog σ β) (g : β → Prog σ γ) :
    p >>= f >>= g = p >>= fun a => f a >>= g := by
  change Prog.bind (Prog.bind p f) g = Prog.bind p (fun a => Prog.bind (f a) g)
  induction p with
  | ret a => rfl
  | call op next ih => exact congrArg (Prog.call op) (funext ih)

section After

/-- With some answers, the second program is what is left of the first one. -/
inductive After : Prog σ α → Prog σ α → Prop
  | refl (p : Prog σ α) : After p p
  | answer {op : σ.Op} {next : σ.Ans op → Prog σ α} {q : Prog σ α} (r : σ.Ans op)
    (h : After (next r) q) : After (.call op next) q

theorem After.trans {p q s : Prog σ α} (h : After p q) (k : After q s) : After p s := by
  induction h with
  | refl p => exact k
  | answer r h ih => exact .answer r (ih k)

theorem After.snoc {p : Prog σ α} {op : σ.Op} {next : σ.Ans op → Prog σ α}
    (h : After p (.call op next)) (r : σ.Ans op) : After p (next r) :=
  h.trans (.answer r (.refl _))

theorem After.bind {p q : Prog σ α} (h : After p q) (f : α → Prog σ β) :
    After (p >>= f) (q >>= f) := by
  induction h with
  | refl p => exact .refl _
  | answer r h ih => exact .answer r ih

/-- What is left of a sequence: of its first part, or of the second one. -/
theorem After.of_bind {p : Prog σ α} {f : α → Prog σ β} {q : Prog σ β} (h : After (p >>= f) q) :
    (∃ p', After p p' ∧ q = p' >>= f) ∨ ∃ a, After p (.ret a) ∧ After (f a) q := by
  induction p with
  | ret a => exact .inr ⟨a,.refl _,h⟩
  | call op next ih =>
    cases h with
    | refl => exact .inl ⟨.call op next,.refl _,rfl⟩
    | answer r h =>
      rcases ih r h with ⟨p',hp,hq⟩ | ⟨a,hp,hq⟩
      · exact .inl ⟨p',.answer r hp,hq⟩
      · exact .inr ⟨a,.answer r hp,hq⟩

theorem After.only {K : σ.Op → Prop} {p q : Prog σ α} (h : After p q)
    (hp : p.Only K) : q.Only K := by
  induction h with
  | refl p => exact hp
  | answer r h ih => exact ih (hp.2 r)

end After

section Reaches

/-- With some answers, the program makes a request of `K`. -/
def Reaches (K : σ.Op → Prop) : Prog σ α → Prop
  | .ret _ => False
  | .call op next => K op ∨ ∃ r, (next r).Reaches K

variable {K : σ.Op → Prop}

theorem Reaches.bind {p : Prog σ α} (h : p.Reaches K) (f : α → Prog σ β) : (p >>= f).Reaches K := by
  change (Prog.bind p f).Reaches K
  induction p with
  | ret a => cases h
  | call op next ih =>
    rcases h with hk | ⟨r,hr⟩
    · exact .inl hk
    · exact .inr ⟨r,ih r hr⟩

theorem Yields.reaches {p : Prog σ α} {a : α} (h : p.Yields a) {f : α → Prog σ β}
    (hf : (f a).Reaches K) : (p >>= f).Reaches K := by
  change (Prog.bind p f).Reaches K
  induction p with
  | ret b => exact h ▸ hf
  | call op next ih =>
    obtain ⟨r,hr⟩ := h
    exact .inr ⟨r,ih r hr⟩

theorem exists_yields (hans : ∀ op, Nonempty (σ.Ans op)) (p : Prog σ α) : ∃ a, p.Yields a := by
  induction p with
  | ret a => exact ⟨a,rfl⟩
  | call op next ih =>
    obtain ⟨r⟩ := hans op
    obtain ⟨a,ha⟩ := ih r
    exact ⟨a,r,ha⟩

theorem Reaches.exceptBind {x : ExceptT ε (Prog σ) α} (h : x.run.Reaches K)
    (f : α → ExceptT ε (Prog σ) β) : (x >>= f).run.Reaches K :=
  h.bind _

theorem Reaches.exceptLift {p : Prog σ α} (h : p.Reaches K) (f : α → ExceptT ε (Prog σ) β) :
    (liftM p >>= f : ExceptT ε (Prog σ) β).run.Reaches K :=
  Reaches.exceptBind (h.bind _) f

theorem Yields.bind {p : Prog σ α} {a : α} (h : p.Yields a) {f : α → Prog σ β} {b : β}
    (hf : (f a).Yields b) : (p >>= f).Yields b := by
  change (Prog.bind p f).Yields b
  induction p with
  | ret c => exact h ▸ hf
  | call op next ih =>
    obtain ⟨r,hr⟩ := h
    exact ⟨r,ih r hr⟩

theorem Yields.lift {p : Prog σ α} {a : α} (h : p.Yields a) :
    (liftM p : ExceptT ε (Prog σ) α).run.Yields (.ok a) :=
  h.bind rfl

theorem Yields.exceptBind {x : ExceptT ε (Prog σ) α} {a : α} (h : x.run.Yields (.ok a))
    {f : α → ExceptT ε (Prog σ) β} {r : Except ε β} (hf : (f a).run.Yields r) :
    (x >>= f).run.Yields r :=
  Yields.bind h hf

theorem Yields.exceptReaches {x : ExceptT ε (Prog σ) α} {a : α} (h : x.run.Yields (.ok a))
    {f : α → ExceptT ε (Prog σ) β} (hf : (f a).run.Reaches K) : (x >>= f).run.Reaches K :=
  h.reaches hf

end Reaches

end Prog

namespace Pool

variable (m : Nat → Machine σ W) (body : ι → Prog σ α)

/-- What is left of each call is left of its own program. -/
def Begun (s : Pool ι σ W α) : Prop := ∀ c ∈ s.calls, (body c.label).After c.rest

variable {body}

theorem Begun.act {s : Pool ι σ W α} (h : Begun body s) (a : Act ι) :
    Begun body (s.act m body a) := by
  cases a with
  | start label =>
    intro c hc
    rcases List.mem_append.mp hc with hc | hc
    · exact h c hc
    · obtain rfl := List.mem_singleton.mp hc
      exact .refl _
  | step n =>
    rcases step_cases m body s n with hsame | ⟨label,op,next,hcall,hact⟩
    · rw [hsame]
      exact h
    · rw [hact]
      intro c hc
      rcases List.mem_or_eq_of_mem_set hc with hc | rfl
      · exact h c hc
      · exact (h _ (List.mem_of_getElem? hcall)).snoc _

theorem run_begun {s : Pool ι σ W α} (h : Begun body s) (acts : List (Act ι)) :
    Begun body (s.run m body acts) := by
  induction acts generalizing s with
  | nil => exact h
  | cons a acts ih => exact ih (h.act m a)

end Pool

end Interact
