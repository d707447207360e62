import SpreadArb.SymbolCalls
import SpreadArb.Proofs.Quotes

namespace SpreadArb.Proofs.Ids
open Interact SharedMap

/-- A call that nobody disturbs does what the sequential one does. -/
theorem run_getOrInsert (s : SharedMap) (exchange symbol : String) :
    let out := s.toSymbolMap.getOrInsert exchange symbol
    (machine.run (SharedMap.getOrInsert (exchange,symbol)) s) = (out.1,⟨out.2,s.burnt⟩) := by
  cases h : s.toId (exchange,symbol) with
  | some id => simp [SharedMap.getOrInsert,machine,SymbolMap.getOrInsert,h]
  | none => simp [SharedMap.getOrInsert,machine,SymbolMap.getOrInsert,SymbolMap.insert,h]

/-- Where a call stands. -/
inductive Stage where
  | looking
  | adding
  | entering (id : Nat)
  | reversing (id : Nat)
  | done (id : Nat)

/-- How the requests of a call for a pair go on. -/
inductive Moves : Pair × Stage → (op : MapOp) → MapOp.Ans op → Pair × Stage → Prop
  | found (p : Pair) (id : Nat) : Moves (p,.looking) (.lookup p) (some id) (p,.done id)
  | missing (p : Pair) : Moves (p,.looking) (.lookup p) none (p,.adding)
  | added (p : Pair) (id : Nat) : Moves (p,.adding) .fetchAdd id (p,.entering id)
  | lost (p : Pair) (a id : Nat) : Moves (p,.entering a) (.entry p a) (some id) (p,.done id)
  | won (p : Pair) (a : Nat) : Moves (p,.entering a) (.entry p a) none (p,.reversing a)
  | reversed (p : Pair) (a : Nat) (r : Unit) :
    Moves (p,.reversing a) (.insertReverse a p) r (p,.done a)

/-- A call that returns an id is done with it. -/
def Returns (p : Pair) (id : Nat) (q : Pair × Stage) : Prop := q = (p,.done id)

theorem getOrInsert_obeys (p : Pair) :
    (SharedMap.getOrInsert p).Obeys Moves (Returns p) (p,.looking) := by
  intro r
  cases r with
  | some id => exact ⟨_,.found p id,rfl⟩
  | none =>
    refine ⟨_,.missing p,fun newId => ⟨_,.added p newId,fun r => ?_⟩⟩
    cases r with
    | some id => exact ⟨_,.lost p newId id,rfl⟩
    | none => exact ⟨_,.won p newId,fun u => ⟨_,.reversed p newId u,rfl⟩⟩

/-- Call number `n` is for `p` and stands there. -/
def At (ghosts : List (Pair × Stage)) (n : Nat) (p : Pair) (g : Stage) : Prop :=
  ghosts[n]? = some (p,g)

theorem at_set {ghosts : List (Pair × Stage)} {n k : Nat} {p q r : Pair} {g g' e : Stage}
    (h : At ghosts n p g) :
    At (ghosts.set n (q,g')) k r e ↔ (k = n ∧ r = q ∧ e = g') ∨ (k ≠ n ∧ At ghosts k r e) := by
  simpa only [At,Prod.mk.injEq] using @Pool.ghost_set _ ghosts n k (p,g) (q,g') (r,e) h

/-- The map and the places where the calls stand. -/
structure Kept (m : SharedMap) (ghosts : List (Pair × Stage)) : Prop where
  pos : 1 ≤ m.nextId
  range : ∀ {p a}, m.toId p = some a → 1 ≤ a ∧ a < m.nextId
  alone : ∀ {p q a}, m.toId p = some a → m.toId q = some a → p = q
  back : ∀ {p a}, m.fromId a = some p → m.toId p = some a
  forth : ∀ {p a}, m.toId p = some a → m.fromId a = some p ∨ ∃ n, At ghosts n p (.reversing a)
  burnt : ∀ {a}, a ∈ m.burnt → a < m.nextId ∧ ∀ p, m.toId p ≠ some a
  entering : ∀ {n p a}, At ghosts n p (.entering a) →
    1 ≤ a ∧ a < m.nextId ∧ a ∉ m.burnt ∧ ∀ q, m.toId q ≠ some a
  apart : ∀ {n k p q a}, At ghosts n p (.entering a) → At ghosts k q (.entering a) → n = k
  reversing : ∀ {n p a}, At ghosts n p (.reversing a) → m.toId p = some a
  done : ∀ {n p a}, At ghosts n p (.done a) → m.toId p = some a

theorem kept_empty : Kept ⟨.empty,[]⟩ [] where
  pos := le_rfl
  range h := by cases h
  alone h := by cases h
  back h := by cases h
  forth h := by cases h
  burnt h := by cases h
  entering h := by cases h
  apart h := by cases h
  reversing h := by cases h
  done h := by cases h

/-- Without calls under way, the next pair takes the next id. -/
theorem kept_insert {m : SymbolMap} (h : Kept ⟨m,[]⟩ []) {p : Pair} (hnew : m.toId p = none)
    (hb : m.nextId < 2 ^ 32) : Kept ⟨m.insert p,[]⟩ [] := by
  have hid : m.nextId % 2 ^ 32 = m.nextId := Nat.mod_eq_of_lt hb
  have hpos : 1 ≤ m.nextId := h.pos
  have hrange : ∀ {q a}, m.toId q = some a → 1 ≤ a ∧ a < m.nextId := h.range
  constructor
  case pos => exact Nat.le_succ_of_le hpos
  case range =>
    intro q a hq
    simp only [SymbolMap.insert,hid] at hq ⊢
    grind
  case alone =>
    intro q r a hq hr
    simp only [SymbolMap.insert,hid] at hq hr
    have := @h.alone q r a
    grind
  case back =>
    intro q a hq
    simp only [SymbolMap.insert,hid] at hq ⊢
    have := @h.back q a
    grind
  case forth =>
    intro q a hq
    simp only [SymbolMap.insert,hid] at hq ⊢
    have hforth : m.toId q = some a → m.fromId a = some q := fun hq => by
      rcases h.forth hq with hf | ⟨n,hn⟩
      · exact hf
      · cases hn
    grind
  all_goals
    intros
    contradiction

theorem kept_register {m : SymbolMap} (h : Kept ⟨m,[]⟩ []) (pairs : List Pair)
    (hb : (m.register pairs).nextId ≤ 2 ^ 32) : Kept ⟨m.register pairs,[]⟩ [] := by
  induction pairs generalizing m with
  | nil => exact h
  | cons q pairs ih =>
    refine ih ?_ hb
    cases hk : m.toId (q.1,q.2) with
    | some i =>
      rw [Detection.getOrInsert_known hk]
      exact h
    | none =>
      have hnext := (Detection.register_extends pairs (m.getOrInsert q.1 q.2).2).nextId.trans hb
      rw [Detection.getOrInsert_new hk] at hnext ⊢
      exact kept_insert h hk hnext

theorem kept_new : Kept .new [] := kept_register kept_empty _ (by decide +kernel)

variable {m : SharedMap} {ghosts : List (Pair × Stage)}

/-- Calls that begin, or that go on without a change of the map. -/
theorem kept_calls {ghosts' : List (Pair × Stage)} (h : Kept m ghosts)
    (hnew : ∀ {n p g}, At ghosts' n p g → At ghosts n p g ∨ g = .looking ∨ g = .adding ∨
    ∃ a, g = .done a ∧ m.toId p = some a)
    (hold : ∀ {n p a}, At ghosts n p (.reversing a) → At ghosts' n p (.reversing a)) :
    Kept m ghosts' := by
  constructor
  case pos => exact h.pos
  case range => exact h.range
  case alone => exact h.alone
  case back => exact h.back
  case burnt => exact h.burnt
  case forth =>
    intro p a hp
    rcases h.forth hp with hf | ⟨n,hn⟩
    · exact .inl hf
    · exact .inr ⟨n,hold hn⟩
  case entering =>
    intro n p a hn
    have hn : At ghosts n p (.entering a) := by simpa using hnew hn
    exact h.entering hn
  case apart =>
    intro n k p q a hn hk
    have hn : At ghosts n p (.entering a) := by simpa using hnew hn
    have hk : At ghosts k q (.entering a) := by simpa using hnew hk
    exact h.apart hn hk
  case reversing =>
    intro n p a hn
    have hn : At ghosts n p (.reversing a) := by simpa using hnew hn
    exact h.reversing hn
  case done =>
    intro n p a hn
    rcases hnew hn with hn | hn | hn | ⟨b,hb,hp⟩
    · exact h.done hn
    · cases hn
    · cases hn
    · cases hb
      exact hp

theorem kept_start (h : Kept m ghosts) (p : Pair) : Kept m (ghosts ++ [(p,.looking)]) := by
  refine kept_calls h (fun hn => ?_) (fun hn => Pool.ghost_new.mpr (.inr hn))
  rcases Pool.ghost_new.mp hn with ⟨_,he⟩ | hn
  · cases he
    exact .inr (.inl rfl)
  · exact .inl hn

theorem kept_read (h : Kept m ghosts) {n : Nat} {p : Pair} {g : Stage} (hn : At ghosts n p .looking)
    (hg : g = .adding ∨ ∃ a, g = .done a ∧ m.toId p = some a) : Kept m (ghosts.set n (p,g)) := by
  refine kept_calls h (fun hk => ?_) (fun {k q a} hk => (at_set hn).mpr (.inr ⟨?_,hk⟩))
  · rcases (at_set hn).mp hk with ⟨rfl,rfl,rfl⟩ | ⟨_,hk⟩
    · exact .inr (.inr hg)
    · exact .inl hk
  · rintro rfl
    cases hn.symm.trans hk

/-- A fresh id is in nobody's hands. -/
theorem kept_added (h : Kept m ghosts) {n : Nat} {p : Pair} (hn : At ghosts n p .adding) :
    Kept { m with nextId := m.nextId+1 } (ghosts.set n (p,.entering m.nextId)) := by
  have hlt : ∀ {q a}, m.toId q = some a → a < m.nextId := fun hq => (h.range hq).2
  constructor
  case pos => exact Nat.le_succ_of_le h.pos
  case range => exact fun hq => ⟨(h.range hq).1,(hlt hq).trans (Nat.lt_succ_self _)⟩
  case alone => exact h.alone
  case back => exact h.back
  case burnt => exact fun ha => ⟨(h.burnt ha).1.trans (Nat.lt_succ_self _),(h.burnt ha).2⟩
  case forth =>
    intro q a hq
    rcases h.forth hq with hf | ⟨k,hk⟩
    · exact .inl hf
    · refine .inr ⟨k,(at_set hn).mpr (.inr ⟨?_,hk⟩)⟩
      rintro rfl
      cases hn.symm.trans hk
  case entering =>
    intro k q a hk
    rcases (at_set hn).mp hk with ⟨rfl,rfl,he⟩ | ⟨_,hk⟩
    · cases he
      exact ⟨h.pos,Nat.lt_succ_self _,fun hb => (h.burnt hb).1.false,fun r hr => (hlt hr).false⟩
    · obtain ⟨h1,h2,h3⟩ := h.entering hk
      exact ⟨h1,h2.trans (Nat.lt_succ_self _),h3⟩
  case apart =>
    intro k l q r a hk hl
    rcases (at_set hn).mp hk with ⟨hkn,_,hke⟩ | ⟨_,hk⟩
    · cases hke
      rcases (at_set hn).mp hl with ⟨hln,_,_⟩ | ⟨_,hl⟩
      · exact hkn.trans hln.symm
      · exact absurd (h.entering hl).2.1 (lt_irrefl _)
    · rcases (at_set hn).mp hl with ⟨_,_,hle⟩ | ⟨_,hl⟩
      · cases hle
        exact absurd (h.entering hk).2.1 (lt_irrefl _)
      · exact h.apart hk hl
  case reversing =>
    intro k q a hk
    rcases (at_set hn).mp hk with ⟨_,_,he⟩ | ⟨_,hk⟩
    · cases he
    · exact h.reversing hk
  case done =>
    intro k q a hk
    rcases (at_set hn).mp hk with ⟨_,_,he⟩ | ⟨_,hk⟩
    · cases he
    · exact h.done hk

/-- The id of a call that comes second is in no map and in no other hands. -/
theorem kept_lost (h : Kept m ghosts) {n a b : Nat} {p : Pair} (hn : At ghosts n p (.entering a))
    (hp : m.toId p = some b) :
    Kept { m with burnt := a :: m.burnt } (ghosts.set n (p,.done b)) := by
  obtain ⟨_,halt,_,hafree⟩ := h.entering hn
  constructor
  case pos => exact h.pos
  case range => exact h.range
  case alone => exact h.alone
  case back => exact h.back
  case burnt =>
    intro c hc
    rcases List.mem_cons.mp hc with rfl | hc
    · exact ⟨halt,hafree⟩
    · exact h.burnt hc
  case forth =>
    intro q c hq
    rcases h.forth hq with hf | ⟨k,hk⟩
    · exact .inl hf
    · refine .inr ⟨k,(at_set hn).mpr (.inr ⟨?_,hk⟩)⟩
      rintro rfl
      cases hn.symm.trans hk
  case entering =>
    intro k q c hk
    rcases (at_set hn).mp hk with ⟨_,_,he⟩ | ⟨hne,hk⟩
    · cases he
    · obtain ⟨h1,h2,h3,h4⟩ := h.entering hk
      refine ⟨h1,h2,?_,h4⟩
      simp only [List.mem_cons,not_or]
      refine ⟨?_,h3⟩
      rintro rfl
      exact hne (h.apart hk hn)
  case apart =>
    intro k l q r c hk hl
    rcases (at_set hn).mp hk with ⟨_,_,he⟩ | ⟨_,hk⟩
    · cases he
    · rcases (at_set hn).mp hl with ⟨_,_,he⟩ | ⟨_,hl⟩
      · cases he
      · exact h.apart hk hl
  case reversing =>
    intro k q c hk
    rcases (at_set hn).mp hk with ⟨_,_,he⟩ | ⟨_,hk⟩
    · cases he
    · exact h.reversing hk
  case done =>
    intro k q c hk
    rcases (at_set hn).mp hk with ⟨_,rfl,he⟩ | ⟨_,hk⟩
    · cases he
      exact hp
    · exact h.done hk

/-- A pair without an id takes the one that its call holds. -/
theorem kept_won (h : Kept m ghosts) {n a : Nat} {p : Pair} (hn : At ghosts n p (.entering a))
    (hp : m.toId p = none) :
    Kept { m with toId := fun q => if q = p then some a else m.toId q }
      (ghosts.set n (p,.reversing a)) := by
  obtain ⟨hapos,halt,hab,hafree⟩ := h.entering hn
  have hold : ∀ {q b}, m.toId q = some b → (if q = p then some a else m.toId q) = some b := by
    intro q b hq
    rw [if_neg]
    · exact hq
    · rintro rfl
      cases hp.symm.trans hq
  constructor
  case pos => exact h.pos
  case range =>
    intro q b hq
    dsimp only at hq
    split at hq
    · cases hq
      exact ⟨hapos,halt⟩
    · exact h.range hq
  case alone =>
    intro q r b hq hr
    dsimp only at hq hr
    split at hq
    · cases hq
      split at hr
      · simp_all
      · exact absurd hr (hafree r)
    · split at hr
      · cases hr
        exact absurd hq (hafree q)
      · exact h.alone hq hr
  case back => exact fun hq => hold (h.back hq)
  case burnt =>
    intro b hb
    refine ⟨(h.burnt hb).1,fun q hq => ?_⟩
    dsimp only at hq
    split at hq
    · cases hq
      exact hab hb
    · exact (h.burnt hb).2 q hq
  case forth =>
    intro q b hq
    dsimp only at hq
    split at hq
    · next he =>
      cases hq
      exact .inr ⟨n,(at_set hn).mpr (.inl ⟨rfl,he,rfl⟩)⟩
    · rcases h.forth hq with hf | ⟨k,hk⟩
      · exact .inl hf
      · refine .inr ⟨k,(at_set hn).mpr (.inr ⟨?_,hk⟩)⟩
        rintro rfl
        cases hn.symm.trans hk
  case entering =>
    intro k q b hk
    rcases (at_set hn).mp hk with ⟨_,_,he⟩ | ⟨hne,hk⟩
    · cases he
    · obtain ⟨h1,h2,h3,h4⟩ := h.entering hk
      refine ⟨h1,h2,h3,fun r hr => ?_⟩
      dsimp only at hr
      split at hr
      · cases hr
        exact hne (h.apart hk hn)
      · exact h4 r hr
  case apart =>
    intro k l q r c hk hl
    rcases (at_set hn).mp hk with ⟨_,_,he⟩ | ⟨_,hk⟩
    · cases he
    · rcases (at_set hn).mp hl with ⟨_,_,he⟩ | ⟨_,hl⟩
      · cases he
      · exact h.apart hk hl
  case reversing =>
    intro k q c hk
    rcases (at_set hn).mp hk with ⟨_,rfl,he⟩ | ⟨_,hk⟩
    · cases he
      exact if_pos rfl
    · exact hold (h.reversing hk)
  case done =>
    intro k q c hk
    rcases (at_set hn).mp hk with ⟨_,_,he⟩ | ⟨_,hk⟩
    · cases he
    · exact hold (h.done hk)

theorem kept_reversed (h : Kept m ghosts) {n a : Nat} {p : Pair}
    (hn : At ghosts n p (.reversing a)) :
    Kept { m with fromId := fun i => if i = a then some p else m.fromId i }
      (ghosts.set n (p,.done a)) := by
  have hp := h.reversing hn
  constructor
  case pos => exact h.pos
  case range => exact h.range
  case alone => exact h.alone
  case burnt => exact h.burnt
  case back =>
    intro q b hq
    dsimp only at hq
    split at hq
    · next he =>
      cases hq
      rw [he]
      exact hp
    · exact h.back hq
  case forth =>
    intro q b hq
    dsimp only
    by_cases hb : b = a
    · left
      rw [if_pos hb,h.alone hp (hb ▸ hq)]
    · rw [if_neg hb]
      rcases h.forth hq with hf | ⟨k,hk⟩
      · exact .inl hf
      · refine .inr ⟨k,(at_set hn).mpr (.inr ⟨?_,hk⟩)⟩
        rintro rfl
        cases hn.symm.trans hk
        exact hb rfl
  case entering =>
    intro k q b hk
    rcases (at_set hn).mp hk with ⟨_,_,he⟩ | ⟨_,hk⟩
    · cases he
    · exact h.entering hk
  case apart =>
    intro k l q r c hk hl
    rcases (at_set hn).mp hk with ⟨_,_,he⟩ | ⟨_,hk⟩
    · cases he
    · rcases (at_set hn).mp hl with ⟨_,_,he⟩ | ⟨_,hl⟩
      · cases he
      · exact h.apart hk hl
  case reversing =>
    intro k q c hk
    rcases (at_set hn).mp hk with ⟨_,_,he⟩ | ⟨_,hk⟩
    · cases he
    · exact h.reversing hk
  case done =>
    intro k q c hk
    rcases (at_set hn).mp hk with ⟨_,rfl,he⟩ | ⟨_,hk⟩
    · cases he
      exact hp
    · exact h.done hk

theorem serve_nextId (op : MapOp) (m : SharedMap) : m.nextId ≤ (machine.serve op m).2.nextId := by
  cases op with
  | lookup p => exact le_rfl
  | fetchAdd => exact Nat.le_succ _
  | entry p a => cases h : m.toId p <;> simp [machine,h]
  | insertReverse a p => exact le_rfl

/-- What a request of a call does while the counter fits into 32 bits. -/
theorem kept_served (h : Kept m ghosts) {n : Nat} {op : MapOp} {q q' : Pair × Stage}
    (hn : ghosts[n]? = some q) (ht : Moves q op (machine.serve op m).1 q')
    (hb : (machine.serve op m).2.nextId ≤ 2 ^ 32) :
    Kept (machine.serve op m).2 (ghosts.set n q') := by
  generalize hr : (machine.serve op m).1 = r at ht
  cases ht with
  | found p id => exact kept_read h hn (.inr ⟨id,rfl,hr⟩)
  | missing p => exact kept_read h hn (.inl rfl)
  | added p id =>
    have hid : m.nextId % 2 ^ 32 = m.nextId := Nat.mod_eq_of_lt hb
    cases hr.symm.trans hid
    exact kept_added h hn
  | lost p a id =>
    cases hp : m.toId p with
    | none => simp [machine,hp] at hr
    | some b =>
      obtain rfl : b = id := by simpa [machine,hp] using hr
      have hs : (machine.serve (.entry p a) m).2 = { m with burnt := a :: m.burnt } := by
        simp [machine,hp]
      rw [hs]
      exact kept_lost h hn hp
  | won p a =>
    cases hp : m.toId p with
    | some b => simp [machine,hp] at hr
    | none =>
      have hs : (machine.serve (.entry p a) m).2 =
          { m with toId := fun q => if q = p then some a else m.toId q } := by simp [machine,hp]
      rw [hs]
      exact kept_won h hn hp
  | reversed p a => exact kept_reversed h hn

theorem run_kept (acts : List (Act Pair)) :
    ∃ ghosts, Pool.Tracked Moves Returns (SharedMap.run acts) ghosts ∧
    ((SharedMap.run acts).shared.nextId ≤ 2 ^ 32 → Kept (SharedMap.run acts).shared ghosts) := by
  refine Pool.run_tracked (C := fun _ _ => True) (J := fun s gs => s.shared.nextId ≤ 2 ^ 32 →
    Kept s.shared gs)
    ?_ ?_ (Pool.meets_true _ _ _ _) (Pool.tracked_new _) (fun _ => kept_new)
  · intro s gs p _ _ hj
    exact ⟨_,getOrInsert_obeys p,fun hb => kept_start (hj hb) p⟩
  · intro s gs n p op next q q' _ _ hj _ hq hmove hb
    exact kept_served (hj ((serve_nextId op s.shared).trans hb)) hq hmove hb

/-- The call has entered its pair, and has not yet entered its id. -/
def Between (c : Call Pair mapSig Nat) (id : Nat) : Prop :=
  ∃ p next, c.rest = .call (.insertReverse id p) next

theorem between_of_reversing {c : Call Pair mapSig Nat} {p : Pair} {a : Nat}
    (h : c.rest.Obeys Moves (Returns c.label) (p,.reversing a)) : Between c a := by
  obtain ⟨label,rest⟩ := c
  cases rest with
  | ret b => cases h
  | call op next =>
    cases op with
    | lookup q =>
      obtain ⟨q',hm,_⟩ := h none
      cases hm
    | fetchAdd =>
      obtain ⟨q',hm,_⟩ := h 0
      cases hm
    | entry q b =>
      obtain ⟨q',hm,_⟩ := h none
      cases hm
    | insertReverse b q =>
      obtain ⟨q',hm,_⟩ := h ()
      cases hm
      exact ⟨_,_,rfl⟩

/-- While the counter has been raised fewer than 2^32 times, equal pairs get equal ids and different
pairs different ones, whatever the order of the steps; an id whose call is not between its two
inserts reads back as its pair; and an id that a call lost is nobody's. -/
theorem shared_ids_agree (acts : List (Act Pair))
    (hb : (SharedMap.run acts).shared.nextId ≤ 2 ^ 32) : let s := SharedMap.run acts
    (∀ c c' id id', c ∈ s.calls → c' ∈ s.calls → c.result = some id → c'.result = some id' →
      (c.label = c'.label ↔ id = id')) ∧
    (∀ c id, c ∈ s.calls → c.result = some id → 1 ≤ id ∧ s.shared.toId c.label = some id) ∧
    (∀ p id, s.shared.toId p = some id → (∀ c ∈ s.calls, ¬ Between c id) →
      s.shared.get id = some p) ∧
    (∀ id ∈ s.shared.burnt, s.shared.get id = none ∧ ∀ c ∈ s.calls, c.result ≠ some id) := by
  intro s
  obtain ⟨ghosts,ht,hk⟩ := run_kept acts
  have hk : Kept s.shared ghosts := hk hb
  have hid : ∀ {c id}, c ∈ s.calls → c.result = some id → s.shared.toId c.label = some id := by
    intro c id hc hret
    obtain ⟨n,hn⟩ := List.mem_iff_getElem?.mp hc
    obtain ⟨q,hq,rfl⟩ := ht.result hn hret
    exact hk.done hq
  refine ⟨?_,?_,?_,?_⟩
  · intro c c' id id' hc hc' hret hret'
    have h := hid hc hret
    have h' := hid hc' hret'
    constructor
    · intro he
      rw [he] at h
      exact Option.some.inj (h.symm.trans h')
    · rintro rfl
      exact hk.alone h h'
  · exact fun c id hc hret => ⟨(hk.range (hid hc hret)).1,hid hc hret⟩
  · intro p id hp hnone
    rcases hk.forth hp with hf | ⟨n,hn⟩
    · exact hf
    · have hlt : n < s.calls.length := ht.length_eq ▸ (List.getElem?_eq_some_iff.mp hn).1
      have hc := List.getElem?_eq_getElem hlt
      exact absurd (between_of_reversing (ht.obeys n _ _ hc hn)) (hnone _ (List.getElem_mem hlt))
  · intro id hburnt
    have hfree := (hk.burnt hburnt).2
    constructor
    · cases hget : s.shared.get id with
      | none => rfl
      | some p => exact absurd (hk.back hget) (hfree p)
    · exact fun c hc hret => hfree _ (hid hc hret)

/-- Two calls for one pair that both miss it at first: the second one burns the id 62. -/
theorem racing_calls_agree :
    let s := SharedMap.run [.start ("okx","X"),.start ("okx","X"),.step 0,.step 1,.step 0,.step 1,
        .step 0,.step 1,.step 0]
    s.shared.nextId ≤ 2 ^ 32 ∧ 62 ∈ s.shared.burnt ∧ s.shared.get 62 = none := by
  have hb : (SharedMap.run [.start ("okx","X"),.start ("okx","X"),.step 0,.step 1,.step 0,
      .step 1,.step 0,
      .step 1,.step 0]).shared.nextId ≤ 2 ^ 32 := by decide +kernel
  have hmem : 62 ∈ (SharedMap.run [.start ("okx","X"),.start ("okx","X"),.step 0,.step 1,
      .step 0,.step 1,
      .step 0,.step 1,.step 0]).shared.burnt := by decide +kernel
  exact ⟨hb,hmem,((shared_ids_agree _ hb).2.2.2 62 hmem).1⟩

end SpreadArb.Proofs.Ids
