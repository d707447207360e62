import SpreadArb.Proofs.Queue

namespace SpreadArb.Proofs.Races
open Interact DropQueue Queue

variable {α : Type}

section OneProducer

/-- Where a call stands. -/
inductive Phase (α : Type) where
  | starting (x : α)
  /-- The first push has failed. -/
  | full (x : α)
  /-- The drop step has been made. -/
  | cleared (x : α)
  | stored (x : α)
  | refused (x : α)
  | popping
  | popped (item : Option α)

def Phase.use : Phase α → Use α
  | .starting x | .full x | .cleared x | .stored x | .refused x => .push x
  | .popping | .popped _ => .pop

/-- The call has yet to store its item, or to look for one. -/
def Phase.Open : Phase α → Prop
  | .starting _ | .full _ | .cleared _ | .popping => True
  | .stored _ | .refused _ | .popped _ => False

/-- How the requests of a call go on. -/
inductive Moves : Phase α → (op : QueueOp α) → QueueOp.Ans op → Phase α → Prop
  | counted (x : α) (u : Unit) : Moves (.starting x) .pushCount u (.starting x)
  | pushed (x : α) : Moves (.starting x) (.push x false) true (.stored x)
  | overfull (x : α) : Moves (.starting x) (.push x false) false (.full x)
  | dropped (x : α) (r : Option α) : Moves (.full x) (.pop true) r (.cleared x)
  | retried (x : α) : Moves (.cleared x) (.push x true) true (.stored x)
  | refused (x : α) : Moves (.cleared x) (.push x true) false (.refused x)
  | enqueued (x : α) (u : Unit) : Moves (.stored x) .enqueueCount u (.stored x)
  | dropCounted (g : Phase α) (u : Unit) : Moves g .dropCount u g
  | popped (r : Option α) : Moves .popping (.pop false) r (.popped r)
  | popCounted (r : Option α) (u : Unit) : Moves (.popped r) .popCount u (.popped r)

/-- Where a call that has returned stands. -/
def Ended : Use α → Option α → Phase α → Prop
  | .push x, _, g => g = .stored x ∨ g = .refused x
  | .pop, item, g => g = .popped item

def Use.begin : Use α → Phase α
  | .push x => .starting x
  | .pop => .popping

theorem body_obeys (u : Use α) :
    (QueueKind.market.handles.body u).Obeys Moves (Ended u) (Use.begin u) := by
  cases u with
  | push x =>
    refine fun _ => ⟨_,.counted x _,fun ok => ?_⟩
    cases ok with
    | true => exact ⟨_,.pushed x,fun _ => ⟨_,.enqueued x _,.inl rfl⟩⟩
    | false =>
      refine ⟨_,.overfull x,fun r => ⟨_,.dropped x r,fun ok => ?_⟩⟩
      cases ok with
      | true =>
        exact ⟨_,.retried x,fun _ => ⟨_,.enqueued x _,fun _ => ⟨_,.dropCounted _ _,.inl rfl⟩⟩⟩
      | false => exact ⟨_,.refused x,fun _ => ⟨_,.dropCounted _ _,.inr rfl⟩⟩
  | pop =>
    intro r
    cases r with
    | some x => exact ⟨_,.popped _,fun _ => ⟨_,.popCounted _ _,rfl⟩⟩
    | none => exact ⟨_,.popped _,rfl⟩

theorem moves_use {g g' : Phase α} {op : QueueOp α} {r : QueueOp.Ans op} (h : Moves g op r g') :
    g'.use = g.use := by
  cases h <;> rfl

/-- The queue and the places where the calls of one producer and of the consumers stand. -/
structure Raced (w : DropQueue α) (ghosts : List (Phase α)) : Prop where
  fifo : Fifo w
  /-- Of two pushes the earlier one is over. -/
  alone : ∀ {n k : Nat} {x y : α} {g g' : Phase α}, n < k → ghosts[n]? = some g →
    ghosts[k]? = some g' →
    g.use = .push x → g'.use = .push y → g = .stored x
  cleared : ∀ {n : Nat} {x : α}, ghosts[n]? = some (.cleared x) → w.items.length < w.capacity
  never : ∀ {n : Nat} {x : α}, ghosts[n]? ≠ some (.refused x)
  stored : ∀ {n : Nat} {x : α}, ghosts[n]? = some (.stored x) → ⟨x,n⟩ ∈ w.accepted
  accepted : ∀ {e : QueueEntry α}, e ∈ w.accepted → ghosts[e.pusher]? = some (.stored e.item)
  sorted : w.accepted.Pairwise (fun e e' => e.pusher < e'.pusher)
  dropped : ∀ {r : Removal α}, r ∈ w.removed → r.dropped = true →
    r.entry.pusher < r.remover ∧ ∃ g x, ghosts[r.remover]? = some g ∧ g.use = .push x
  popped : ∀ {r : Removal α}, r ∈ w.removed → r.dropped = false →
    ghosts[r.remover]? = some (.popped (some r.entry.item))
  taken : ∀ {n : Nat} {item : Option α}, ghosts[n]? = some (.popped item) →
    (w.removed.filter (fun r => r.remover = n)).map (·.entry.item) = item.toList
  untaken : ∀ {n : Nat}, ghosts[n]? = some .popping → w.removed.filter (fun r => r.remover = n) = []

theorem raced_new (capacity : ℕ+) : Raced (withCapacity capacity : DropQueue α) [] := by
  constructor
  case fifo => exact fifo_new capacity
  all_goals simp [withCapacity]

variable {w : DropQueue α} {ghosts : List (Phase α)} {n : Nat} {g : Phase α}

theorem remover_lt (h : Raced w ghosts) {r : Removal α} (hr : r ∈ w.removed) :
    r.remover < ghosts.length := by
  cases hd : r.dropped with
  | true =>
    obtain ⟨_,_,_,hg,_⟩ := h.dropped hr hd
    exact (List.getElem?_eq_some_iff.mp hg).1
  | false => exact (List.getElem?_eq_some_iff.mp (h.popped hr hd)).1

/-- A call begins: a push only when the pushes before it are over. -/
theorem raced_start (h : Raced w ghosts) (u : Use α)
    (hover : ∀ x, u = .push x → ∀ (k : Nat) (y : α) (g : Phase α), ghosts[k]? = some g →
    g.use = .push y → g = .stored y) : Raced w (ghosts ++ [Use.begin u]) := by
  have hbegin : (Use.begin u).use = u := by cases u <;> rfl
  have hold : ∀ {k : Nat} {g : Phase α}, ghosts[k]? = some g →
      (ghosts ++ [Use.begin u])[k]? = some g :=
    fun hk => Pool.ghost_new.mpr (.inr hk)
  constructor
  case fifo => exact h.fifo
  case sorted => exact h.sorted
  case accepted => exact fun he => hold (h.accepted he)
  case popped => exact fun hr hd => hold (h.popped hr hd)
  case dropped =>
    intro r hr hd
    obtain ⟨hlt,g,x,hg,hx⟩ := h.dropped hr hd
    exact ⟨hlt,g,x,hold hg,hx⟩
  case alone =>
    intro n k x y g g' hlt hn hk hx hy
    rcases Pool.ghost_new.mp hk with ⟨rfl,rfl⟩ | hk
    · rcases Pool.ghost_new.mp hn with ⟨hn,_⟩ | hn
      · exact absurd hn hlt.ne
      · exact hover y (hbegin ▸ hy) n x g hn hx
    · rcases Pool.ghost_new.mp hn with ⟨rfl,_⟩ | hn
      · exact absurd (List.getElem?_eq_some_iff.mp hk).1 hlt.not_gt
      · exact h.alone hlt hn hk hx hy
  case cleared =>
    intro n x hn
    rcases Pool.ghost_new.mp hn with ⟨_,he⟩ | hn
    · cases u <;> cases he
    · exact h.cleared hn
  case never =>
    intro n x hn
    rcases Pool.ghost_new.mp hn with ⟨_,he⟩ | hn
    · cases u <;> cases he
    · exact h.never hn
  case stored =>
    intro n x hn
    rcases Pool.ghost_new.mp hn with ⟨_,he⟩ | hn
    · cases u <;> cases he
    · exact h.stored hn
  case taken =>
    intro n item hn
    rcases Pool.ghost_new.mp hn with ⟨_,he⟩ | hn
    · cases u <;> cases he
    · exact h.taken hn
  case untaken =>
    intro n hn
    rcases Pool.ghost_new.mp hn with ⟨rfl,_⟩ | hn
    · apply List.filter_eq_nil_iff.mpr
      intro r hr
      simpa using (remover_lt h hr).ne
    · exact h.untaken hn

/-- Counters are not looked at. -/
theorem raced_counts (h : Raced w ghosts) (a b c d : UInt64) :
    Raced { w with pushCount := a, enqueueCount := b, dropCount := c, popCount := d } ghosts where
  fifo := ⟨h.fifo.order,h.fifo.room⟩
  alone := h.alone
  cleared := h.cleared
  never := h.never
  stored := h.stored
  accepted := h.accepted
  sorted := h.sorted
  dropped := h.dropped
  popped := h.popped
  taken := h.taken
  untaken := h.untaken

/-- While a push is under way, all that came in came from the pushes before it. -/
theorem pusher_lt (h : Raced w ghosts) {x : α} (hn : ghosts[n]? = some g) (hx : g.use = .push x)
    (hopen : g.Open) {e : QueueEntry α} (he : e ∈ w.accepted) : e.pusher < n := by
  have hstored := h.accepted he
  rcases Nat.lt_trichotomy e.pusher n with hlt | heq | hgt
  · exact hlt
  · rw [heq,hn] at hstored
    cases hstored
    exact hopen.elim
  · cases h.alone hgt hn hstored hx rfl
    exact hopen.elim

/-- No other push is under way. -/
theorem no_other (h : Raced w ghosts) {x y : α} {k : Nat} {g' : Phase α} (hn : ghosts[n]? = some g)
    (hx : g.use = .push x) (hopen : g.Open) (hk : ghosts[k]? = some g') (hy : g'.use = .push y)
    (hopen' : g'.Open) : k = n := by
  rcases Nat.lt_trichotomy k n with hlt | heq | hgt
  · cases h.alone hlt hk hn hy hx
    exact hopen'.elim
  · exact heq
  · cases h.alone hgt hn hk hx hy
    exact hopen.elim

theorem mem_accepted (h : Raced w ghosts) {e : QueueEntry α} {items : List (QueueEntry α)}
    (hi : w.items = e :: items) : e ∈ w.accepted := by
  rw [h.fifo.order,hi]
  simp

section Moves

variable {g' : Phase α}

/-- A call that is over stands where it stood. -/
theorem over_kept (hn : ghosts[n]? = some g) (hopen : g.Open) {k : Nat} {e : Phase α}
    (hk : ghosts[k]? = some e) (he : ¬ e.Open) : (ghosts.set n g')[k]? = some e := by
  refine (Pool.ghost_set hn).mpr (.inr ⟨?_,hk⟩)
  rintro rfl
  cases hn.symm.trans hk
  exact he hopen

/-- A call at another place than the moved one has come to is not the moved one. -/
theorem elsewhere (hn : ghosts[n]? = some g) {k : Nat} {e : Phase α}
    (hk : (ghosts.set n g')[k]? = some e) (hne : e ≠ g') : k ≠ n ∧ ghosts[k]? = some e := by
  rcases (Pool.ghost_set hn).mp hk with ⟨_,he⟩ | hk
  · exact absurd he hne
  · exact hk

theorem alone_moved (g' : Phase α) (h : Raced w ghosts) (hn : ghosts[n]? = some g) (hopen : g.Open)
    (huse : g'.use = g.use) {k l : Nat} {y z : α} {e e' : Phase α} (hlt : k < l)
    (hk : (ghosts.set n g')[k]? = some e) (hl : (ghosts.set n g')[l]? = some e')
    (hy : e.use = .push y) (hz : e'.use = .push z) : e = .stored y := by
  rcases (Pool.ghost_set hn).mp hk with ⟨hkn,rfl⟩ | ⟨_,hk⟩
  · subst hkn
    rcases (Pool.ghost_set hn).mp hl with ⟨hln,_⟩ | ⟨_,hl⟩
    · exact absurd hln hlt.ne'
    · cases h.alone hlt hn hl (huse ▸ hy) hz
      exact hopen.elim
  · rcases (Pool.ghost_set hn).mp hl with ⟨hln,he⟩ | ⟨_,hl⟩
    · rw [he,huse] at hz
      exact h.alone (hln ▸ hlt) hk hn hy hz
    · exact h.alone hlt hk hl hy hz

theorem dropped_moved (g' : Phase α) (h : Raced w ghosts) (hn : ghosts[n]? = some g)
    (huse : g'.use = g.use) {r : Removal α} (hr : r ∈ w.removed) (hd : r.dropped = true) :
    r.entry.pusher < r.remover ∧
      ∃ e x, (ghosts.set n g')[r.remover]? = some e ∧ e.use = .push x := by
  obtain ⟨hlt,e,x,he,hx⟩ := h.dropped hr hd
  refine ⟨hlt,?_⟩
  by_cases hk : r.remover = n
  · rw [hk] at he ⊢
    cases hn.symm.trans he
    exact ⟨g',x,(Pool.ghost_set hn).mpr (.inl ⟨rfl,rfl⟩),huse.trans hx⟩
  · exact ⟨e,x,(Pool.ghost_set hn).mpr (.inr ⟨hk,he⟩),hx⟩

/-- The items of a call are not those another call takes. -/
theorem taken_of_other {removed : List (Removal α)} {r : Removal α} {k : Nat} (hk : k ≠ r.remover) :
    (removed ++ [r]).filter (fun r => r.remover = k) = removed.filter (fun r => r.remover = k) := by
  simp [Ne.symm hk]

/-- A push stores its item. -/
theorem raced_stores {x : α} (h : Raced w ghosts) (hn : ghosts[n]? = some g) (hopen : g.Open)
    (hx : g.use = .push x)
    (hfifo : Fifo { w with items := w.items ++ [⟨x,n⟩], accepted := w.accepted ++ [⟨x,n⟩] }) :
    Raced { w with items := w.items ++ [⟨x,n⟩], accepted := w.accepted ++ [⟨x,n⟩] }
      (ghosts.set n (.stored x)) := by
  constructor
  case fifo => exact hfifo
  case alone => exact alone_moved (.stored x) h hn hopen hx.symm
  case dropped => exact dropped_moved (.stored x) h hn hx.symm
  case popped => exact fun hr hd => over_kept hn hopen (h.popped hr hd) id
  case cleared =>
    intro k y hk
    obtain ⟨hkn,hk⟩ := elsewhere hn hk nofun
    exact absurd (no_other h hn hx hopen hk rfl trivial) hkn
  case never => exact fun hk => h.never (elsewhere hn hk nofun).2
  case stored =>
    intro k y hk
    rcases (Pool.ghost_set hn).mp hk with ⟨rfl,he⟩ | ⟨_,hk⟩
    · cases he
      simp
    · exact List.mem_append_left _ (h.stored hk)
  case accepted =>
    intro e he
    rcases List.mem_append.mp he with he | he
    · exact over_kept hn hopen (h.accepted he) id
    · rw [List.mem_singleton.mp he]
      exact (Pool.ghost_set hn).mpr (.inl ⟨rfl,rfl⟩)
  case sorted =>
    refine List.pairwise_append.mpr ⟨h.sorted,List.pairwise_singleton _ _,?_⟩
    intro e he e' he'
    rw [List.mem_singleton.mp he']
    exact pusher_lt h hn hx hopen he
  case taken => exact fun hk => h.taken (elsewhere hn hk nofun).2
  case untaken => exact fun hk => h.untaken (elsewhere hn hk nofun).2

/-- A push whose first try has failed takes an item away. -/
theorem raced_drops {x : α} {e : QueueEntry α} {items : List (QueueEntry α)} (h : Raced w ghosts)
    (hn : ghosts[n]? = some (.full x)) (hi : w.items = e :: items)
    (hfifo : Fifo { w with items, removed := w.removed ++ [⟨e,true,n⟩] }) :
    Raced { w with items, removed := w.removed ++ [⟨e,true,n⟩] } (ghosts.set n (.cleared x)) := by
  have hroom : items.length < w.capacity := by
    have hle := h.fifo.room
    rw [hi] at hle
    exact hle
  constructor
  case fifo => exact hfifo
  case alone => exact alone_moved (.cleared x) h hn trivial rfl
  case sorted => exact h.sorted
  case accepted => exact fun he => over_kept hn trivial (h.accepted he) id
  case cleared => exact fun _ => hroom
  case never => exact fun hk => h.never (elsewhere hn hk nofun).2
  case stored => exact fun hk => h.stored (elsewhere hn hk nofun).2
  case dropped =>
    intro r hr hd
    rcases List.mem_append.mp hr with hr | hr
    · exact dropped_moved (.cleared x) h hn rfl hr hd
    · rw [List.mem_singleton.mp hr]
      exact ⟨pusher_lt h hn rfl trivial (mem_accepted h hi),.cleared x,x,
        (Pool.ghost_set hn).mpr (.inl ⟨rfl,rfl⟩),rfl⟩
  case popped =>
    intro r hr hd
    rcases List.mem_append.mp hr with hr | hr
    · exact over_kept hn trivial (h.popped hr hd) id
    · rw [List.mem_singleton.mp hr] at hd
      cases hd
  case taken =>
    intro k item hk
    obtain ⟨hkn,hk⟩ := elsewhere hn hk nofun
    rw [taken_of_other hkn]
    exact h.taken hk
  case untaken =>
    intro k hk
    obtain ⟨hkn,hk⟩ := elsewhere hn hk nofun
    rw [taken_of_other hkn]
    exact h.untaken hk

/-- A consumer takes an item. -/
theorem raced_pops {e : QueueEntry α} {items : List (QueueEntry α)} (h : Raced w ghosts)
    (hn : ghosts[n]? = some .popping) (hi : w.items = e :: items)
    (hfifo : Fifo { w with items, removed := w.removed ++ [⟨e,false,n⟩] }) :
    Raced { w with items, removed := w.removed ++ [⟨e,false,n⟩] }
      (ghosts.set n (.popped (some e.item))) := by
  constructor
  case fifo => exact hfifo
  case alone => exact alone_moved (.popped (some e.item)) h hn trivial rfl
  case sorted => exact h.sorted
  case accepted => exact fun he => over_kept hn trivial (h.accepted he) id
  case cleared =>
    intro k y hk
    have hlt := h.cleared (elsewhere hn hk nofun).2
    rw [hi] at hlt
    exact (Nat.lt_succ_self _).trans hlt
  case never => exact fun hk => h.never (elsewhere hn hk nofun).2
  case stored => exact fun hk => h.stored (elsewhere hn hk nofun).2
  case dropped =>
    intro r hr hd
    rcases List.mem_append.mp hr with hr | hr
    · exact dropped_moved (.popped (some e.item)) h hn rfl hr hd
    · rw [List.mem_singleton.mp hr] at hd
      cases hd
  case popped =>
    intro r hr hd
    rcases List.mem_append.mp hr with hr | hr
    · exact over_kept hn trivial (h.popped hr hd) id
    · rw [List.mem_singleton.mp hr]
      exact (Pool.ghost_set hn).mpr (.inl ⟨rfl,rfl⟩)
  case taken =>
    intro k item hk
    rcases (Pool.ghost_set hn).mp hk with ⟨rfl,he⟩ | ⟨hkn,hk⟩
    · cases he
      rw [List.filter_append,h.untaken hn]
      simp
    · rw [taken_of_other hkn]
      exact h.taken hk
  case untaken =>
    intro k hk
    obtain ⟨hkn,hk⟩ := elsewhere hn hk nofun
    rw [taken_of_other hkn]
    exact h.untaken hk

/-- A call finds the queue full, or empty: the queue stays as it is. -/
theorem raced_looks (h : Raced w ghosts) (hn : ghosts[n]? = some g)
    (hlook : (∃ x, g = .starting x ∧ g' = .full x) ∨
      w.items = [] ∧ ((∃ x, g = .full x ∧ g' = .cleared x) ∨ g = .popping ∧ g' = .popped none)) :
    Raced w (ghosts.set n g') := by
  have hopen : g.Open := by
    rcases hlook with ⟨x,rfl,_⟩ | ⟨_,⟨x,rfl,_⟩ | ⟨rfl,_⟩⟩ <;> trivial
  have huse : g'.use = g.use := by
    rcases hlook with ⟨x,rfl,rfl⟩ | ⟨_,⟨x,rfl,rfl⟩ | ⟨rfl,rfl⟩⟩ <;> rfl
  have hplace : ∀ y, .refused y ≠ g' ∧ .stored y ≠ g' := by
    rcases hlook with ⟨x,_,rfl⟩ | ⟨_,⟨x,_,rfl⟩ | ⟨_,rfl⟩⟩ <;> simp
  have hpopping : .popping ≠ g' := by
    rcases hlook with ⟨x,_,rfl⟩ | ⟨_,⟨x,_,rfl⟩ | ⟨_,rfl⟩⟩ <;> simp
  constructor
  case fifo => exact h.fifo
  case alone => exact alone_moved _ h hn hopen huse
  case sorted => exact h.sorted
  case accepted => exact fun he => over_kept hn hopen (h.accepted he) id
  case dropped => exact dropped_moved _ h hn huse
  case popped => exact fun hr hd => over_kept hn hopen (h.popped hr hd) id
  case cleared =>
    intro k y hk
    rcases (Pool.ghost_set hn).mp hk with ⟨_,he⟩ | ⟨_,hk⟩
    · rcases hlook with ⟨x,_,rfl⟩ | ⟨hi,_⟩
      · cases he
      · rw [hi]
        exact w.capacity.pos
    · exact h.cleared hk
  case never => exact fun hk => h.never (elsewhere hn hk (hplace _).1).2
  case stored => exact fun hk => h.stored (elsewhere hn hk (hplace _).2).2
  case taken =>
    intro k item hk
    rcases (Pool.ghost_set hn).mp hk with ⟨rfl,he⟩ | ⟨_,hk⟩
    · rcases hlook with ⟨x,_,rfl⟩ | ⟨_,⟨x,_,rfl⟩ | ⟨rfl,rfl⟩⟩
      · cases he
      · cases he
      · cases he
        rw [h.untaken hn]
        rfl
    · exact h.taken hk
  case untaken => exact fun hk => h.untaken (elsewhere hn hk hpopping).2

end Moves

/-- What a request of a call does. -/
theorem raced_served (h : Raced w ghosts) {op : QueueOp α} {g' : Phase α} (hn : ghosts[n]? = some g)
    (hm : Moves g op ((machine n).serve op w).1 g') :
    Raced ((machine n).serve op w).2 (ghosts.set n g') := by
  have hfifo := fifo_serve h.fifo n op
  generalize hr : ((machine n).serve op w).1 = r at hm
  cases hm with
  | counted x u =>
    rw [Pool.ghost_same hn]
    exact raced_counts h _ _ _ _
  | enqueued x u =>
    rw [Pool.ghost_same hn]
    exact raced_counts h _ _ _ _
  | dropCounted g u =>
    rw [Pool.ghost_same hn]
    exact raced_counts h _ _ _ _
  | popCounted item u =>
    rw [Pool.ghost_same hn]
    exact raced_counts h _ _ _ _
  | pushed x =>
    by_cases hroom : w.items.length < w.capacity
    · rw [serve_push_room n hroom] at hfifo ⊢
      exact raced_stores h hn trivial rfl hfifo
    · rw [serve_push_full n hroom] at hr
      cases hr
  | overfull x =>
    by_cases hroom : w.items.length < w.capacity
    · rw [serve_push_room n hroom] at hr
      cases hr
    · rw [serve_push_full n hroom]
      exact raced_looks h hn (.inl ⟨x,rfl,rfl⟩)
  | retried x =>
    rw [serve_push_room n (h.cleared hn)] at hfifo ⊢
    exact raced_stores h hn trivial rfl hfifo
  | refused x =>
    rw [serve_push_room n (h.cleared hn)] at hr
    cases hr
  | dropped x item =>
    cases hi : w.items with
    | nil =>
      rw [serve_pop_nil n hi]
      exact raced_looks h hn (.inr ⟨hi,.inl ⟨x,rfl,rfl⟩⟩)
    | cons e items =>
      rw [serve_pop_cons n hi] at hfifo ⊢
      exact raced_drops h hn hi hfifo
  | popped item =>
    cases hi : w.items with
    | nil =>
      rw [serve_pop_nil n hi] at hr ⊢
      cases hr
      exact raced_looks h hn (.inr ⟨hi,.inr ⟨rfl,rfl⟩⟩)
    | cons e items =>
      rw [serve_pop_cons n hi] at hr hfifo ⊢
      cases hr
      exact raced_pops h hn hi hfifo

/-- The calls stand where calls of their kind can. -/
def Labelled (s : QueuePool α) (ghosts : List (Phase α)) : Prop :=
  ∀ (n : Nat) (c : Call (Use α) (queueSig α) (Option α)) (g : Phase α), s.calls[n]? = some c →
    ghosts[n]? = some g → c.label = g.use

theorem run_raced {capacity : ℕ+} {acts : List (Act (Use α))}
    (h : QueuePool.Meets QueueKind.market.handles capacity QueuePool.OneProducer acts) :
    let s := QueuePool.run QueueKind.market.handles capacity acts
    ∃ ghosts, Pool.Tracked Moves Ended s ghosts ∧ Raced s.shared ghosts ∧ Labelled s ghosts := by
  refine Pool.run_tracked (J := fun s gs => Raced s.shared gs ∧ Labelled s gs) ?_ ?_ h
    (Pool.tracked_new _)
    ⟨raced_new capacity,fun n c g hc => by simp at hc⟩
  · intro s gs u hc ht ⟨hr,hl⟩
    refine ⟨_,body_obeys u,raced_start hr u ?_,?_⟩
    · rintro x rfl k y g hg hy
      have hlt : k < s.calls.length := ht.length_eq ▸ (List.getElem?_eq_some_iff.mp hg).1
      have hk := List.getElem?_eq_getElem hlt
      have hlabel := hl k _ g hk hg
      have hdone := hc _ (List.getElem_mem hlt) (by rw [hlabel,hy]; rfl)
      obtain ⟨a,ha⟩ := Option.isSome_iff_exists.mp hdone
      obtain ⟨q,hq,hend⟩ := ht.result hk ha
      cases hg.symm.trans hq
      rw [hlabel,hy] at hend
      rcases hend with hend | hend
      · exact hend
      · exact absurd (hend ▸ hg) hr.never
    · intro n c g hc hg
      rcases Pool.ghost_new.mp hc with ⟨rfl,rfl⟩ | hc
      · rcases Pool.ghost_new.mp hg with ⟨_,rfl⟩ | hg
        · cases u <;> rfl
        · exact absurd (List.getElem?_eq_some_iff.mp hg).1 (ht.length_eq ▸ lt_irrefl _)
      · rcases Pool.ghost_new.mp hg with ⟨rfl,_⟩ | hg
        · exact absurd (List.getElem?_eq_some_iff.mp hc).1 (ht.length_eq ▸ lt_irrefl _)
        · exact hl n c g hc hg
  · intro s gs n u op next q q' _ _ ⟨hr,hl⟩ hcall hq hm
    refine ⟨raced_served hr hq hm,fun k c g hk hg => ?_⟩
    rcases (Pool.ghost_set hcall).mp hk with ⟨rfl,rfl⟩ | ⟨hkn,hk⟩
    · rcases (Pool.ghost_set hq).mp hg with ⟨_,rfl⟩ | ⟨hkn,_⟩
      · exact (hl k _ q hcall hq).trans (moves_use hm).symm
      · exact absurd rfl hkn
    · rcases (Pool.ghost_set hq).mp hg with ⟨hkn',_⟩ | ⟨_,hg⟩
      · exact absurd hkn' hkn
      · exact hl k c g hk hg

/-- What left before an item left: all that came in before it. -/
theorem older_removed (h : Raced w ghosts) {before after : List (Removal α)} {r : Removal α}
    (hr : w.removed = before ++ r :: after) {e : QueueEntry α} (he : e ∈ w.accepted)
    (hlt : e.pusher < r.entry.pusher) : ∃ r' ∈ before, r'.entry = e := by
  have horder : w.accepted = before.map (·.entry) ++ r.entry ::
      (after.map (·.entry) ++ w.items) := by
    rw [h.fifo.order,hr]
    simp
  have hsorted := h.sorted
  rw [horder] at he hsorted
  rcases List.mem_append.mp he with he | he
  · exact List.mem_map.mp he
  · have hrest := (List.pairwise_append.mp hsorted).2.1
    rcases List.mem_cons.mp he with rfl | he
    · exact absurd hlt (lt_irrefl _)
    · exact absurd hlt ((List.pairwise_cons.mp hrest).1 e he).not_gt

/-- One producer and any number of consumers, in any order of their steps. The retry of a push finds
room. Every item is queued or has left once, and the items leave in the order in which they came,
for a consumer or by a drop step. The item of a push that has returned is there, or with a consumer
until the next push. -/
theorem one_producer_exact (capacity : ℕ+) (acts : List (Act (Use α)))
    (h : QueuePool.Meets QueueKind.market.handles capacity QueuePool.OneProducer acts) :
    let s := QueuePool.run QueueKind.market.handles capacity acts
    let w := s.shared
    (∀ (n : Nat) (u : Use α) (x : α) (next : Bool → QueueCall α (Option α)),
      s.calls[n]? = some ⟨u,.call (.push x true) next⟩ → w.items.length < w.capacity) ∧
    (w.accepted = w.removed.map (·.entry) ++ w.items ∧
      w.accepted.Pairwise (fun e e' => e.pusher < e'.pusher)) ∧
    (∀ (before after : List (Removal α)) (r : Removal α), w.removed = before ++ r :: after →
      ∀ e ∈ w.accepted, e.pusher < r.entry.pusher → ∃ r' ∈ before, r'.entry = e) ∧
    (∀ (n : Nat) (c : Call (Use α) (queueSig α) (Option α)) (x : α), s.calls[n]? = some c →
      c.label = .push x → c.Done → ⟨x,n⟩ ∈ w.accepted ∧
        ((∀ (k : Nat) (c' : Call (Use α) (queueSig α) (Option α)), n < k → s.calls[k]? = some c' →
          c'.label.isPush = false) →
        ⟨x,n⟩ ∈ w.items ∨ ∃ r ∈ w.removed, r.entry = ⟨x,n⟩ ∧ r.dropped = false)) ∧
    (∀ e ∈ w.accepted, ∃ c, s.calls[e.pusher]? = some c ∧ c.label = .push e.item) ∧
    (∀ r ∈ w.removed, ∃ c, s.calls[r.remover]? = some c ∧ c.label.isPush = r.dropped) ∧
    (∀ (n : Nat) (c : Call (Use α) (queueSig α) (Option α)) (item : Option α), s.calls[n]? =
      some c → c.label = .pop → c.result = some item →
      (w.removed.filter (fun r => r.remover = n)).map (·.entry.item) = item.toList) := by
  intro s w
  obtain ⟨ghosts,ht,hr,hl⟩ := run_raced h
  have hr : Raced w ghosts := hr
  have hl : Labelled s ghosts := hl
  have hcall : ∀ {n : Nat} {g : Phase α}, ghosts[n]? = some g → ∃ c, s.calls[n]? = some c ∧
      c.label = g.use := by
    intro n g hg
    have hlt : n < s.calls.length := ht.length_eq ▸ (List.getElem?_eq_some_iff.mp hg).1
    exact ⟨_,List.getElem?_eq_getElem hlt,hl n _ g (List.getElem?_eq_getElem hlt) hg⟩
  have hdropper : ∀ {r : Removal α}, r ∈ w.removed → r.dropped = true →
      ∃ c, s.calls[r.remover]? = some c ∧ c.label.isPush = true := by
    intro r hrem hd
    obtain ⟨_,g,x,hg,hx⟩ := hr.dropped hrem hd
    obtain ⟨c,hc,hlabel⟩ := hcall hg
    exact ⟨c,hc,by rw [hlabel,hx]; rfl⟩
  refine ⟨?_,⟨hr.fifo.order,hr.sorted⟩,fun before after r hrem e he hlt =>
    older_removed hr hrem he hlt,?_,?_,?_,?_⟩
  · intro n u x next hc
    obtain ⟨g,hg⟩ := ht.ghost hc
    obtain ⟨g',hm,_⟩ := ht.obeys n _ g hc hg true
    cases hm
    exact hr.cleared hg
  · intro n c x hc hx hdone
    obtain ⟨a,ha⟩ := Option.isSome_iff_exists.mp hdone
    obtain ⟨g,hg,hend⟩ := ht.result hc ha
    rw [hx] at hend
    have hg : ghosts[n]? = some (.stored x) := by
      rcases hend with rfl | rfl
      · exact hg
      · exact absurd hg hr.never
    have hacc := hr.stored hg
    refine ⟨hacc,fun hlast => ?_⟩
    rw [hr.fifo.order] at hacc
    rcases List.mem_append.mp hacc with hgone | hthere
    · obtain ⟨r,hrem,hentry⟩ := List.mem_map.mp hgone
      refine .inr ⟨r,hrem,hentry,?_⟩
      by_contra hd
      have hd : r.dropped = true := by simpa using hd
      obtain ⟨c',hc',hpush⟩ := hdropper hrem hd
      have hlt := (hr.dropped hrem hd).1
      rw [hentry] at hlt
      rw [hlast _ c' hlt hc'] at hpush
      cases hpush
    · exact .inl hthere
  · exact fun e he => hcall (hr.accepted he)
  · intro r hrem
    cases hd : r.dropped with
    | true => exact hdropper hrem hd
    | false =>
      obtain ⟨c,hc,hlabel⟩ := hcall (hr.popped hrem hd)
      exact ⟨c,hc,by rw [hlabel]; rfl⟩
  · intro n c item hc hpop hres
    obtain ⟨g,hg,hend⟩ := ht.result hc hres
    rw [hpop] at hend
    exact hr.taken (hend ▸ hg)

/-- The consumer takes the only item after the push of a second one has failed; the drop step then
finds nothing. -/
def drained : List (Act (Use Nat)) :=
  [.start (.push 7),.step 0,.step 0,.step 0,.start (.push 8),.step 1,.step 1,.start .pop,.step 2,
    .step 2,.step 1,.step 1,.step 1,.step 1]

theorem drained_push_stores :
    QueuePool.Meets QueueKind.market.handles 1 QueuePool.OneProducer drained ∧
    (⟨8,1⟩ : QueueEntry Nat) ∈
      (QueuePool.run QueueKind.market.handles 1 drained).shared.accepted := by
  have hmeets : QueuePool.Meets QueueKind.market.handles 1 QueuePool.OneProducer drained := by
    unfold QueuePool.Meets
    decide
  refine ⟨hmeets,?_⟩
  exact ((one_producer_exact 1 _ hmeets).2.2.2.1 1 ⟨.push 8,.ret none⟩ 8 rfl rfl rfl).1

end OneProducer

section Balance

/-- How far the counters are from what a call has done to the queue (modulo 2^64, as they count),
whether its drop step found an item, and whether its retry came out the other way. -/
structure Account where
  debt : UInt64
  found : Bool
  spoilt : Bool

def Account.next (q : Account) : (op : QueueOp α) → QueueOp.Ans op → Account
  | .pushCount, _ => { q with debt := q.debt+1 }
  | .enqueueCount, _ => q
  | .dropCount, _ | .popCount, _ => { q with debt := q.debt-1 }
  | .push _ retry, ok =>
    { q with debt := if ok then q.debt-1 else q.debt, spoilt := q.spoilt || (retry &&
      (ok != q.found)) }
  | .pop drop, item =>
    { q with debt := if item.isSome then q.debt+1 else q.debt, found := q.found || (drop &&
      item.isSome) }

def Accounted (q : Account) (op : QueueOp α) (r : QueueOp.Ans op) (q' : Account) : Prop :=
  q' = q.next op r

/-- A call settles its account unless its retry is spoilt. -/
def Settled (_ : Use α) (_ : Option α) (q : Account) : Prop := q.spoilt = false → q.debt = 0

theorem dropOldestPush_settles (x : α) :
    (dropOldestPush x).Obeys Accounted (fun _ q => Settled (.push x) none q) ⟨0,false,false⟩ := by
  refine fun _ => ⟨_,rfl,fun ok => ⟨_,rfl,?_⟩⟩
  cases ok with
  | true => exact fun _ => ⟨_,rfl,fun _ => by simp [Account.next]⟩
  | false =>
    refine fun item => ⟨_,rfl,fun ok => ⟨_,rfl,?_⟩⟩
    cases item with
    | none =>
      cases ok with
      | false => exact fun _ => ⟨_,rfl,fun _ => by simp [Account.next]⟩
      | true => exact fun _ => ⟨_,rfl,fun _ => ⟨_,rfl,fun h => nomatch h⟩⟩
    | some y =>
      cases ok with
      | false => exact fun _ => ⟨_,rfl,fun h => nomatch h⟩
      | true => exact fun _ => ⟨_,rfl,fun _ => ⟨_,rfl,fun _ => by simp [Account.next]⟩⟩

theorem opportunityPush_settles (x : α) :
    (OpportunityProducer.push x).Obeys Accounted (fun _ q => Settled (.push x) none q) ⟨0,false,
      false⟩ := by
  refine fun _ => ⟨_,rfl,fun ok => ⟨_,rfl,?_⟩⟩
  cases ok with
  | true => exact fun _ => by simp [Account.next]
  | false =>
    refine fun item => ⟨_,rfl,fun _ => ⟨_,rfl,fun ok => ⟨_,rfl,?_⟩⟩⟩
    cases item with
    | none =>
      cases ok with
      | false => exact fun _ => by simp [Account.next]
      | true => exact fun h => nomatch h
    | some y =>
      cases ok with
      | false => exact fun h => nomatch h
      | true => exact fun _ => by simp [Account.next]

theorem countedPop_settles :
    (countedPop : QueueCall α _).Obeys Accounted (Settled .pop) ⟨0,false,false⟩ := by
  intro item
  cases item with
  | none => exact ⟨_,rfl,fun _ => by simp [Account.next]⟩
  | some x => exact ⟨_,rfl,fun _ => ⟨_,rfl,fun _ => by simp [Account.next]⟩⟩

theorem body_settles (q : QueueKind) (u : Use α) :
    (q.handles.body u).Obeys Accounted (Settled u) ⟨0,false,false⟩ := by
  cases u with
  | pop => cases q <;> exact countedPop_settles
  | push x =>
    have hpush : (q.handles.push x).Obeys Accounted (fun _ q => Settled (.push x) none q) ⟨0,false,
        false⟩ := by
      cases q with
      | market => exact dropOldestPush_settles x
      | execution => exact dropOldestPush_settles x
      | opportunity => exact opportunityPush_settles x
    exact hpush.bind (fun _ _ h => h)

/-- The counters and the accounts of the calls. -/
structure Balanced (w : DropQueue α) (ghosts : List Account) : Prop where
  count : w.pushCount = w.popCount + w.dropCount + .ofNat w.items.length + (ghosts.map (·.debt)).sum
  fair : ∀ {n : Nat} {q : Account}, ghosts[n]? = some q → q.spoilt = false
  found : ∀ {n : Nat} {q : Account}, ghosts[n]? = some q → q.found = w.hasDropped n
  remover : ∀ {r : Removal α}, r ∈ w.removed → r.remover < ghosts.length

theorem balanced_new (capacity : ℕ+) : Balanced (withCapacity capacity : DropQueue α) [] := by
  constructor <;> simp [withCapacity]

variable {w : DropQueue α} {ghosts : List Account} {n : Nat} {q : Account}

theorem balanced_start (h : Balanced w ghosts) : Balanced w (ghosts ++ [⟨0,false,false⟩]) where
  count := by simpa using h.count
  fair hk := by
    rcases Pool.ghost_new.mp hk with ⟨_,rfl⟩ | hk
    · rfl
    · exact h.fair hk
  found hk := by
    rcases Pool.ghost_new.mp hk with ⟨rfl,rfl⟩ | hk
    · symm
      rw [hasDropped,List.any_eq_false]
      intro r hr
      simp [(h.remover hr).ne]
    · exact h.found hk
  remover hr := by
    simpa using Nat.lt_succ_of_lt (h.remover hr)

theorem sum_debt_set (hn : ghosts[n]? = some q) (q' : Account) :
    ((ghosts.set n q').map (·.debt)).sum = (ghosts.map (·.debt)).sum - q.debt + q'.debt := by
  obtain ⟨hlt,hq⟩ := List.getElem?_eq_some_iff.mp hn
  rw [List.map_set,List.sum_set']
  simp only [List.length_map,hlt,dite_true,List.getElem_map,hq]
  grind

/-- A call changes the queue and its own account by the same amount. -/
theorem balanced_move {w' : DropQueue α} {q' : Account} (h : Balanced w ghosts)
    (hn : ghosts[n]? = some q)
    (hcount : w'.pushCount - w'.popCount - w'.dropCount - .ofNat w'.items.length - q'.debt =
    w.pushCount - w.popCount - w.dropCount - .ofNat w.items.length - q.debt)
    (hfair : q'.spoilt = false) (hfound : q'.found = w'.hasDropped n)
    (hforeign : ∀ k, k ≠ n → w'.hasDropped k = w.hasDropped k)
    (hremover : ∀ r ∈ w'.removed, r ∈ w.removed ∨ r.remover = n) :
    Balanced w' (ghosts.set n q') where
  count := by
    have := h.count
    rw [sum_debt_set hn]
    grind
  fair hk := by
    rcases (Pool.ghost_set hn).mp hk with ⟨_,rfl⟩ | ⟨_,hk⟩
    · exact hfair
    · exact h.fair hk
  found hk := by
    rcases (Pool.ghost_set hn).mp hk with ⟨rfl,rfl⟩ | ⟨hkn,hk⟩
    · exact hfound
    · rw [hforeign _ hkn]
      exact h.found hk
  remover hr := by
    rw [List.length_set]
    rcases hremover _ hr with hr | hr
    · exact h.remover hr
    · rw [hr]
      exact (List.getElem?_eq_some_iff.mp hn).1

theorem balanced_served (h : Balanced w ghosts) (hn : ghosts[n]? = some q) (op : QueueOp α)
    (hfits : ∀ x, op = .push x true → (w.items.length < w.capacity ↔ w.hasDropped n = true)) :
    Balanced ((machine n).serve op w).2 (ghosts.set n (q.next op ((machine n).serve op w).1)) := by
  have hfair := h.fair hn
  have hfound := h.found hn
  cases op with
  | pushCount =>
    refine balanced_move h hn ?_ hfair hfound (fun _ _ => rfl) (fun _ => .inl)
    simp only [machine,Account.next]
    grind
  | enqueueCount => exact balanced_move h hn rfl hfair hfound (fun _ _ => rfl) (fun _ => .inl)
  | dropCount =>
    refine balanced_move h hn ?_ hfair hfound (fun _ _ => rfl) (fun _ => .inl)
    simp only [machine,Account.next]
    grind
  | popCount =>
    refine balanced_move h hn ?_ hfair hfound (fun _ _ => rfl) (fun _ => .inl)
    simp only [machine,Account.next]
    grind
  | push x retry =>
    by_cases hroom : w.items.length < w.capacity
    · rw [serve_push_room n hroom]
      refine balanced_move h hn ?_ ?_ hfound (fun _ _ => rfl) (fun _ => .inl)
      · simp only [Account.next,if_true,List.length_append,List.length_cons,List.length_nil,
          UInt64.ofNat_add]
        grind
      · cases retry with
        | false => simp [Account.next,hfair]
        | true => simp [Account.next,hfair,hfound,(hfits x rfl).mp hroom]
    · rw [serve_push_full n hroom]
      refine balanced_move h hn ?_ ?_ hfound (fun _ _ => rfl) (fun _ => .inl)
      · simp [Account.next]
      · cases retry with
        | false => simp [Account.next,hfair]
        | true =>
          have hnone : w.hasDropped n = false := by simpa using mt (hfits x rfl).mpr hroom
          simp [Account.next,hfair,hfound,hnone]
  | pop drop =>
    cases hi : w.items with
    | nil =>
      rw [serve_pop_nil n hi]
      refine balanced_move h hn ?_ hfair ?_ (fun _ _ => rfl) (fun _ => .inl)
      · simp [Account.next]
      · simp [Account.next,hfound]
    | cons e items =>
      rw [serve_pop_cons n hi]
      refine balanced_move h hn ?_ hfair ?_ (fun k hk => ?_) (fun r hr => ?_)
      · simp only [Account.next,hi,Option.isSome_some,if_true,List.length_cons,UInt64.ofNat_add]
        grind
      · simp [Account.next,hfound,hasDropped]
      · simp [hasDropped,hk.symm]
      · simp only [List.mem_append,List.mem_singleton] at hr
        rcases hr with hr | rfl
        · exact .inl hr
        · exact .inr rfl

theorem run_balanced {k : QueueKind} {capacity : ℕ+} {acts : List (Act (Use α))}
    (h : QueuePool.Meets k.handles capacity QueuePool.RetryFits acts) :
    let s := QueuePool.run k.handles capacity acts
    ∃ ghosts, Pool.Tracked Accounted Settled s ghosts ∧ Balanced s.shared ghosts := by
  refine Pool.run_tracked (J := fun s gs => Balanced s.shared gs) ?_ ?_ h (Pool.tracked_new _)
    (balanced_new capacity)
  · intro s gs u _ _ hb
    exact ⟨_,body_settles k u,balanced_start hb⟩
  · intro s gs n u op next q q' hc _ hb hcall hq hm
    rw [hm]
    refine balanced_served hb hq op ?_
    rintro x rfl
    simpa [QueuePool.RetryFits,hcall] using hc

/-- In every run whose retries find room exactly when their drop steps found an item, the counters
balance whenever no call is in progress. -/
theorem counts_balance_when_retries_fit (k : QueueKind) (capacity : ℕ+) (acts : List (Act (Use α)))
    (h : QueuePool.Meets k.handles capacity QueuePool.RetryFits acts) :
    let s := QueuePool.run k.handles capacity acts
    s.Quiet → s.shared.pushCount =
      s.shared.popCount + s.shared.dropCount + .ofNat s.shared.items.length := by
  intro s hquiet
  obtain ⟨ghosts,ht,hb⟩ := run_balanced h
  have hsum : (ghosts.map (·.debt)).sum = 0 := by
    apply List.sum_eq_zero
    intro d hd
    obtain ⟨q,hq,rfl⟩ := List.mem_map.mp hd
    obtain ⟨n,hn⟩ := List.mem_iff_getElem?.mp hq
    have hlt : n < s.calls.length := ht.length_eq ▸ (List.getElem?_eq_some_iff.mp hn).1
    obtain ⟨a,ha⟩ := Option.isSome_iff_exists.mp (hquiet _ (List.getElem_mem hlt))
    obtain ⟨q',hq',hsettled⟩ := ht.result (List.getElem?_eq_getElem hlt) ha
    cases hn.symm.trans hq'
    exact hsettled (hb.fair hn)
  have hcount := hb.count
  rw [hsum] at hcount
  exact hcount.trans (UInt64.add_zero _)

/-- Two pushes into a queue of one. -/
theorem undisturbed_pushes_balance :
    let acts : List (Act (Use Nat)) :=
      [.start (.push 7),.step 0,.step 0,.start (.push 8),.step 1,.step 1,.step 1,.step 1,.step 1]
    QueuePool.Meets QueueKind.opportunity.handles 1 QueuePool.RetryFits acts ∧
    (QueuePool.run QueueKind.opportunity.handles 1 acts).Quiet ∧
    (QueuePool.run QueueKind.opportunity.handles 1 acts).shared.pushCount =
      (QueuePool.run QueueKind.opportunity.handles 1 acts).shared.popCount +
      (QueuePool.run QueueKind.opportunity.handles 1 acts).shared.dropCount +
      .ofNat (QueuePool.run QueueKind.opportunity.handles 1 acts).shared.items.length := by
  intro acts
  have hmeets : QueuePool.Meets QueueKind.opportunity.handles 1 QueuePool.RetryFits acts :=
    ⟨trivial,trivial,trivial,trivial,trivial,trivial,trivial,trivial,
      ⟨fun _ => rfl,fun _ => Nat.zero_lt_one⟩,trivial⟩
  have hquiet : (QueuePool.run QueueKind.opportunity.handles 1 acts).Quiet := by decide
  exact ⟨hmeets,hquiet,counts_balance_when_retries_fit .opportunity 1 acts hmeets hquiet⟩

/-- A second producer takes the place that the first one has freed: the item 8 is gone and not
counted. -/
def overtaken : List (Act (Use Nat)) :=
  [.start (.push 7),.step 0,.step 0,.start (.push 8),.step 1,.step 1,.step 1,.start (.push 9),
    .step 2,.step 2,.step 1,.step 1]

/-- With several producers an item can disappear uncounted, and a drop is counted although nothing
was dropped when the one consumer of the one producer comes between. -/
theorem counts_drift :
    ¬ (∀ (capacity : ℕ+) (acts : List (Act (Use Nat))),
      let s := QueuePool.run QueueKind.opportunity.handles capacity acts
      s.Quiet → s.shared.pushCount =
        s.shared.popCount + s.shared.dropCount + .ofNat s.shared.items.length) ∧
    ¬ (∀ (capacity : ℕ+) (acts : List (Act (Use Nat))),
      QueuePool.Meets QueueKind.market.handles capacity QueuePool.OneEach acts →
      let s := QueuePool.run QueueKind.market.handles capacity acts
      s.Quiet → s.shared.pushCount =
        s.shared.popCount + s.shared.dropCount + .ofNat s.shared.items.length) := by
  constructor
  · intro h
    exact absurd (h 1 overtaken (by decide)) (by decide)
  · intro h
    have hmeets : QueuePool.Meets QueueKind.market.handles 1 QueuePool.OneEach drained := by
      unfold QueuePool.Meets
      decide
    exact absurd (h 1 drained hmeets (by decide)) (by decide)

end Balance

end SpreadArb.Proofs.Races
