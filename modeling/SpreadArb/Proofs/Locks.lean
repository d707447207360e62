import SpreadArb.HedgeLocks
import SpreadArb.Proofs.Sections

namespace SpreadArb.Proofs.Locks
open Interact Machine Sections HedgeLocks

section Guards

/-- The set and the values that are alive. -/
structure Sound (l : HedgeLocks) : Prop where
  locks : l.locks = (l.alive.map (·.symbol)).toFinset
  alone : (l.alive.map (·.symbol)).Nodup

theorem sound_new : Sound .new := ⟨rfl,List.nodup_nil⟩

theorem Sound.mem {l : HedgeLocks} (h : Sound l) {symbol : String} :
    symbol ∈ l.locks ↔ ∃ g ∈ l.alive, g.symbol = symbol := by
  rw [h.locks]
  simp

theorem sound_acquire {l : HedgeLocks} (h : Sound l) (owner : Nat) (symbol : String) :
    Sound (l.tryAcquireHedgeLock owner symbol).2 := by
  unfold tryAcquireHedgeLock
  split
  · exact h
  · next hfree =>
    constructor
    · simp [h.locks]
    · rw [h.locks,List.mem_toFinset] at hfree
      exact List.nodup_cons.mpr ⟨hfree,h.alone⟩

theorem erase_symbols {alive : List HedgeLock} (h : (alive.map (·.symbol)).Nodup) {lock : HedgeLock}
    (hl : lock ∈ alive) : (alive.erase lock).map (·.symbol) =
      (alive.map (·.symbol)).erase lock.symbol := by
  induction alive with
  | nil => cases hl
  | cons g alive ih =>
    obtain ⟨hg,hrest⟩ := List.nodup_cons.mp h
    by_cases he : g = lock
    · subst he
      simp
    · have hmem : lock ∈ alive := by
        rcases List.mem_cons.mp hl with rfl | hl
        · exact absurd rfl he
        · exact hl
      have hne : g.symbol ≠ lock.symbol := by
        intro hs
        apply hg
        exact List.mem_map.mpr ⟨lock,hmem,hs.symm⟩
      rw [List.erase_cons_tail (by simpa using he),List.map_cons,List.map_cons,
        List.erase_cons_tail (by simpa using hne),ih hrest hmem]

theorem sound_drop {l : HedgeLocks} (h : Sound l) (lock : HedgeLock) : Sound (l.drop lock) := by
  unfold HedgeLocks.drop
  split
  · next hl =>
    have hsymbols := erase_symbols h.alone hl
    constructor
    · ext symbol
      rw [Finset.mem_erase,h.locks,List.mem_toFinset,List.mem_toFinset,hsymbols,
        h.alone.mem_erase_iff]
    · rw [hsymbols]
      exact h.alone.erase _
  · exact h

theorem sound_run {l : HedgeLocks} (h : Sound l) (acts : List LockAct) : Sound (l.run acts) := by
  induction acts generalizing l with
  | nil => exact h
  | cons a acts ih =>
    apply ih
    cases a with
    | acquire owner symbol => exact sound_acquire h owner symbol
    | drop lock => exact sound_drop h lock

theorem acquire_isOk (l : HedgeLocks) (owner : Nat) (symbol : String) :
    (l.tryAcquireHedgeLock owner symbol).1.isOk = true ↔ symbol ∉ l.locks := by
  unfold tryAcquireHedgeLock
  split
  · next h => simpa [Except.isOk,Except.toBool] using h
  · next h => simpa [Except.isOk,Except.toBool] using h

/-- The answer for a symbol depends on this symbol in the set only. -/
theorem acquire_answer {l l' : HedgeLocks} {symbol : String}
    (h : symbol ∈ l'.locks ↔ symbol ∈ l.locks) (owner : Nat) :
    (l'.tryAcquireHedgeLock owner symbol).1 = (l.tryAcquireHedgeLock owner symbol).1 := by
  unfold tryAcquireHedgeLock
  by_cases hl : symbol ∈ l.locks
  · rw [if_pos hl,if_pos (h.mpr hl)]
  · rw [if_neg hl,if_neg (mt h.mp hl)]

theorem act_foreign (l : HedgeLocks) (a : LockAct) {symbol : String} (h : a.symbol ≠ symbol) :
    symbol ∈ (l.act a).locks ↔ symbol ∈ l.locks := by
  cases a with
  | acquire owner s =>
    have hs : symbol ≠ s := Ne.symm h
    simp only [act,tryAcquireHedgeLock]
    split
    · rfl
    · simp [hs]
  | drop lock =>
    have hs : symbol ≠ lock.symbol := Ne.symm h
    simp only [act,HedgeLocks.drop]
    split
    · simp [hs]
    · rfl

end Guards

section Sections

/-- Which lock an entry holds. Without one it places no market order. -/
inductive LockMove : Option String → (op : BackendOp) → BackendOp.Ans op → Option String → Prop
  | acquired (symbol : String) (u : Unit) :
    LockMove none (.tryAcquireHedgeLock symbol) (.ok u) (some symbol)
  | refused (symbol e : String) : LockMove none (.tryAcquireHedgeLock symbol) (.error e) none
  | dropped (symbol : String) (u : Unit) : LockMove (some symbol) (.dropHedgeLock symbol) u none
  | outside (op : BackendOp) (r : BackendOp.Ans op) (h : Outside op) : LockMove none op r none
  | inside (symbol : String) (op : BackendOp) (r : BackendOp.Ans op) (h : op.locks = false) :
    LockMove (some symbol) op r (some symbol)

theorem Plain.locks {op : BackendOp} (h : Plain op) : op.locks = false := by
  cases op <;> first | rfl | cases h

theorem Closing.locks {order : SimulatedOrder} {op : BackendOp} (h : Closing order op) :
    op.locks = false := by
  cases op <;> first | rfl | cases h

/-- In a section no lock is taken or dropped. -/
theorem section_locks {opportunity : ArbitrageOpportunity} {locked : Bool} {x : Entry α}
    (h : Sectioned opportunity locked x) (hl : locked = true) :
    Prog.Only (fun op : BackendOp => op.locks = false)
      (x : Prog backend (Except EntryError α)) := by
  induction h with
  | outside h => exact h.mono (fun _ h => Plain.locks h.plain)
  | inside h => exact h.mono (fun _ => Plain.locks)
  | closing order hf =>
    refine .exceptBind (.lift ((emergency_closing order).mono (fun _ => Closing.locks)))
      (fun r => ?_)
    obtain ⟨e,he⟩ := hf r
    rw [he]
    trivial
  | bind hx hf ihx ihf => exact .exceptBind (ihx hl) (fun a => ihf a hl)
  | lock hwork h ih => cases hl

theorem work_sections {opportunity : ArbitrageOpportunity} {work : Entry α}
    (h : HedgeWork opportunity work) : Sectioned opportunity true work := by
  cases h with
  | inLoop side quantity legs => exact hedgeInLoop_sections side quantity legs
  | afterLoop side quantity legs =>
    exact .bind (depthGate_sections side quantity legs) (fun legs =>
      completeHedge_sections side quantity legs)

theorem work_locks {opportunity : ArbitrageOpportunity} {work : Entry α}
    (h : HedgeWork opportunity work) : work.run.Only (fun op : BackendOp => op.locks = false) :=
  section_locks (work_sections h) rfl

/-- What an entry does from a point outside of its sections on. -/
inductive Shaped (opportunity : ArbitrageOpportunity) : Prog backend α → Prop
  | ret (a : α) : Shaped opportunity (.ret a)
  | outside {op : BackendOp} {next : BackendOp.Ans op → Prog backend α} (hop : Outside op)
    (h : ∀ r, Shaped opportunity (next r)) : Shaped opportunity (.call op next)
  | locked {β : Type} {next : Except String Unit → Prog backend α} {work : Entry β}
    {done : Except EntryError β → Prog backend α} (hwork : HedgeWork opportunity work)
    (hrefused : ∀ e, Shaped opportunity (next (.error e)))
    (hgot : ∀ u, next (.ok u) =
      work.run >>= fun a => .call (.dropHedgeLock opportunity.symbol) (fun _ => done a))
    (hdone : ∀ a, Shaped opportunity (done a)) :
    Shaped opportunity (.call (.tryAcquireHedgeLock opportunity.symbol) next)

theorem shaped_bind {opportunity : ArbitrageOpportunity} {locked : Bool} {x : Entry α}
    (h : Sectioned opportunity locked x) (hl : locked = false)
    {f : Except EntryError α → Prog backend β} (hf : ∀ r, Shaped opportunity (f r)) :
    Shaped opportunity (x.run >>= f) := by
  induction h with
  | outside h =>
    have hshaped : ∀ {γ : Type} {p : Prog backend γ} {f : γ → Prog backend β}, p.Only Outside →
        (∀ a, Shaped opportunity (f a)) → Shaped opportunity (Prog.bind p f) := by
      intro γ p f hp hf
      induction p with
      | ret a => exact hf a
      | call op next ih => exact .outside hp.1 (fun r => ih r (hp.2 r))
    exact hshaped h hf
  | inside h => cases hl
  | closing order hf => cases hl
  | @bind locked γ δ x g hx hg ihx ihg =>
    change Shaped opportunity ((ExceptT.run x >>= ExceptT.bindCont g) >>= f)
    rw [Prog.bind_assoc]
    refine ihx hl (fun r => ?_)
    cases r with
    | ok a => exact ihg a hl hf
    | error e => exact hf _
  | @lock γ work hwork h ih =>
    have hgot : ∀ u : Unit, _ = work.run >>= fun result =>
        Prog.call (σ := backend) (.dropHedgeLock opportunity.symbol) (fun _ => f result) :=
      fun _ => Prog.bind_assoc work.run (fun result =>
        .call (.dropHedgeLock opportunity.symbol) (fun _ => .ret result)) f
    exact .locked hwork (fun e => hf _) hgot hf

theorem shaped_entry (c : EntryCall) : Shaped c.opportunity c.program := by
  have h := shaped_bind (entry_sections c.opportunity c.availableCapital c.positionSize) rfl
    (f := fun r => (.ret r : Prog backend _)) (fun r => .ret r)
  have hret : ∀ p : Prog backend (Except EntryError PaperTrade),
      Prog.bind p (fun r => .ret r) = p := by
    intro p
    induction p with
    | ret a => rfl
    | call op next ih => exact congrArg (Prog.call op) (funext ih)
  exact hret c.program ▸ h

end Sections

theorem ans_nonempty (op : BackendOp) : Nonempty (BackendOp.Ans op) := by
  cases op with
  | setLeverage => exact ⟨.error ""⟩
  | setMarginTypeIsolated => exact ⟨.error ""⟩
  | placeOrder => exact ⟨.error ""⟩
  | placeMarketOrder => exact ⟨.error ""⟩
  | cancelOrder => exact ⟨.error ""⟩
  | getOrderStatus => exact ⟨.error ""⟩
  | getOrderStatusDetailed => exact ⟨.error ""⟩
  | getAvailableBalance => exact ⟨.error ""⟩
  | getOrderBookDepth => exact ⟨.error ""⟩
  | getBestBid => exact ⟨.error ""⟩
  | getBestAsk => exact ⟨.error ""⟩
  | getQuantityStep => exact ⟨.error ""⟩
  | tryAcquireHedgeLock => exact ⟨.error ""⟩
  | now => exact ⟨0⟩
  | newUuid => exact ⟨0⟩
  | isTradingHalted => exact ⟨false⟩
  | _ => exact ⟨()⟩

section Work

variable {opportunity : ArbitrageOpportunity}

def MarketOrder : BackendOp → Prop
  | .placeMarketOrder _ => True
  | _ => False

/-- A leg that is reported filled at this quantity. -/
def filledAt (quantity : ℚ) : OrderStatusInfo := ⟨.filled,quantity,quantity⟩

theorem emergency_reaches (order : SimulatedOrder) :
    (emergencyClosePosition order).Reaches MarketOrder :=
  .inr ⟨(0 : Nat),.inr ⟨(),.inr ⟨(0 : Nat),.inl trivial⟩⟩⟩

theorem marketHedge_reaches (template : SimulatedOrder) (side : OrderSide) {quantity : ℚ}
    (hq : 0 < quantity) (legs : Legs) :
    (marketHedge template side quantity legs).run.Reaches MarketOrder := by
  have hattempts : (placeMarketOrderWithRetry template quantity).Reaches MarketOrder := by
    unfold placeMarketOrderWithRetry marketAttempts
    rw [if_neg (by linarith)]
    exact .inl trivial
  exact hattempts.exceptLift _

theorem aggressiveLimit_yields (side : OrderSide) (remaining totalFilled : ℚ) (leg : Leg) :
    (aggressiveLimit opportunity side remaining totalFilled leg).Yields (totalFilled,leg) := by
  cases side <;> exact ⟨.error "",rfl⟩

theorem completeHedge_reaches (side : OrderSide) (quantity : ℚ) (legs : Legs) :
    (completeHedge opportunity side quantity legs).run.Reaches MarketOrder := by
  -- the cancelled order lacks one contract, and no price is to be had for a limit order
  have hlacks : ¬ quantity - 1 ≥ quantity := by linarith
  have hcancelled : ∀ exchange id, (Backend.cancelOrder exchange id).Yields (.ok ()) :=
    fun _ _ => ⟨.ok (),rfl⟩
  have hstatus : ∀ exchange id symbol, (Backend.getOrderStatusDetailed exchange id symbol).Yields
      (.ok (filledAt (quantity-1))) :=
    fun _ _ _ => ⟨.ok (filledAt (quantity-1)),rfl⟩
  have hsecs : nowSecs.Yields 0 := ⟨(0 : Nat),rfl⟩
  refine (hcancelled _ _).lift.exceptReaches ((hstatus _ _ _).lift.exceptReaches ?_)
  dsimp only [reportedFill,filledAt]
  rw [if_neg hlacks]
  refine (aggressiveLimit_yields _ _ _ _).lift.exceptReaches ?_
  dsimp only
  rw [if_neg hlacks]
  exact hsecs.lift.exceptReaches (marketHedge_reaches _ _ (by linarith) _)

/-- The depth check closes the filled leg with a market order, or the hedge goes on. -/
theorem depthGate_reaches (side : OrderSide) (quantity : ℚ) (legs : Legs) :
    (depthGate opportunity side quantity legs).run.Reaches MarketOrder ∨
      ∃ legs', (depthGate opportunity side quantity legs).run.Yields (.ok legs') := by
  obtain ⟨⟨result,cache⟩,hr⟩ := Prog.exists_yields ans_nonempty
    (checkDepthForHedge legs.cache (legs.leg side.opposite).order.exchange
      opportunity.symbol quantity)
  cases result with
  | error e => exact .inr ⟨_,hr.lift.exceptBind rfl⟩
  | ok depth =>
    by_cases habort : depth.shouldAbort = true
    · left
      refine hr.lift.exceptReaches ?_
      dsimp only
      rw [if_pos habort]
      exact (emergency_reaches _).exceptLift _
    · right
      refine ⟨{ legs with cache },hr.lift.exceptBind ?_⟩
      dsimp only
      rw [if_neg habort]
      rfl

/-- Any hedge may come to a market order. -/
theorem work_reaches {work : Entry α} (h : HedgeWork opportunity work) :
    work.run.Reaches MarketOrder := by
  cases h with
  | inLoop side quantity legs =>
    -- both legs turn out to be filled, and the surplus of the long one is sold
    have hchecked : (checkBothLegsStatus legs.long.order legs.short.order).Yields
        (.ok (.bothFilled 1 0)) :=
      ⟨.ok (filledAt 1),.ok (filledAt 0),rfl⟩
    have hsold : (balanceLegs opportunity 1 0 legs).Reaches MarketOrder := by
      unfold balanceLegs balanceTolerance
      rw [if_pos (by norm_num),if_pos (by norm_num)]
      exact .inr ⟨(0 : Nat),.inl trivial⟩
    exact hchecked.lift.exceptReaches (hsold.exceptLift _)
  | afterLoop side quantity legs =>
    rcases depthGate_reaches side quantity legs with hr | ⟨legs',hy⟩
    · exact hr.exceptBind _
    · exact hy.exceptReaches (completeHedge_reaches side quantity legs')

end Work

section Holding

variable {opportunity : ArbitrageOpportunity}

/-- A program that ends without a lock, and holds the lock of `q` now. -/
def Holds (q : Option String) (p : Prog backend α) : Prop :=
  p.Obeys LockMove (fun _ q => q = none) q

theorem lockMove_before {q q' e : Option String} {op : BackendOp} {r : BackendOp.Ans op}
    (h : LockMove q op r e) (h' : LockMove q' op r e) : q = q' := by
  cases h with
  | acquired symbol u => cases h' with
    | acquired => rfl
    | inside _ _ _ hl => cases hl
  | refused symbol err => cases h' with
    | refused => rfl
    | outside => rfl
  | dropped symbol u => cases h' with
    | dropped => rfl
    | outside _ _ ho => cases ho
  | outside op r ho => cases h' with
    | refused => rfl
    | dropped => cases ho
    | outside => rfl
  | inside symbol op r hl => cases h' with
    | acquired => cases hl
    | inside => rfl

theorem holds_unique {p : Prog backend α} {q q' : Option String} (h : Holds q p)
    (h' : Holds q' p) : q = q' := by
  induction p generalizing q q' with
  | ret a => exact Eq.trans h (Eq.symm h')
  | call op next ih =>
    obtain ⟨r⟩ := ans_nonempty op
    obtain ⟨e,hm,hnext⟩ := h r
    obtain ⟨e',hm',hnext'⟩ := h' r
    obtain rfl := ih r hnext hnext'
    exact lockMove_before hm hm'

theorem holds_inside {p : Prog backend β} {f : β → Prog backend α} {symbol : String}
    (hp : p.Only (fun op : BackendOp => op.locks = false)) (hf : ∀ a, Holds (some symbol) (f a)) :
    Holds (some symbol) (p >>= f) := by
  refine Prog.Obeys.bind (R := fun _ q => q = some symbol)
    (hp.obeys (fun op r h => .inside symbol op r h) (fun _ => rfl)) (fun a q hq => ?_)
  subst hq
  exact hf a

theorem holds_dropped {p : Prog backend α} {symbol : String} (h : Holds none p) :
    Holds (some symbol) (.call (.dropHedgeLock symbol) (fun _ => p)) :=
  fun u => ⟨none,.dropped symbol u,h⟩

theorem holds_of_shaped {p : Prog backend α} (h : Shaped opportunity p) : Holds none p := by
  induction h with
  | ret a => rfl
  | outside hop h ih => exact fun r => ⟨none,.outside _ r hop,ih r⟩
  | locked hwork hrefused hgot hdone ihrefused ihdone =>
    intro r
    cases r with
    | error e => exact ⟨none,.refused _ e,ihrefused e⟩
    | ok u =>
      refine ⟨some opportunity.symbol,.acquired _ u,?_⟩
      rw [hgot u]
      exact holds_inside (work_locks hwork) (fun a => holds_dropped (ihdone a))

/-- Whatever is left of an entry: it is outside of its sections, or of one of them there is
something left, if only the end of its scope. -/
theorem shaped_after {p rest : Prog backend α} (h : Shaped opportunity p) (ha : p.After rest) :
    Shaped opportunity rest ∨ ∃ (β : Type) (work : Entry β) (y : Prog backend (Except EntryError β))
      (done : Except EntryError β → Prog backend α), HedgeWork opportunity work ∧ work.run.After y ∧
      (∀ a, Shaped opportunity (done a)) ∧
      p.After (work.run >>= fun a => .call (.dropHedgeLock opportunity.symbol) (fun _ => done a)) ∧
      rest = y >>= fun a => .call (.dropHedgeLock opportunity.symbol) (fun _ => done a) := by
  induction h generalizing rest with
  | ret a =>
    cases ha
    exact .inl (.ret a)
  | outside hop h ih =>
    cases ha with
    | refl => exact .inl (.outside hop h)
    | answer r ha =>
      rcases ih r ha with hs | ⟨β,work,y,done,hw,hy,hd,hp,hr⟩
      · exact .inl hs
      · exact .inr ⟨β,work,y,done,hw,hy,hd,.answer r hp,hr⟩
  | @locked γ next work done hwork hrefused hgot hdone ihrefused ihdone =>
    cases ha with
    | refl => exact .inl (.locked hwork hrefused hgot hdone)
    | answer r ha =>
      cases r with
      | error e =>
        rcases ihrefused e ha with hs | ⟨β,work,y,done,hw,hy,hd,hp,hr⟩
        · exact .inl hs
        · exact .inr ⟨β,work,y,done,hw,hy,hd,.answer (.error e) hp,hr⟩
      | ok u =>
        have hstart : (Prog.call (BackendOp.tryAcquireHedgeLock opportunity.symbol) next).After
            (work.run >>= fun a => .call (.dropHedgeLock opportunity.symbol) (fun _ =>
              done a)) := by
          rw [← hgot u]
          exact .answer (.ok u) (.refl _)
        rw [hgot u] at ha
        rcases ha.of_bind with ⟨y,hy,rfl⟩ | ⟨a,hy,ha⟩
        · exact .inr ⟨γ,work,y,done,hwork,hy,hdone,hstart,rfl⟩
        · cases ha with
          | refl => exact .inr ⟨γ,work,.ret a,done,hwork,hy,hdone,hstart,rfl⟩
          | answer u' ha =>
            rcases ihdone a ha with hs | ⟨β,work',y',done',hw,hy',hd,hp,hr⟩
            · exact .inl hs
            · refine .inr ⟨β,work',y',done',hw,hy',hd,hstart.trans ?_,hr⟩
              exact (hy.bind _).trans (.answer u' hp)

/-- An entry holds no lock, or that of its symbol; then it is in a section or at the end of its
scope. -/
theorem standing {c : EntryCall} {rest : Prog backend (Except EntryError PaperTrade)}
    (h : c.program.After rest) :
    Holds none rest ∨ Holds (some c.opportunity.symbol) rest ∧
      (InSection c rest ∨ ∃ next, rest = .call (.dropHedgeLock c.opportunity.symbol) next) := by
  rcases shaped_after (shaped_entry c) h with hs | ⟨β,work,y,done,hwork,hy,hdone,hp,rfl⟩
  · exact .inl (holds_of_shaped hs)
  · refine .inr ⟨holds_inside (hy.only (work_locks hwork)) (fun a =>
      holds_dropped (holds_of_shaped (hdone a))),?_⟩
    cases y with
    | ret a => exact .inr ⟨_,rfl⟩
    | call op next => exact .inl ⟨β,work,_,op,next,hwork,hp,hy,rfl⟩

/-- Without a lock the entry comes to no market order. -/
theorem holds_of_reaches {p : Prog backend β} {f : β → Prog backend α} {q : Option String}
    (hp : p.Only (fun op : BackendOp => op.locks = false)) (hr : p.Reaches MarketOrder)
    (h : Holds q (p >>= f)) : q ≠ none := by
  rintro rfl
  change Holds none (Prog.bind p f) at h
  induction p with
  | ret a => cases hr
  | call op next ih =>
    have hstep : ∀ r, Outside op ∧ Holds none (Prog.bind (next r) f) := by
      intro r
      obtain ⟨q',hm,hnext⟩ := h r
      cases hm with
      | acquired symbol u => cases hp.1
      | refused symbol e => cases hp.1
      | outside op r ho => exact ⟨ho,hnext⟩
    rcases hr with hk | ⟨r,hr⟩
    · obtain ⟨r⟩ := ans_nonempty op
      have ho := (hstep r).1
      cases op <;> first | exact ho | exact hk
    · exact ih r (hp.2 r) hr (hstep r).2

theorem holds_after {p y : Prog backend β} {f : β → Prog backend α} {symbol : String}
    (hy : p.After y) (hp : p.Only (fun op : BackendOp => op.locks = false))
    (h : Holds (some symbol) (p >>= f)) : Holds (some symbol) (y >>= f) := by
  induction hy with
  | refl p => exact h
  | @answer op next q r hy ih =>
    obtain ⟨q',hm,hnext⟩ := h r
    cases hm with
    | dropped symbol u => cases hp.1
    | inside symbol op r hl => exact ih (hp.2 r) hnext

/-- In a section the entry holds the lock. -/
theorem holds_of_inSection {c : EntryCall} {rest : Prog backend (Except EntryError PaperTrade)}
    (h : InSection c rest) : Holds (some c.opportunity.symbol) rest := by
  obtain ⟨α,work,done,op,next,hwork,hstart,hy,rfl⟩ := h
  refine holds_after hy (work_locks hwork) ?_
  rcases standing hstart with hnone | ⟨hholds,-⟩
  · exact absurd rfl (holds_of_reaches (work_locks hwork) (work_reaches hwork) hnone)
  · exact hholds

end Holding

section Entries

/-- The values that are alive are those of the entries that hold them. -/
structure Held (l : HedgeLocks) (ghosts : List (Option String)) : Prop where
  sound : Sound l
  held : ∀ {n : Nat} {symbol : String}, ghosts[n]? = some (some symbol) ↔ ⟨symbol,n⟩ ∈ l.alive

variable {l : HedgeLocks} {ghosts : List (Option String)} {n : Nat}

theorem held_start (h : Held l ghosts) : Held l (ghosts ++ [none]) where
  sound := h.sound
  held := by
    intro k symbol
    rw [Pool.ghost_new,← h.held]
    simp

theorem held_acquired (h : Held l ghosts) (hn : ghosts[n]? = some none) {symbol : String}
    (hfree : symbol ∉ l.locks) :
    Held (l.tryAcquireHedgeLock n symbol).2 (ghosts.set n (some symbol)) where
  sound := sound_acquire h.sound n symbol
  held := by
    intro k s
    rw [Pool.ghost_set hn,h.held,tryAcquireHedgeLock,if_neg hfree]
    simp only [List.mem_cons,HedgeLock.mk.injEq,Option.some.injEq]
    constructor
    · rintro (⟨rfl,rfl⟩ | ⟨_,hmem⟩)
      · exact .inl ⟨rfl,rfl⟩
      · exact .inr hmem
    · rintro (⟨rfl,rfl⟩ | hmem)
      · exact .inl ⟨rfl,rfl⟩
      · refine .inr ⟨?_,hmem⟩
        rintro rfl
        cases hn.symm.trans (h.held.mpr hmem)

theorem held_dropped (h : Held l ghosts) {symbol : String} (hn : ghosts[n]? = some (some symbol)) :
    Held (l.drop ⟨symbol,n⟩) (ghosts.set n none) where
  sound := sound_drop h.sound ⟨symbol,n⟩
  held := by
    intro k s
    have hmem : (⟨symbol,n⟩ : HedgeLock) ∈ l.alive := h.held.mp hn
    have hnodup : l.alive.Nodup := h.sound.alone.of_map _
    rw [Pool.ghost_set hn,h.held,HedgeLocks.drop,if_pos hmem,hnodup.mem_erase_iff]
    simp only [ne_eq,HedgeLock.mk.injEq]
    constructor
    · rintro (⟨_,he⟩ | ⟨hk,hs⟩)
      · cases he
      · exact ⟨fun he => hk he.2,hs⟩
    · rintro ⟨hne,hs⟩
      refine .inr ⟨?_,hs⟩
      rintro rfl
      cases hn.symm.trans (h.held.mpr hs)
      exact hne ⟨rfl,rfl⟩

theorem served_else {m : Machine backend W} {w : W} {op : BackendOp} (hl : op.locks = false) :
    ((guarded m n).serve op (l,w)).2.1 = l := by
  cases op <;> first | rfl | cases hl

theorem held_served {m : Machine backend W} {w : W} (h : Held l ghosts) {op : BackendOp}
    {q q' : Option String} (hn : ghosts[n]? = some q)
    (hm : LockMove q op ((guarded m n).serve op (l,w)).1 q') :
    Held ((guarded m n).serve op (l,w)).2.1 (ghosts.set n q') := by
  generalize hr : ((guarded m n).serve op (l,w)).1 = r at hm
  cases hm with
  | acquired symbol u =>
    have hfree : symbol ∉ l.locks := by
      intro hin
      simp [guarded,tryAcquireHedgeLock,hin,Except.map] at hr
    exact held_acquired h hn hfree
  | refused symbol e =>
    have hin : symbol ∈ l.locks := by
      by_contra hfree
      simp [guarded,tryAcquireHedgeLock,hfree,Except.map] at hr
    have hsame : ((guarded m n).serve (.tryAcquireHedgeLock symbol) (l,w)).2.1 = l := by
      simp [guarded,tryAcquireHedgeLock,hin]
    rw [hsame,Pool.ghost_same hn]
    exact h
  | dropped symbol u => exact held_dropped h hn
  | outside op r ho =>
    rw [served_else (Plain.locks ho.plain),Pool.ghost_same hn]
    exact h
  | inside symbol op r hl =>
    rw [served_else hl,Pool.ghost_same hn]
    exact h

theorem run_held (m : Nat → Machine backend W) (w : W) (acts : List (Act EntryCall)) :
    ∃ ghosts, Pool.Tracked LockMove (fun _ _ q => q = none) (EntryPool.run m w acts) ghosts ∧
      Held (EntryPool.run m w acts).shared.1 ghosts := by
  refine Pool.run_tracked (C := fun _ _ => True) (J := fun (s : EntryPool W) gs =>
    Held s.shared.1 gs) ?_ ?_
    (Pool.meets_true _ _ _ _) (Pool.tracked_new _) ⟨sound_new,by simp [HedgeLocks.new]⟩
  · intro s gs c _ _ hh
    exact ⟨none,holds_of_shaped (shaped_entry c),held_start hh⟩
  · intro s gs n c op next q q' _ _ hh _ hq hm
    exact held_served hh hq hm

/-- The hedge locks, whatever the tasks do and in whatever order: the set is that of the values
alive, one a symbol at most; a lock is got exactly if none of its symbol is alive, and what is done
with another symbol has no say in it. An entry among those that run at the same time has its lock
while it hedges, so one at most hedges a symbol, and a lock that is alive belongs to an entry that
hedges or drops it with its next request. -/
theorem hedge_locks_exclude :
    (∀ acts : List LockAct,
      let l := HedgeLocks.new.run acts
      l.locks = (l.alive.map (·.symbol)).toFinset ∧ (l.alive.map (·.symbol)).Nodup ∧
      (∀ owner symbol, (l.tryAcquireHedgeLock owner symbol).1.isOk = true ↔
        ∀ lock ∈ l.alive, lock.symbol ≠ symbol) ∧
      (∀ (a : LockAct) owner symbol, a.symbol ≠ symbol →
        ((l.act a).tryAcquireHedgeLock owner symbol).1 = (l.tryAcquireHedgeLock owner symbol).1)) ∧
    (∀ (W : Type) (m : Nat → Machine backend W) (w : W) (acts : List (Act EntryCall)),
      let s := EntryPool.run m w acts
      (∀ (n : Nat) (c : EntryTask), s.calls[n]? = some c → InSection c.label c.rest →
        ⟨c.label.opportunity.symbol,n⟩ ∈ s.shared.1.alive) ∧
      (∀ (n k : Nat) (c c' : EntryTask), s.calls[n]? = some c → s.calls[k]? = some c' →
        InSection c.label c.rest → InSection c'.label c'.rest →
        c.label.opportunity.symbol = c'.label.opportunity.symbol → n = k) ∧
      (∀ lock ∈ s.shared.1.alive, ∃ c, s.calls[lock.owner]? = some c ∧
        c.label.opportunity.symbol = lock.symbol ∧ ¬ c.Done ∧
        (InSection c.label c.rest ∨
          ∃ next, c.rest = .call (.dropHedgeLock lock.symbol) next))) := by
  constructor
  · intro acts l
    have h := sound_run sound_new acts
    refine ⟨h.locks,h.alone,fun owner symbol => ?_,fun a owner symbol ha =>
      acquire_answer (act_foreign l a ha) owner⟩
    rw [acquire_isOk,h.mem]
    simp
    rfl
  · intro W m w acts s
    obtain ⟨ghosts,ht,hh⟩ := run_held m w acts
    have hin : ∀ (n : Nat) (c : EntryTask), s.calls[n]? = some c → InSection c.label c.rest →
        ⟨c.label.opportunity.symbol,n⟩ ∈ s.shared.1.alive := by
      intro n c hc hin
      obtain ⟨q,hq⟩ := ht.ghost hc
      obtain rfl := holds_unique (ht.obeys n c q hc hq) (holds_of_inSection hin)
      exact hh.held.mp hq
    refine ⟨hin,?_,?_⟩
    · intro n k c c' hc hc' hn hk hsymbol
      have hsame := List.inj_on_of_nodup_map hh.sound.alone (hin n c hc hn)
          (hin k c' hc' hk) hsymbol
      exact (HedgeLock.mk.inj hsame).2
    · intro lock hlock
      have hg := hh.held.mpr hlock
      have hlt : lock.owner < s.calls.length := ht.length_eq ▸ (List.getElem?_eq_some_iff.mp hg).1
      have hc := List.getElem?_eq_getElem hlt
      have hbegun : Pool.Begun EntryCall.program s := Pool.run_begun _ (by simp [Pool.Begun]) acts
      have hholds := ht.obeys _ _ _ hc hg
      refine ⟨_,hc,?_⟩
      rcases standing (hbegun _ (List.getElem_mem hlt)) with hnone | ⟨hown,hat⟩
      · cases holds_unique hholds hnone
      · obtain hsymbol := Option.some.inj (holds_unique hown hholds)
        refine ⟨hsymbol,?_,hsymbol ▸ hat⟩
        intro hdone
        obtain ⟨a,ha⟩ := Option.isSome_iff_exists.mp hdone
        rw [Call.result_eq_some.mp ha] at hholds
        cases hholds

end Entries

end SpreadArb.Proofs.Locks
