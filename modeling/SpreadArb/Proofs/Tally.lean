import SpreadArb.Proofs.Ledger
import SpreadArb.Proofs.Requests

namespace SpreadArb.Proofs.Tally
open Interact Machine Ledger

def OnePerSymbol (s : Runner) : Prop := (s.trades.map PaperTrade.symbol).Nodup

/-- The portfolio has no open trade of this id. -/
def Inactive (id : TradeId) (s : Runner) : Prop := ∀ t ∈ s.portfolio.activeTrades, t.id ≠ id

/-- What holds between the turns of the loop, and in every state of the monitoring. -/
structure Sound (s : Runner) : Prop where
  ids_lt : ∀ t ∈ s.trades, t.id < s.world.uuids
  ids : (s.trades.map PaperTrade.id).Nodup
  symbols : OnePerSymbol s
  status : ∀ t ∈ s.trades, t.status = .active ∨ t.status = .exiting
  real : ∀ t ∈ s.trades, t.exitReason ≠ some .placeholder
  mapped : ∀ t ∈ s.portfolio.activeTrades, ∃ u ∈ s.trades, u.id = t.id ∧
    u.positionSizeUsd = t.positionSizeUsd
  closed : ∀ u ∈ s.trades, Inactive u.id s → u.status = .exiting ∧
    ∃ t ∈ s.portfolio.closedTrades, t.id = u.id
  balanced : Balanced s.portfolio
  known : ∀ id ∈ Ledger.ids s.portfolio, id < s.world.uuids

theorem sound_new (world : World) (startingCapital : ℚ) : Sound (.new world startingCapital) where
  ids_lt _ h := nomatch h
  ids := List.nodup_nil
  symbols := List.nodup_nil
  status _ h := nomatch h
  real _ h := nomatch h
  mapped _ h := nomatch h
  closed _ h := nomatch h
  balanced := balanced_new startingCapital
  known _ h := nomatch h

section Steps

variable {s s' : Runner}

/-- The map and the portfolio are as before. -/
structure Still (s s' : Runner) : Prop where
  trades : s'.trades = s.trades
  portfolio : s'.portfolio = s.portfolio
  uuids : s.world.uuids ≤ s'.world.uuids

theorem Still.refl (s : Runner) : Still s s := ⟨rfl,rfl,le_rfl⟩

theorem Still.trans {a b c : Runner} (h : Still a b) (k : Still b c) : Still a c :=
  ⟨k.trades.trans h.trades,k.portfolio.trans h.portfolio,h.uuids.trans k.uuids⟩

theorem Still.sound (k : Still s s') (h : Sound s) : Sound s' where
  ids_lt t ht := (h.ids_lt t (k.trades ▸ ht)).trans_le k.uuids
  ids := k.trades ▸ h.ids
  symbols := by
    unfold OnePerSymbol
    rw [k.trades]
    exact h.symbols
  status t ht := h.status t (k.trades ▸ ht)
  real t ht := h.real t (k.trades ▸ ht)
  mapped t ht := k.trades ▸ h.mapped t (k.portfolio ▸ ht)
  closed u hu hi := by
    rw [k.portfolio]
    refine h.closed u (k.trades ▸ hu) (fun t ht => hi t ?_)
    rw [k.portfolio]
    exact ht
  balanced := k.portfolio ▸ h.balanced
  known id hid := (h.known id (k.portfolio ▸ hid)).trans_le k.uuids

/-- The trade of an id that is in the map is the one that is found. -/
theorem lookup_of_mem (h : (s.trades.map PaperTrade.id).Nodup) {t : PaperTrade}
    (ht : t ∈ s.trades) : s.lookup t.id = some t := by
  have hsome : (s.trades.find? (fun u => u.id = t.id)).isSome = true :=
    List.find?_isSome.mpr ⟨t,ht,by simp⟩
  obtain ⟨u,hu⟩ := Option.isSome_iff_exists.mp hsome
  have hid : u.id = t.id := by simpa using List.find?_some hu
  have hut := List.inj_on_of_nodup_map h (List.mem_of_find?_eq_some hu) ht hid
  exact hut ▸ hu

theorem sound_update {f : PaperTrade → PaperTrade} (hf : Tame f) (i : TradeId) (h : Sound s) :
    Sound (s.update i f) := by
  have hkept : ∀ t, Kept t (if t.id = i then f t else t) := by
    intro t
    split
    · exact hf t
    · exact .refl t
  have hmem : ∀ u ∈ (s.update i f).trades, ∃ t ∈ s.trades, Kept t u := by
    intro u hu
    obtain ⟨t,ht,rfl⟩ := List.mem_map.mp hu
    exact ⟨t,ht,hkept t⟩
  have hids : (s.update i f).trades.map PaperTrade.id = s.trades.map PaperTrade.id := by
    unfold Runner.update
    rw [List.map_map]
    exact List.map_congr_left (fun t _ => (hkept t).id_eq)
  have hsymbols : (s.update i f).trades.map PaperTrade.symbol = s.trades.map PaperTrade.symbol := by
    unfold Runner.update
    rw [List.map_map]
    exact List.map_congr_left (fun t _ => (hkept t).symbol)
  constructor
  · intro u hu
    obtain ⟨t,ht,hk⟩ := hmem u hu
    exact hk.id_eq ▸ h.ids_lt t ht
  · rw [hids]
    exact h.ids
  · unfold OnePerSymbol
    rw [hsymbols]
    exact h.symbols
  · intro u hu
    obtain ⟨t,ht,hk⟩ := hmem u hu
    rcases hk.status with hs | hs
    · exact hs ▸ h.status t ht
    · exact .inr hs
  · intro u hu hr
    obtain ⟨t,ht,hk⟩ := hmem u hu
    exact h.real t ht (hk.reason hr)
  · intro t ht
    obtain ⟨u,hu,hid,hsize⟩ := h.mapped t ht
    exact ⟨_,List.mem_map_of_mem hu,(hkept u).id_eq.trans hid,(hkept u).size.trans hsize⟩
  · intro u hu hi
    obtain ⟨t,ht,hk⟩ := hmem u hu
    obtain ⟨hs,c,hc,hid⟩ := h.closed t ht (fun a ha => hk.id_eq ▸ hi a ha)
    exact ⟨hk.exiting hs,c,hc,hid.trans hk.id_eq.symm⟩
  · exact h.balanced
  · exact h.known

/-- Only trades that are closed leave the map. -/
theorem sound_erase {i : TradeId} (hi : Inactive i s) (h : Sound s) : Sound (s.erase i) := by
  have hmem : ∀ u ∈ (s.erase i).trades, u ∈ s.trades := fun u hu => (List.mem_filter.mp hu).1
  have hsub : (s.erase i).trades.Sublist s.trades := List.filter_sublist
  constructor
  · exact fun u hu => h.ids_lt u (hmem u hu)
  · exact h.ids.sublist (hsub.map _)
  · exact h.symbols.sublist (hsub.map _)
  · exact fun u hu => h.status u (hmem u hu)
  · exact fun u hu => h.real u (hmem u hu)
  · intro t ht
    obtain ⟨u,hu,hid,hsize⟩ := h.mapped t ht
    have hne : u.id ≠ i := fun he => hi t ht (hid.symm.trans he)
    exact ⟨u,List.mem_filter.mpr ⟨hu,by simpa using hne⟩,hid,hsize⟩
  · exact fun u hu hin => h.closed u (hmem u hu) hin
  · exact h.balanced
  · exact h.known

/-- A trade on its way out may be closed in the portfolio, whatever Redis says. -/
theorem sound_close {i : TradeId} (he : Exits i s) (h : Sound s) {profit : ℚ} {reason : ExitReason}
    {secs : Nat} {portfolio : PortfolioState}
    (hp : s.portfolio.closeTrade i profit reason secs = some portfolio) :
    Sound { s with portfolio } ∧ Inactive i { s with portfolio } ∧
      ∀ id, Inactive id s → Inactive id { s with portfolio } := by
  rcases closeTrade_cases s.portfolio i profit reason secs with ⟨_,hnone⟩ |
    ⟨before,trade,after,hs,hid,_,hsome⟩
  · rw [hnone] at hp
    cases hp
  · rw [hsome] at hp
    obtain rfl := Option.some.inj hp
    have hactive : ∀ t ∈ before ++ after, t ∈ s.portfolio.activeTrades := by
      intro t ht
      rw [hs]
      rcases List.mem_append.mp ht with ht | ht
      · exact List.mem_append_left _ ht
      · exact List.mem_append_right _ (List.mem_cons_of_mem _ ht)
    have hgone : ∀ t ∈ before ++ after, t.id ≠ i := by
      have hd : (s.portfolio.activeTrades.map PaperTrade.id).Nodup :=
        h.balanced.distinct.sublist ((List.sublist_append_left _ _).map _)
      rw [hs,List.map_append,List.map_cons] at hd
      have hnot := (List.nodup_middle.mp hd)
      rw [List.nodup_cons,← List.map_append] at hnot
      exact fun t ht he => hnot.1 (List.mem_map.mpr ⟨t,ht,he.trans hid.symm⟩)
    refine ⟨⟨h.ids_lt,h.ids,h.symbols,h.status,h.real,?_,?_,?_,?_⟩,hgone,?_⟩
    · exact fun t ht => h.mapped t (hactive t ht)
    · intro u hu hin
      by_cases hui : u.id = i
      · refine ⟨he u (hui ▸ lookup_of_mem h.ids hu),_,
          List.mem_append_right _ (List.mem_singleton_self _),?_⟩
        exact hid.trans hui.symm
      · have hold : Inactive u.id s := by
          intro t ht
          rw [hs] at ht
          rcases List.mem_append.mp ht with ht | ht
          · exact hin t (List.mem_append_left _ ht)
          · rcases List.mem_cons.mp ht with rfl | ht
            · exact fun he => hui (he.symm.trans hid)
            · exact hin t (List.mem_append_right _ ht)
        obtain ⟨hexit,c,hc,hcid⟩ := h.closed u hu hold
        exact ⟨hexit,c,List.mem_append_left _ hc,hcid⟩
    · exact balanced_close h.balanced hs profit reason secs
    · intro id hmem
      apply h.known id
      simp only [Ledger.ids,List.map_append,List.mem_append,List.map_cons,List.map_nil,
        List.mem_singleton,filed] at hmem
      simp only [Ledger.ids,hs,List.map_append,List.mem_append,List.map_cons,List.mem_cons]
      tauto
    · exact fun id hin t ht => hin t (hactive t ht)

/-- The requests that leave the map and the portfolio alone. -/
def Quiet : RunnerOp → Prop
  | .getMut .. | .insert _ | .remove _ | .openTrade _ | .closeTrade .. => False
  | _ => True

theorem still_serve (env : Surroundings) (op : RunnerOp) (h : Quiet op) (s : Runner) :
    Still s ((runner env).serve op s).2 := by
  cases op with
  | backend caller op => exact ⟨rfl,rfl,serve_uuids _ s.world op⟩
  | hold i =>
    simp only [runner]
    split
    · exact ⟨rfl,rfl,le_rfl⟩
    · exact .refl s
  | _ => first | exact ⟨rfl,rfl,le_rfl⟩ | exact h.elim

theorem inactive_still {id : TradeId} (k : Still s s') (h : Inactive id s) : Inactive id s' := by
  unfold Inactive
  rw [k.portfolio]
  exact h

/-- What the monitoring futures may ask for: a close of a trade on its way out, and the
removal of a closed one. -/
def Due (s : Runner) : RunnerOp → Prop
  | .closeTrade i _ _ => Exits i s
  | .remove i => Inactive i s
  | _ => True

/-- What one step of a monitoring future keeps. -/
theorem sound_serve (env : Surroundings) {op : RunnerOp} (hk : Monitoring op ∨ Checking op)
    (hd : Due s op) (h : Sound s) :
    Sound ((runner env).serve op s).2 ∧ ∀ id, Inactive id s →
      Inactive id ((runner env).serve op s).2 := by
  by_cases hq : Quiet op
  · have k := still_serve env op hq s
    exact ⟨k.sound h,fun id => inactive_still k⟩
  · cases op with
    | getMut i f =>
      refine ⟨sound_update ?_ i h,fun id hi => hi⟩
      rcases hk with ⟨_,_,hf⟩ | hf <;> exact hf
    | remove i => exact ⟨sound_erase hd h,fun id hi => hi⟩
    | closeTrade i profit reason =>
      have hadvance : ∀ v : Runner, Still v (v.advance env) := fun v => ⟨rfl,rfl,le_rfl⟩
      cases hp : s.portfolio.closeTrade i profit reason (s.world.clock / 1000) with
      | none =>
        simp only [runner,hp]
        exact ⟨(hadvance s).sound h,fun id hi => hi⟩
      | some portfolio =>
        obtain ⟨hs,_,hin⟩ := sound_close hd h hp
        simp only [runner,hp]
        exact ⟨(hadvance _).sound hs,hin⟩
    | insert t => rcases hk with ⟨_,hk⟩ | hk <;> cases hk
    | openTrade t => rcases hk with ⟨_,hk⟩ | hk <;> cases hk
    | _ => exact absurd trivial hq

/-- After a call of `close_trade` the trade is closed, also when the call fails. -/
theorem closeTrade_inactive (env : Surroundings) {i : TradeId} (profit : ℚ) (reason : ExitReason)
    (he : Exits i s) (h : Sound s) :
    Inactive i ((runner env).serve (.closeTrade i profit reason) s).2 := by
  cases hp : s.portfolio.closeTrade i profit reason (s.world.clock / 1000) with
  | none =>
    simp only [runner,hp]
    rcases closeTrade_cases s.portfolio i profit reason (s.world.clock / 1000) with
      ⟨hall,_⟩ | ⟨_,_,_,_,_,_,hsome⟩
    · exact hall
    · rw [hsome] at hp
      cases hp
  | some portfolio =>
    obtain ⟨_,hi,_⟩ := sound_close he h hp
    simp only [runner,hp]
    exact hi

end Steps

section Monitors

variable {env : Surroundings}

/-- What each future counts on. -/
def Undisturbed (s s' : Runner) : Prop :=
  (Sound s → Sound s') ∧ (∀ id, Exits id s → Exits id s') ∧ ∀ id, Inactive id s → Inactive id s'

theorem Undisturbed.refl (s : Runner) : Undisturbed s s := ⟨fun h => h,fun _ h => h,fun _ h => h⟩

theorem Undisturbed.trans {a b c : Runner} (h : Undisturbed a b) (k : Undisturbed b c) :
    Undisturbed a c :=
  ⟨fun hs => k.1 (h.1 hs),fun id he => k.2.1 id (h.2.1 id he),fun id hi => k.2.2 id (h.2.2 id hi)⟩

/-- What each step of a future guarantees. -/
def Keeps (s : Runner) (_ : RunnerOp) (s' : Runner) : Prop :=
  Sound s' ∧ (∀ id, Exits id s → Exits id s') ∧ ∀ id, Inactive id s → Inactive id s'

theorem keeps_serve (env : Surroundings) {s : Runner} (op : RunnerOp)
    (hk : Monitoring op ∨ Checking op) (hd : Due s op) (h : Sound s) :
    Keeps s op ((runner env).serve op s).2 := by
  obtain ⟨hs,hi⟩ := sound_serve env hk hd h
  exact ⟨hs,fun id he => exits_serve env hk he,hi⟩

/-- A future whose requests are all due. -/
theorem keeps_only {K : RunnerOp → Prop} (hk : ∀ op, K op → Monitoring op ∨ Checking op)
    (hd : ∀ op s, K op → Due s op) {p : Run α} (hp : p.Only K) {s : Runner} (hs : Sound s) :
    (runner env).wpr Undisturbed (fun _ _ => True) Keeps p (fun _ v => Sound v) s := by
  refine wpr_invariant (fun a b h => h.1) (fun op w ho _ hw => ?_) hp hs
  have hkeeps := keeps_serve env op (hk op ho) (hd op w ho) hw
  exact ⟨hkeeps,hkeeps.1⟩

theorem monitor_keeps {s : Runner} (hs : Sound s) :
    (runner env).wpr Undisturbed (fun _ _ => True) Keeps monitorActivePositions (fun _ v =>
      Sound v) s := by
  refine keeps_only (fun op h => .inl h) (fun op s h => ?_) monitorActivePositions_monitoring hs
  cases op <;> first | trivial | (obtain ⟨_,hk⟩ := h; cases hk)

/-- A future whose requests are all due, for a trade that is on its way out. -/
theorem cleanupExit_keeps {id : TradeId} {exchange : String} {order : Option SimulatedOrder}
    {s : Runner} (hs : Sound s) (he : Exits id s) :
    (runner env).wpr Undisturbed (fun _ _ => True) Keeps (cleanupExit id exchange order)
      (fun _ v => Sound v ∧ Exits id v) s := by
  have hone : ∀ order : SimulatedOrder, (runner env).wpr Undisturbed (fun _ _ => True) Keeps
      (backendCall (.cleanup id) (.cancelOrder exchange order.id)) (fun _ v => Sound v ∧
        Exits id v) s := by
    intro order v hv _
    have hkeeps := keeps_serve env (s := v)
        (.backend (.cleanup id) (.cancelOrder exchange order.id)) (.inr trivial) trivial (hv.1 hs)
    exact ⟨hkeeps,hkeeps.1,hkeeps.2.1 id (hv.2.1 id he)⟩
  cases order with
  | none => exact ⟨hs,he⟩
  | some o =>
    unfold cleanupExit
    dsimp only
    split
    · exact wpr_bind.mpr (wpr_mono (hone o) (fun _ v hv => hv))
    · exact ⟨hs,he⟩

theorem closeExiting_keeps {id : TradeId} {symbol : String} {s : Runner} (hs : Sound s)
    (he : Exits id s) :
    (runner env).wpr Undisturbed (fun _ _ => True) Keeps (closeExiting id symbol) (fun _ v =>
      Sound v) s := by
  apply wpr_bind.mpr
  intro v hv _
  have hkeeps := keeps_serve env (s := v) (.hold id) (.inr trivial) trivial (hv.1 hs)
  refine ⟨hkeeps,?_⟩
  have hexits := hkeeps.2.1 id (hv.2.1 id he)
  generalize ((runner env).serve (.hold id) v).1 = found
  cases found with
  | none => exact hkeeps.1
  | some trade =>
    refine wpr_bind.mpr (wpr_mono (cleanupExit_keeps hkeeps.1 hexits) (fun _ v1 h1 => ?_))
    refine wpr_bind.mpr (wpr_mono (cleanupExit_keeps h1.1 h1.2) (fun _ v2 h2 => ?_))
    apply wpr_bind.mpr
    intro v3 hv3 _
    have hexits3 := hv3.2.1 id h2.2
    have hclose := keeps_serve env
        (.closeTrade id (actualProfit trade) (trade.exitReason.getD .manualExit))
      (.inr trivial) hexits3 (hv3.1 h2.1)
    have hgone := closeTrade_inactive env (actualProfit trade) (trade.exitReason.getD .manualExit)
      hexits3 (hv3.1 h2.1)
    refine ⟨hclose,?_⟩
    generalize (runner env).serve (.closeTrade id (actualProfit trade)
      (trade.exitReason.getD .manualExit)) v3 = out at hclose hgone
    obtain ⟨answer,u⟩ := out
    cases answer with
    | error e =>
      intro x hx _
      have hrel := keeps_serve env (s := x) (.release id) (.inr trivial) trivial (hx.1 hclose.1)
      exact ⟨hrel,hrel.1⟩
    | ok _ =>
      -- the trade stays closed up to its removal
      intro x hx _
      have htrack := keeps_serve env (s := x) (.trackerMut symbol NegativeFundingTracker.reset)
        (.inr trivial) trivial (hx.1 hclose.1)
      refine ⟨htrack,fun y hy _ => ?_⟩
      have hdue : Inactive id y := hy.2.2 id (htrack.2.2 id (hx.2.2 id hgone))
      have hremove := keeps_serve env (s := y) (.remove id) (.inr trivial) hdue (hy.1 htrack.1)
      refine ⟨hremove,fun z hz _ => ?_⟩
      have hrel := keeps_serve env (s := z) (.release id) (.inr trivial) trivial (hz.1 hremove.1)
      exact ⟨hrel,hrel.1⟩

theorem checkExit_keeps {id : TradeId} {s : Runner} (hs : Sound s) :
    (runner env).wpr Undisturbed (fun _ _ => True) Keeps (checkExit id) (fun _ v => Sound v) s := by
  apply wpr_bind.mpr
  intro v hv _
  have hsv := hv.1 hs
  refine ⟨⟨hsv,fun _ h => h,fun _ h => h⟩,?_⟩
  generalize ((runner env).serve (.get id) v).1 = found
  cases found with
  | none => exact hsv
  | some trade =>
    apply wpr_bind.mpr
    have hwatch : (runner env).wpr Undisturbed (fun _ _ => True) Keeps
        (checkNegativeFunding id trade.symbol) (fun _ u => Sound u) v := by
      refine keeps_only (fun op h => .inr h.checking) (fun op s h => ?_)
        (checkNegativeFunding_watching id trade.symbol) hsv
      cases op <;> trivial
    refine wpr_mono hwatch (fun go u hu => ?_)
    cases go with
    | false => exact hu
    | true =>
      apply wpr_bind.mpr
      intro x hx _
      have hsx := hx.1 hu
      refine ⟨⟨hsx,fun _ h => h,fun _ h => h⟩,?_⟩
      generalize hl : ((runner env).serve (.get id) x).1 = found
      cases found with
      | none => exact hsx
      | some found =>
        rw [wpr_ret]
        dsimp only
        split
        · next hexit =>
          refine closeExiting_keeps hsx (fun t ht => ?_)
          cases hl.symm.trans ht
          exact hexit
        · exact hsx

theorem checkExits_keeps {s : Runner} (hs : Sound s) :
    (runner env).wpr Undisturbed (fun _ _ => True) Keeps checkExits (fun _ v => Sound v) s := by
  have hlist : ∀ (ids : List TradeId) (s : Runner), Sound s →
      (runner env).wpr Undisturbed (fun _ _ => True) Keeps (checkExitsOf ids) (fun _ v =>
        Sound v) s := by
    intro ids
    induction ids with
    | nil => exact fun s hs => hs
    | cons id ids ih =>
      intro s hs
      refine wpr_bind.mpr (wpr_mono (checkExit_keeps hs) (fun r v hv => ?_))
      cases r with
      | error e => exact hv
      | ok u => exact ih v hv
  apply wpr_bind.mpr
  intro v hv _
  exact ⟨⟨hv.1 hs,fun _ h => h,fun _ h => h⟩,hlist _ v (hv.1 hs)⟩

/-- The two futures together keep the books, however they take turns. -/
theorem joinMonitors_sound {schedule : Nat → Bool} {s : Runner} (hs : Sound s) :
    (runner env).wpr (· = ·) (fun _ _ => True) (fun _ _ b => Sound b) (joinMonitors schedule)
      (fun _ v => Sound v) s := by
  have hguarantee : ∀ a op b, Keeps a op b → Undisturbed a b :=
    fun a op b h => ⟨fun _ => h.1,h.2.1,h.2.2⟩
  refine wpr_mono (wpr_weaken (fun _ _ h => h) ?_ (wpr_join Undisturbed.refl Undisturbed.refl
    (fun _ _ _ => Undisturbed.trans) (fun _ _ _ => Undisturbed.trans) hguarantee hguarantee
    (fun _ _ _ h hq => h.1 hq) (fun _ _ _ h hq => h.1 hq) monitorActivePositions checkExits none 0 s
    (monitor_keeps hs) (checkExits_keeps hs))) (fun _ v h => h.1)
  exact fun a op b h => h.elim (fun h => h.1) (fun h => h.1)

end Monitors

section Entry

/-- The trade that an entry returns: what the opportunity asked for, under a new id. -/
structure Recorded (opportunity : ArbitrageOpportunity) (size : ℚ) (w w' : World)
    (t : PaperTrade) : Prop where
  symbol : t.symbol = opportunity.symbol
  size : t.positionSizeUsd = size
  status : t.status = .active
  reason : t.exitReason = none
  uuids_le : w.uuids ≤ t.id
  id_lt : t.id < w'.uuids

variable (env : Env)

theorem wp_later {Q : α → Prop} {p : Prog backend α} (hp : p.Returns Q) (w : World) :
    (exchanges env).wp (fun _ _ => True) p (fun a w' => Q a ∧ Later w w') w :=
  wp_returns Later.refl (fun _ _ _ => Later.trans) (fun op w => serve_later env w op) hp w

/-- A step of an entry, of which nothing more is known. -/
theorem entry_step {Q : Except EntryError β → World → Prop} {w₀ : World} (x : Entry α)
    (f : α → Entry β) (w : World) (hw : Later w₀ w) (herr : ∀ e w', Q (.error e) w')
    (hf : ∀ a w', Later w₀ w' → (exchanges env).wp (fun _ _ => True) (f a) Q w') :
    (exchanges env).wp (fun _ _ => True) (x >>= f : Entry β) Q w := by
  refine wp_except_bind.mpr (wp_mono (wp_later env (Prog.returns_true _) w) (fun r w' h => ?_))
  cases r with
  | error e => exact herr e w'
  | ok a => exact hf a w' (hw.trans h.2)

variable (opportunity : ArbitrageOpportunity) (availableCapital positionSize : ℚ)

theorem createTrade_recorded (secs : Nat) (legs : Legs) {w₀ w : World} (hw : Later w₀ w) :
    (exchanges env).wp (fun _ _ => True) (createTrade opportunity positionSize secs legs)
      (fun t w' => Recorded opportunity positionSize w₀ w' t) w := by
  unfold createTrade
  refine wp_bind.mpr (fun _ => wp_ret.mpr ?_)
  change (exchanges env).wp _ _ _ { w with uuids := w.uuids+1 }
  refine wp_mono (wp_later env (Q := fun t : PaperTrade => t.symbol = opportunity.symbol ∧
    t.positionSizeUsd = positionSize ∧ t.status = .active ∧ t.exitReason = none ∧
      t.id = w.uuids) ?_ _)
    (fun t w' h => ?_)
  · exact fun _ _ _ _ => ⟨rfl,rfl,rfl,rfl,rfl⟩
  · obtain ⟨⟨hsym,hsize,hst,hr,hid⟩,hu⟩ := h
    exact ⟨hsym,hsize,hst,hr,hid ▸ hw.uuids_le,hid ▸ hu.uuids_le⟩

theorem entryReal_recorded (w : World) :
    (exchanges env).wp (fun _ _ => True)
      (executeAtomicEntryReal opportunity availableCapital positionSize)
      (fun r w' => ∀ t, r = .ok t → Recorded opportunity positionSize w w' t) w := by
  have herr : ∀ (e : EntryError) (w' : World) (t : PaperTrade),
      (Except.error e : Except EntryError PaperTrade) =
      .ok t → Recorded opportunity positionSize w w' t := fun _ _ _ h => nomatch h
  refine entry_step env _ _ w (.refl w) herr (fun a w1 h1 => ?_)
  refine entry_step env _ _ w1 h1 herr (fun legs w2 h2 => ?_)
  refine entry_step env _ _ w2 h2 herr (fun legs w3 h3 => ?_)
  refine wp_lift.mpr (wp_mono (createTrade_recorded env opportunity positionSize _ _ h3) ?_)
  intro t w' h u hu
  cases hu
  exact h

theorem entryPaper_recorded (w : World) :
    (exchanges env).wp (fun _ _ => True)
      (executeAtomicEntry opportunity availableCapital positionSize)
      (fun r w' => ∀ t, r = .ok t → Recorded opportunity positionSize w w' t) w := by
  have herr : ∀ (e : EntryError) (w' : World) (t : PaperTrade),
      (Except.error e : Except EntryError PaperTrade) =
      .ok t → Recorded opportunity positionSize w w' t := fun _ _ _ h => nomatch h
  refine entry_step env _ _ w (.refl w) herr (fun _ w1 h1 => ?_)
  refine entry_step env _ _ w1 h1 herr (fun _ w2 h2 => ?_)
  refine entry_step env _ _ w2 h2 herr (fun secs w3 h3 => ?_)
  refine entry_step env _ _ w3 h3 herr (fun longOrder w4 h4 => ?_)
  refine entry_step env _ _ w4 h4 herr (fun shortOrder w5 h5 => ?_)
  refine entry_step env _ _ w5 h5 herr (fun orders w6 h6 => ?_)
  refine ends_lift (fun _ => ?_)
  intro t ht
  cases ht
  exact ⟨rfl,rfl,rfl,rfl,h6.uuids_le,Nat.lt_succ_self _⟩

end Entry

section Placeholder

variable {s : Runner} {slot : Nat} {trade : PaperTrade}

/-- A new trade only adds itself to the map. -/
theorem put_new (h : ∀ t ∈ s.trades, t.id ≠ trade.id) :
    s.put slot trade = { s with trades := s.trades.take slot ++ trade :: s.trades.drop slot } := by
  have hnone : s.lookup trade.id = none :=
    List.find?_eq_none.mpr (fun t ht => by simpa using h t ht)
  unfold Runner.put
  rw [hnone]
  rfl

theorem put_perm (slot : Nat) (h : ∀ t ∈ s.trades, t.id ≠ trade.id) :
    (s.put slot trade).trades.Perm (trade :: s.trades) := by
  rw [put_new h]
  have hmid : (s.trades.take slot ++ trade :: s.trades.drop slot).Perm
      (trade :: (s.trades.take slot ++ s.trades.drop slot)) := List.perm_middle
  rwa [List.take_append_drop] at hmid

/-- A placeholder leaves no trace. -/
theorem erase_put (h : ∀ t ∈ s.trades, t.id ≠ trade.id) :
    (s.put slot trade).erase trade.id = s := by
  rw [put_new h]
  have hkeep : ∀ l : List PaperTrade, (∀ t ∈ l, t ∈ s.trades) →
      l.filter (fun t => t.id ≠ trade.id) = l :=
    fun l hl => List.filter_eq_self.mpr (fun t ht => by simpa using h t (hl t ht))
  unfold Runner.erase
  have htrades : (s.trades.take slot ++ trade :: s.trades.drop slot).filter (fun t =>
      t.id ≠ trade.id) =
      s.trades := by
    rw [List.filter_append,List.filter_cons,hkeep _ (fun t ht => List.mem_of_mem_take ht),
      hkeep _ (fun t ht => List.mem_of_mem_drop ht)]
    simp
  dsimp only
  rw [htrades]

theorem put_symbols (hid : ∀ t ∈ s.trades, t.id ≠ trade.id)
    (hsym : ∀ t ∈ s.trades, t.symbol ≠ trade.symbol) (h : OnePerSymbol s) :
    OnePerSymbol (s.put slot trade) := by
  unfold OnePerSymbol
  rw [((put_perm slot hid).map PaperTrade.symbol).nodup_iff,List.map_cons,List.nodup_cons]
  refine ⟨fun hm => ?_,h⟩
  obtain ⟨t,ht,he⟩ := List.mem_map.mp hm
  exact hsym t ht he

/-- A new trade that is in the map and open in the portfolio. -/
theorem sound_enter (slot : Nat) (h : Sound s) (hid : ∀ t ∈ s.trades, t.id ≠ trade.id)
    (hlt : trade.id < s.world.uuids) (hnew : trade.id ∉ Ledger.ids s.portfolio)
    (hsym : ∀ t ∈ s.trades, t.symbol ≠ trade.symbol) (hstatus : trade.status = .active)
    (hreason : trade.exitReason = none) :
    Sound { s.put slot trade with
      portfolio := { s.portfolio with
        availableCapital := s.portfolio.availableCapital - trade.positionSizeUsd
        totalOpenPositions := s.portfolio.totalOpenPositions + trade.positionSizeUsd
        activeTrades := s.portfolio.activeTrades ++ [trade] } } := by
  have hmem : ∀ t, t ∈ (s.put slot trade).trades ↔ t = trade ∨ t ∈ s.trades :=
    fun t => ((put_perm slot hid).mem_iff).trans List.mem_cons
  have hworld : (s.put slot trade).world = s.world := by rw [put_new hid]
  constructor
  · intro t ht
    dsimp only
    rw [hworld]
    rcases (hmem t).mp ht with rfl | ht
    · exact hlt
    · exact h.ids_lt t ht
  · have hperm := (put_perm slot hid).map PaperTrade.id
    rw [hperm.nodup_iff,List.map_cons,List.nodup_cons]
    refine ⟨fun hm => ?_,h.ids⟩
    obtain ⟨t,ht,he⟩ := List.mem_map.mp hm
    exact hid t ht he
  · exact put_symbols hid hsym h.symbols
  · intro t ht
    rcases (hmem t).mp ht with rfl | ht
    · exact .inl hstatus
    · exact h.status t ht
  · intro t ht
    rcases (hmem t).mp ht with rfl | ht
    · simp [hreason]
    · exact h.real t ht
  · intro t ht
    rcases List.mem_append.mp ht with ht | ht
    · obtain ⟨u,hu,hui,hus⟩ := h.mapped t ht
      exact ⟨u,(hmem u).mpr (.inr hu),hui,hus⟩
    · obtain rfl := List.mem_singleton.mp ht
      exact ⟨t,(hmem t).mpr (.inl rfl),rfl,rfl⟩
  · intro u hu hin
    rcases (hmem u).mp hu with rfl | hu
    · exact absurd rfl (hin u (List.mem_append_right _ (List.mem_singleton_self _)))
    · exact h.closed u hu (fun t ht => hin t (List.mem_append_left _ ht))
  · exact balanced_open h.balanced hnew
  · intro id hm
    dsimp only
    rw [hworld]
    simp only [Ledger.ids,List.map_append,List.mem_append,List.map_cons,List.map_nil,
      List.mem_singleton] at hm
    rcases hm with (hm | rfl) | hm
    · exact h.known id (by simp only [Ledger.ids,List.map_append,List.mem_append]; exact .inl hm)
    · exact hlt
    · exact h.known id (by simp only [Ledger.ids,List.map_append,List.mem_append]; exact .inr hm)

/-- The map with a placeholder in it: without it the books are in order, and no other trade is
of the symbol. -/
structure Reserved (symbol : String) (id : TradeId) (s : Runner) : Prop where
  symbols : OnePerSymbol s
  others : Sound (s.erase id)
  vacant : ∀ t ∈ (s.erase id).trades, t.symbol ≠ symbol

theorem Still.erase {a b : Runner} (k : Still a b) (id : TradeId) :
    Still (a.erase id) (b.erase id) where
  trades := by
    unfold Runner.erase
    rw [k.trades]
  portfolio := k.portfolio
  uuids := k.uuids

theorem Still.reserved {a b : Runner} (k : Still a b) {symbol : String} {id : TradeId}
    (h : Reserved symbol id a) : Reserved symbol id b where
  symbols := by
    unfold OnePerSymbol
    rw [k.trades]
    exact h.symbols
  others := (k.erase id).sound h.others
  vacant t ht := h.vacant t ((k.erase id).trades ▸ ht)

end Placeholder

section Execute

variable {env : Surroundings} {s : Runner}

/-- Every step leaves one trade of a symbol at most. -/
abbrev Single (_ : Runner) (_ : RunnerOp) (s' : Runner) : Prop := OnePerSymbol s'

theorem Still.symbols {a b : Runner} (k : Still a b) (h : OnePerSymbol a) : OnePerSymbol b := by
  unfold OnePerSymbol
  rw [k.trades]
  exact h

/-- A program that leaves the map and the portfolio alone. -/
theorem quiet_still {p : Run α} (hp : p.Only Quiet) (hs : OnePerSymbol s) :
    (runner env).wpr (· = ·) (fun _ _ => True) Single p (fun _ v => Still s v) s := by
  refine wpr_invariant (fun a b h ha => h ▸ ha) (fun op w ho _ hw => ?_) hp (Still.refl s)
  have hstep := hw.trans (still_serve env op ho w)
  exact ⟨hstep.symbols hs,hstep⟩

/-- A program of the execution backend runs in the runner as it runs alone. -/
theorem onBackend_wpr (env : Surroundings) (caller : Caller) (hs : OnePerSymbol s)
    {p : Prog backend α} {Q : α → World → Prop}
    (h : (exchanges env.exchanges).wp (fun _ _ => True) p Q s.world) :
    (runner env).wpr (· = ·) (fun _ _ => True) Single (onBackend caller p)
      (fun a v => Still s v ∧ Q a v.world) s := by
  refine wpr_embed (I := fun v => Still s v) (fun _ _ => rfl) (fun _ _ => rfl) (fun op v hv => ?_) h
    (Still.refl s)
  have hstep := hv.trans (still_serve env (.backend caller op) trivial v)
  exact ⟨hstep.symbols hs,hstep⟩

variable {opportunity : ArbitrageOpportunity} {placeholder : TradeId}

theorem remove_placeholder (h : Reserved opportunity.symbol placeholder s) :
    (runner env).wpr (· = ·) (fun _ _ => True) Single (removeTrade placeholder) (fun _ v =>
      Sound v) s := by
  intro v hv _
  subst hv
  exact ⟨h.others.symbols,h.others⟩

/-- A returned trade takes the place of the placeholder, and the portfolio has the capital for
it. -/
theorem settle_trade {s₀ : Runner} {size : ℚ} {trade : PaperTrade} (k : Still s₀ s)
    (h : Reserved opportunity.symbol placeholder s₀)
    (ht : Recorded opportunity size s₀.world s.world trade)
    (hcap : size ≤ s₀.portfolio.availableCapital) :
    (runner env).wpr (· = ·) (fun _ _ => True) Single (do
      let _ ← removeTrade placeholder
      let _ ← insertTrade trade
      let _ ← Prog.call (σ := runnerSig) (.openTrade trade) .ret
      pure ()) (fun _ v => Sound v) s := by
  have hs : Sound (s.erase placeholder) := (k.erase placeholder).sound h.others
  have htrades : (s.erase placeholder).trades = (s₀.erase placeholder).trades :=
    (k.erase placeholder).trades
  have hid : ∀ t ∈ (s.erase placeholder).trades, t.id ≠ trade.id := by
    intro t hm he
    have hlt := h.others.ids_lt t (htrades ▸ hm)
    exact absurd (ht.uuids_le.trans_eq he.symm) (not_le.mpr hlt)
  have hsym : ∀ t ∈ (s.erase placeholder).trades, t.symbol ≠ trade.symbol :=
    fun t hm => ht.symbol ▸ h.vacant t (htrades ▸ hm)
  have hnew : trade.id ∉ Ledger.ids (s.erase placeholder).portfolio := by
    intro hm
    have hlt := h.others.known trade.id (k.portfolio ▸ hm)
    exact absurd ht.uuids_le (not_le.mpr hlt)
  intro v hv _
  subst hv
  refine ⟨hs.symbols,fun v hv _ => ?_⟩
  subst hv
  refine ⟨put_symbols hid hsym hs.symbols,fun v hv _ => ?_⟩
  subst hv
  change OnePerSymbol ((runner env).serve (.openTrade trade)
      ((s.erase placeholder).put _ trade)).2 ∧ Sound ((runner env).serve (.openTrade trade)
      ((s.erase placeholder).put _ trade)).2
  have hportfolio : ((s.erase placeholder).put (env.slot s.world.tick) trade).portfolio =
      s₀.portfolio := by
    rw [put_new hid]
    exact k.portfolio
  have hopen : Sound ((runner env).serve (.openTrade trade)
      ((s.erase placeholder).put (env.slot s.world.tick) trade)).2 := by
    rcases openTrade_cases s₀.portfolio trade with ⟨hlt,_⟩ | ⟨_,hok⟩
    · rw [ht.size] at hlt
      exact absurd hcap (not_le.mpr hlt)
    · simp only [runner,hportfolio,hok]
      have hsound := sound_enter (env.slot s.world.tick) hs hid ht.id_lt hnew hsym
          ht.status ht.reason
      rw [show (s.erase placeholder).portfolio = s₀.portfolio from k.portfolio] at hsound
      refine Still.sound ?_ hsound
      exact ⟨rfl,rfl,le_rfl⟩
  exact ⟨hopen.symbols,hopen⟩

theorem enterTrade_sound {availableCapital positionSize spread totalFee : ℚ}
    (h : Reserved opportunity.symbol placeholder s)
    (hcap : positionSize ≤ s.portfolio.availableCapital) :
    (runner env).wpr (· = ·) (fun _ _ => True) Single
      (enterTrade opportunity placeholder availableCapital positionSize spread totalFee)
      (fun _ v => Sound v) s := by
  refine wpr_bind.mpr (wpr_mono
    (quiet_still (p := isRealTrading) ⟨trivial,fun _ => trivial⟩ h.symbols) ?_)
  intro real s₀ k₀
  have h₀ := k₀.reserved h
  have hrecorded : (exchanges env.exchanges).wp (fun _ _ => True)
      (if real then executeAtomicEntryReal opportunity availableCapital positionSize
        else executeAtomicEntry opportunity availableCapital positionSize)
      (fun r w' => ∀ t, r = .ok t → Recorded opportunity positionSize s₀.world w' t) s₀.world := by
    cases real with
    | true => exact entryReal_recorded _ _ _ _ _
    | false => exact entryPaper_recorded _ _ _ _ _
  have hentry := onBackend_wpr env .entry h₀.symbols hrecorded
  refine wpr_bind.mpr (wpr_mono hentry (fun r v hv => ?_))
  obtain ⟨k,hr⟩ := hv
  cases r with
  | error e => exact remove_placeholder (k.reserved h₀)
  | ok trade =>
    have ht := hr trade rfl
    refine settle_trade k h₀ ⟨ht.symbol,ht.size,ht.status,ht.reason,ht.uuids_le,ht.id_lt⟩ ?_
    rw [k₀.portfolio]
    exact hcap

theorem enterIfSound_sound (h : Reserved opportunity.symbol placeholder s) :
    (runner env).wpr (· = ·) (fun _ _ => True) Single (enterIfSound opportunity placeholder)
      (fun _ v => Sound v) s := by
  have hprices : (getPricesFromStore opportunity.symbol opportunity.longExchange
      opportunity.shortExchange).Only Quiet := by
    refine .bind ⟨trivial,fun _ => trivial⟩ (fun r => ?_)
    split
    · trivial
    · trivial
    · split <;> trivial
  refine wpr_bind.mpr (wpr_mono (quiet_still hprices h.symbols) (fun r s₁ k₁ => ?_))
  have h₁ := k₁.reserved h
  cases r with
  | error e => exact remove_placeholder h₁
  | ok prices =>
    dsimp only
    split
    · exact remove_placeholder h₁
    · apply wpr_bind.mpr
      intro v hv _
      subst hv
      have k₂ := still_serve env .getAvailableCapital trivial s₁
      refine ⟨k₂.symbols h₁.symbols,?_⟩
      have h₂ := k₂.reserved h₁
      change (runner env).wpr _ _ _ (if s₁.portfolio.availableCapital ≤ 0 then _ else _) _ _
      split
      · exact remove_placeholder h₂
      · apply wpr_bind.mpr
        intro v hv _
        subst hv
        have k₃ := still_serve env .getStartingCapital trivial
          ((runner env).serve .getAvailableCapital s₁).2
        refine ⟨k₃.symbols h₂.symbols,?_⟩
        have h₃ := k₃.reserved h₂
        generalize ((runner env).serve .getStartingCapital
          ((runner env).serve .getAvailableCapital s₁).2) = out at k₃ h₃
        obtain ⟨startingCapital,s₃⟩ := out
        dsimp only [wpr_ret]
        change (runner env).wpr _ _ _ (if _ then _ else _) _ s₃
        split
        · exact remove_placeholder h₃
        · next hsize =>
          simp only [Bool.or_eq_true,decide_eq_true_eq,not_or,not_lt] at hsize
          refine enterTrade_sound h₃ ?_
          rw [k₃.portfolio,k₂.portfolio]
          exact hsize.2

/-- `execute_opportunity` keeps the books and leaves no placeholder behind. -/
theorem execute_sound (opportunity : ArbitrageOpportunity) (hs : Sound s) :
    (runner env).wpr (· = ·) (fun _ _ => True) Single (executeOpportunity opportunity)
      (fun _ v => Sound v) s := by
  apply wpr_bind.mpr
  intro v hv _
  subst hv
  refine ⟨hs.symbols,?_⟩
  generalize hfind : ((runner env).serve (.find (occupies opportunity.symbol)) s).1 = found
  cases found with
  | some t => exact hs
  | none =>
    -- every trade in the map is active or exiting, so none is of the symbol
    have hvacant : ∀ t ∈ s.trades, t.symbol ≠ opportunity.symbol := by
      intro t ht he
      have hno := List.find?_eq_none.mp hfind t ht
      rcases hs.status t ht with hst | hst <;> simp [occupies,he,hst] at hno
    apply wpr_bind.mpr
    intro v hv _
    obtain rfl : s = v := hv
    have k := still_serve env (.backend .entry .newUuid) trivial s
    refine ⟨k.symbols hs.symbols,wpr_ret.mpr ?_⟩
    change (runner env).wpr _ _ _ (insertTrade (placeholderTrade s.world.uuids opportunity) >>=
      fun _ => enterIfSound opportunity s.world.uuids) _ _
    have hs₁ := k.sound hs
    have htrades := k.trades
    generalize ((runner env).serve (.backend .entry .newUuid) s).2 = s₁ at hs₁ htrades
    have hid : ∀ t ∈ s₁.trades, t.id ≠ (placeholderTrade s.world.uuids opportunity).id :=
      fun t ht => (hs.ids_lt t (htrades ▸ ht)).ne
    have hsym : ∀ t ∈ s₁.trades, t.symbol ≠ (placeholderTrade s.world.uuids opportunity).symbol :=
      fun t ht => hvacant t (htrades ▸ ht)
    apply wpr_bind.mpr
    intro v hv _
    subst hv
    have hone : OnePerSymbol
        (s₁.put (env.slot s₁.world.tick) (placeholderTrade s.world.uuids opportunity)) :=
      put_symbols hid hsym hs₁.symbols
    -- without the placeholder the map is as it was
    have hback : ((runner env).serve
        (.insert (placeholderTrade s.world.uuids opportunity)) s₁).2.erase
        s.world.uuids = s₁ := erase_put hid
    refine ⟨hone,enterIfSound_sound ⟨hone,?_,?_⟩⟩
    · rw [hback]
      exact hs₁
    · rw [hback]
      exact hsym

end Execute

section Loop

variable {env : Surroundings} {s : Runner}

/-- A turn up to the return of `execute_opportunity`. -/
def enterOnce (input : Input) : Run Unit := do
  if input.resume then Prog.call (σ := runnerSig) .resumeTrading .ret else pure ()
  match input.opportunity with
  | some opportunity => executeOpportunity opportunity
  | none => pure ()

/-- The rest of the turn. -/
def monitorOnce (input : Input) : Run Unit := do
  let _ ← backendCall .entry (.sleep 0)
  let _ ← joinMonitors input.schedule
  pure ()

theorem scanOnce_split (input : Input) :
    scanOnce input = enterOnce input >>= fun _ => monitorOnce input := by
  unfold scanOnce enterOnce
  cases input.resume <;> cases input.opportunity <;> rfl

theorem enterOnce_sound (input : Input) (hs : Sound s) :
    (runner env).wpr (· = ·) (fun _ _ => True) Single (enterOnce input) (fun _ v => Sound v) s := by
  have hresumed : (runner env).wpr (· = ·) (fun _ _ => True) Single
      (Prog.call (σ := runnerSig) .resumeTrading .ret) (fun _ v => Sound v) s := by
    intro v hv _
    subst hv
    have k := still_serve env .resumeTrading trivial s
    exact ⟨k.symbols hs.symbols,k.sound hs⟩
  unfold enterOnce
  cases input.opportunity with
  | none =>
    cases input.resume with
    | false => exact hs
    | true => exact wpr_bind.mpr (wpr_mono hresumed (fun _ v hv => hv))
  | some o =>
    cases input.resume with
    | false => exact execute_sound o hs
    | true => exact wpr_bind.mpr (wpr_mono hresumed (fun _ v hv => execute_sound o hv))

theorem monitorOnce_sound (input : Input) (hs : Sound s) :
    (runner env).wpr (· = ·) (fun _ _ => True) (fun _ _ b => Sound b) (monitorOnce input)
      (fun _ v => Sound v) s := by
  refine wpr_bind.mpr (fun v hv _ => ?_)
  subst hv
  have hslept := (still_serve env (.backend .entry (.sleep 0)) trivial s).sound hs
  exact ⟨hslept,wpr_bind.mpr (wpr_mono (joinMonitors_sound hslept) (fun _ u hu => hu))⟩

theorem loop_sound (inputs : Nat → Input) (n : Nat) (hs : Sound s) :
    (runner env).wpr (· = ·) (fun _ _ => True) Single (runScanningLoop inputs n) (fun _ v =>
      Sound v) s := by
  refine wpr_loop inputs (fun input s hs => ?_) n hs
  rw [scanOnce_split]
  refine wpr_bind.mpr (wpr_mono (enterOnce_sound input hs) (fun _ v hv => ?_))
  exact wpr_weaken (fun _ _ h => h) (fun _ _ _ h => h.symbols) (monitorOnce_sound input hv)

end Loop

/-- After every number of turns, whatever the exchanges, Redis and the schedule do: each open
trade of the portfolio is in the map with its size, each trade of the map that is not open in
the portfolio is on its way out and was closed there, and the profits booked are those of the
closed trades, one for each id. -/
theorem ledgers_never_drift (env : Surroundings) (world : World) (startingCapital : ℚ)
    (inputs : Nat → Input) (n : Nat) :
    let s := ((runner env).run (runScanningLoop inputs n) (.new world startingCapital)).2
    (∀ t ∈ s.portfolio.activeTrades, ∃ u ∈ s.trades, u.id = t.id ∧
      u.positionSizeUsd = t.positionSizeUsd) ∧
    (∀ u ∈ s.trades, (∀ t ∈ s.portfolio.activeTrades, t.id ≠ u.id) →
      u.status = .exiting ∧ ∃ t ∈ s.portfolio.closedTrades, t.id = u.id) ∧
    (s.portfolio.closedTrades.map PaperTrade.id).Nodup ∧
    s.portfolio.cumulativePnl = (s.portfolio.closedTrades.map PaperTrade.actualProfitUsd).sum := by
  intro s
  have h : Sound s := run_of_wpr (loop_sound inputs n (sound_new world startingCapital))
  refine ⟨h.mapped,h.closed,?_,h.balanced.pnl⟩
  exact h.balanced.distinct.sublist ((List.sublist_append_right _ _).map _)

/-- In every state of the loop the map has at most one trade of a symbol, so that
`get_current_prices` asks for the exchanges of that trade; and from the return of
`execute_opportunity` to the end of the turn there is no placeholder. -/
theorem one_trade_per_symbol (env : Surroundings) (world : World) (startingCapital : ℚ)
    (inputs : Nat → Input) (n : Nat) :
    (∀ v, (runner env).Visits (fun _ _ => True) (runScanningLoop inputs n)
      (.new world startingCapital) v → (v.trades.map PaperTrade.symbol).Nodup ∧
      ∀ t ∈ v.trades, (runner env).run (getCurrentPrices t.symbol) v =
        (runner env).run (getPricesFromStore t.symbol t.longExchange t.shortExchange) v) ∧
    scanOnce (inputs n) = (enterOnce (inputs n) >>= fun _ => monitorOnce (inputs n)) ∧
    ∀ v, (runner env).Visits (fun _ _ => True) (monitorOnce (inputs n))
        ((runner env).run (runScanningLoop inputs n >>= fun _ => enterOnce (inputs n))
          (.new world startingCapital)).2 v →
      ∀ t ∈ v.trades, t.exitReason ≠ some .placeholder := by
  refine ⟨fun v hv => ?_,scanOnce_split _,fun v hv => ?_⟩
  · have hone : OnePerSymbol v := visits_of_wpr (G := Single) (fun _ _ _ _ h _ => h)
      (loop_sound inputs n (sound_new world startingCapital))
        (sound_new world startingCapital).symbols hv
    refine ⟨hone,fun t ht => ?_⟩
    have hfind : v.trades.find? (fun u => u.symbol = t.symbol) = some t := by
      have hsome : (v.trades.find? (fun u => u.symbol = t.symbol)).isSome = true :=
        List.find?_isSome.mpr ⟨t,ht,by simp⟩
      obtain ⟨u,hu⟩ := Option.isSome_iff_exists.mp hsome
      have hsym : u.symbol = t.symbol := by simpa using List.find?_some hu
      exact List.inj_on_of_nodup_map hone (List.mem_of_find?_eq_some hu) ht hsym ▸ hu
    have hserve : (runner env).serve (.find (fun u => u.symbol = t.symbol)) v = (some t,v) :=
      Prod.ext hfind rfl
    unfold getCurrentPrices
    rw [run_bind,run_call,hserve]
    rfl
  · have hentered : Sound ((runner env).run (runScanningLoop inputs n >>= fun _ =>
        enterOnce (inputs n))
        (.new world startingCapital)).2 :=
      run_of_wpr (wpr_bind.mpr (wpr_mono (loop_sound inputs n (sound_new world startingCapital))
        (fun _ v hv => enterOnce_sound (inputs n) hv)))
    have hsound : Sound v := visits_of_wpr (G := fun _ _ b => Sound b) (fun _ _ _ _ h _ => h)
      (monitorOnce_sound (inputs n) hentered) hentered hv
    exact hsound.real

end SpreadArb.Proofs.Tally
