import SpreadArb.OrderBackends

namespace SpreadArb.Proofs.StatusContract

section Contract

variable {S Call : Type} (b : StatusBackend S Call)

/-- Both queries succeed and report the status of `info`. -/
def Reports (s : S) (o : KeyedOrder) (info : OrderStatusInfo) : Prop :=
  b.status s o = .ok info.status ∧ b.detailed s o = .ok info

/-- A later report may only add to an earlier one. -/
def Grows (info later : OrderStatusInfo) : Prop :=
  (info.status = .filled → later.status = .filled) ∧ info.filledQuantity ≤ later.filledQuantity

/-- At any two points of the run, the queries for an order placed before both of them
succeed, agree, and only grow. -/
def Contract (s : S) (calls : List Call) : Prop :=
  ∀ before between after, calls = before ++ between ++ after → ∀ o ∈ b.placed s before,
    ∃ info later, Reports b (b.run s before) o info ∧
      Reports b (b.run s (before ++ between)) o later ∧ Grows info later

variable {b}

theorem Grows.refl (info : OrderStatusInfo) : Grows info info := ⟨id,le_rfl⟩

theorem Grows.trans {x y z : OrderStatusInfo} (h : Grows x y) (h' : Grows y z) : Grows x z :=
  ⟨fun hx => h'.1 (h.1 hx),h.2.trans h'.2⟩

theorem run_append (s : S) (xs ys : List Call) : b.run s (xs ++ ys) = b.run (b.run s xs) ys := by
  induction xs generalizing s with
  | nil => rfl
  | cons c xs ih => exact ih _

theorem placed_append (s : S) (xs ys : List Call) :
    b.placed s (xs ++ ys) = b.placed s xs ++ b.placed (b.run s xs) ys := by
  induction xs generalizing s with
  | nil => rfl
  | cons c xs ih =>
    change _ ++ b.placed _ (xs ++ ys) = (_ ++ _) ++ _
    rw [ih,List.append_assoc]
    rfl

/-- Calls that keep an invariant, bring only orders with a report, and let reports only grow,
meet the contract. -/
theorem contract_of_invariant (I : S → Prop) (Known : S → KeyedOrder → Prop)
    (Fine : S → Call → Prop) (hkeep : ∀ s c, I s → Fine s c → I (b.step c s).2)
    (hnew : ∀ s c o, I s → Fine s c → (b.step c s).1 = some o → Known (b.step c s).2 o)
    (hknown : ∀ s c o, I s → Fine s c → Known s o → Known (b.step c s).2 o)
    (hreport : ∀ s o, I s → Known s o → ∃ info, Reports b s o info)
    (hgrow : ∀ s c o info later, I s → Fine s c → Known s o → Reports b s o info →
    Reports b (b.step c s).2 o later → Grows info later) {s : S} (hs : I s) {calls : List Call}
    (hfine : ∀ before c after, calls = before ++ c :: after → Fine (b.run s before) c) :
    Contract b s calls := by
  -- every prefix of the run keeps the invariant and knows the orders placed so far
  have hreach : ∀ before after, calls = before ++ after →
      I (b.run s before) ∧ ∀ o ∈ b.placed s before, Known (b.run s before) o := by
    intro before
    induction before using List.reverseRecOn with
    | nil => exact fun _ _ => ⟨hs,fun _ h => (nomatch h)⟩
    | append_singleton before c ih =>
      intro after hc
      have hsplit : calls = before ++ c :: after := by simpa using hc
      obtain ⟨hi,hk⟩ := ih _ hsplit
      have hf := hfine before c after hsplit
      rw [run_append,placed_append]
      refine ⟨hkeep _ c hi hf,fun o ho => ?_⟩
      rcases List.mem_append.mp ho with ho | ho
      · exact hknown _ c o hi hf (hk o ho)
      · change o ∈ _ ++ [] at ho
        rw [List.append_nil,Option.mem_toList] at ho
        exact hnew _ c o hi hf ho
  intro before between
  induction between using List.reverseRecOn with
  | nil =>
    intro after hc o ho
    obtain ⟨hi,hk⟩ := hreach before after (by simpa using hc)
    obtain ⟨info,hr⟩ := hreport _ o hi (hk o ho)
    exact ⟨info,info,hr,by simpa using hr,Grows.refl info⟩
  | append_singleton between c ih =>
    intro after hc o ho
    have hsplit : calls = (before ++ between) ++ c :: after := by simpa using hc
    obtain ⟨info,mid,hr,hm,hg⟩ := ih (c :: after) hsplit o ho
    obtain ⟨hi,hk⟩ := hreach (before ++ between) (c :: after) hsplit
    have hf := hfine (before ++ between) c after hsplit
    have hko : Known (b.run s (before ++ between)) o :=
      hk o (placed_append (b := b) s before between ▸ List.mem_append_left _ ho)
    have hrun : b.run s (before ++ (between ++ [c])) =
        (b.step c (b.run s (before ++ between))).2 := by
      rw [← List.append_assoc,run_append]
      rfl
    obtain ⟨later,hl⟩ := hreport _ o (hkeep _ c hi hf) (hknown _ c o hi hf hko)
    refine ⟨info,later,hr,hrun ▸ hl,hg.trans ?_⟩
    exact hgrow _ c o mid later hi hf hko hm hl

end Contract

section Testnet

/-- The order of a call that places one. -/
def TestnetCall.order : TestnetCall → Option KeyedOrder
  | .placeOrder _ _ order | .placeMarketOrder _ _ order => some order
  | _ => none

/-- The call is no placement that single-exchange mode only simulates. -/
def Real (single : Bool) (primary : String) (call : TestnetCall) : Prop :=
  ∀ order, TestnetCall.order call = some order → single = true → order.exchange = primary

/-- Bybit has numbered its orders, and the backend keeps its configuration. -/
structure Numbered (bybit single : Bool) (primary : String) (s : TestnetBackend) : Prop where
  bybit : s.bybit = bybit
  single : s.singleExchangeMode = single
  primary : s.primaryExchange = primary
  ids : ∀ v ∈ s.venue, ∃ n < s.venue.length, v.id = .bybit n

/-- The order is listed at Bybit and the backend knows it. -/
def Listed (s : TestnetBackend) (o : KeyedOrder) : Prop :=
  s.bybit = true ∧ s.orderMetadata o.id = some ("bybit",o.symbol) ∧
    ∃ n v, o.id = .bybit n ∧ s.venue.realtime o.id o.symbol = some v

variable {bybit single : Bool} {primary : String} {s : TestnetBackend}

/-- What a call did that listed an order. -/
def Lists (s : TestnetBackend) (out : Option KeyedOrder × TestnetBackend) : Prop :=
  ∃ o v, o.id = .bybit s.venue.length ∧ v.id = o.id ∧ v.symbol = o.symbol ∧ s.bybit = true ∧
    out = (some o,{ s with venue := s.venue ++ [v] }.insertMetadata o.id "bybit" o.symbol)

/-- What a placement can do. -/
theorem place_cases (acknowledge : KeyedOrder → KeyedOrder) (reply : VenueReply)
    (order : KeyedOrder) {out : Except StatusError KeyedOrder × TestnetBackend}
    (hout : out = s.placeReal order (BybitDemoClient.place s.venue reply order acknowledge))
    (hack : ∀ o, (acknowledge o).id = o.id ∧ (acknowledge o).symbol = o.symbol) :
    (out.1.toOption,out.2) = (none,s) ∨ Lists s (out.1.toOption,out.2) := by
  subst hout
  unfold TestnetBackend.placeReal TestnetBackend.withClient BybitDemoClient.place
  by_cases he : order.exchange = "bybit"
  · cases hb : s.bybit with
    | false => exact .inl (by simp [he,Except.toOption])
    | true =>
      cases hf : reply.failure with
      | some e => exact .inl (by simp [he,Except.toOption])
      | none =>
        obtain ⟨hid,hsym⟩ := hack { order with id := .bybit s.venue.length }
        refine .inr ⟨acknowledge { order with id := .bybit s.venue.length },
          ⟨.bybit s.venue.length,order.symbol,reply.orderStatus,reply.cumExecQty,reply.qty⟩,
          hid,hid.symm,hsym.symm,hb,?_⟩
        simp [he,hb,Except.toOption]
  · exact .inl (by simp [he,Except.toOption])

/-- What a call can do that simulates nothing: nothing, list a new order, or move orders. -/
theorem step_cases {c : TestnetCall} (hs : Numbered bybit single primary s)
    (hc : Real single primary c) :
    s.step c = (none,s) ∨
    (∃ move : VenueMove, s.step c = (none,{ s with venue := s.venue.map move.act })) ∨
    Lists s (s.step c) := by
  have hreal : ∀ order, TestnetCall.order c = some order → s.simulates order = false := by
    intro order ho
    unfold TestnetBackend.simulates
    cases hm : s.singleExchangeMode with
    | false => rfl
    | true => simp [hc order ho (hs.single ▸ hm),hs.primary]
  cases c with
  | placeOrder reply ms order =>
    have hp : s.placeOrder reply ms order =
        s.placeReal order (BybitDemoClient.placeOrder s.venue reply ms order) := by
      unfold TestnetBackend.placeOrder
      rw [hreal order rfl]
      rfl
    rcases place_cases _ reply order hp (fun _ => ⟨rfl,rfl⟩) with h | h
    · exact .inl h
    · exact .inr (.inr h)
  | placeMarketOrder reply ms order =>
    have hp : s.placeMarketOrder reply ms order =
        s.placeReal order (BybitDemoClient.placeMarketOrder s.venue reply ms order) := by
      unfold TestnetBackend.placeMarketOrder
      rw [hreal order rfl]
      rfl
    rcases place_cases _ reply order hp (fun _ => ⟨rfl,rfl⟩) with h | h
    · exact .inl h
    · exact .inr (.inr h)
  | cancelOrder exchange id failure move =>
    unfold TestnetBackend.step TestnetBackend.cancelOrder
    dsimp only
    split
    · exact .inl rfl
    · split
      · exact .inl rfl
      · split
        · exact .inl rfl
        · exact .inr (.inl ⟨move,rfl⟩)
  | getOrderStatus exchange id => exact .inl rfl
  | getOrderStatusDetailed exchange id symbol => exact .inl rfl
  | venue move => exact .inr (.inl ⟨move,rfl⟩)

/-- Moves keep what is listed. -/
theorem realtime_map (move : VenueMove) (venue : Venue) (id : OrderKey) (symbol : String) :
    Venue.realtime (venue.map move.act) id symbol = (venue.realtime id symbol).map move.act := by
  unfold Venue.realtime
  rw [List.find?_map]
  congr 2
  funext o
  simp [move.id_eq,move.symbol_eq]

/-- A listed order is found before the orders listed after it. -/
theorem realtime_append {venue : Venue} {id : OrderKey} {symbol : String} {v : VenueOrder}
    (w : VenueOrder) (h : venue.realtime id symbol = some v) :
    Venue.realtime (venue ++ [w]) id symbol = some v := by
  unfold Venue.realtime at h ⊢
  rw [List.find?_append,h]
  rfl

theorem numbered_step {c : TestnetCall} (hs : Numbered bybit single primary s)
    (hc : Real single primary c) : Numbered bybit single primary (s.step c).2 := by
  rcases step_cases hs hc with h | ⟨move,h⟩ | ⟨o,v,hid,hv,_,_,h⟩
  · rw [h]
    exact hs
  · rw [h]
    refine ⟨hs.bybit,hs.single,hs.primary,fun w hw => ?_⟩
    obtain ⟨u,hu,rfl⟩ := List.mem_map.mp hw
    obtain ⟨n,hn,hun⟩ := hs.ids u hu
    exact ⟨n,by simpa using hn,(move.id_eq u).trans hun⟩
  · rw [h]
    refine ⟨hs.bybit,hs.single,hs.primary,fun w hw => ?_⟩
    have hlen : (s.venue ++ [v]).length = s.venue.length+1 := by simp
    change ∃ n < (s.venue ++ [v]).length, w.id = .bybit n
    rw [hlen]
    rcases List.mem_append.mp hw with hw | hw
    · obtain ⟨n,hn,hwn⟩ := hs.ids w hw
      exact ⟨n,by omega,hwn⟩
    · cases List.mem_singleton.mp hw
      exact ⟨s.venue.length,by omega,hv.trans hid⟩

/-- The id of a listed order is not the next one that Bybit gives out. -/
theorem listed_ne_next {o : KeyedOrder} (hs : Numbered bybit single primary s) (h : Listed s o) :
    o.id ≠ .bybit s.venue.length := by
  obtain ⟨_,_,_,v,_,hv⟩ := h
  have hmem : v ∈ s.venue := List.mem_of_find?_eq_some hv
  have hid : v.id = o.id := by
    have := List.find?_some hv
    simp at this
    exact this.1
  obtain ⟨n,hn,hvn⟩ := hs.ids v hmem
  rw [← hid,hvn]
  intro he
  cases he
  omega

/-- The report of a listed order. -/
def venueInfo (v : VenueOrder) : OrderStatusInfo := ⟨parseStatus v.orderStatus,v.cumExecQty,v.qty⟩

theorem listed_reports {o : KeyedOrder} {v : VenueOrder} (h : Listed s o)
    (hv : s.venue.realtime o.id o.symbol = some v) : Reports testnetBackend s o (venueInfo v) := by
  obtain ⟨hb,hm,n,_,hid,_⟩ := h
  constructor
  · change s.getOrderStatus o.id = _
    unfold TestnetBackend.getOrderStatus TestnetBackend.withClient BybitDemoClient.getOrderStatus
    rw [hm,hb]
    dsimp only
    rw [hv,hid]
    rfl
  · change s.getOrderStatusDetailed o.id o.symbol = _
    unfold TestnetBackend.getOrderStatusDetailed TestnetBackend.withClient
      BybitDemoClient.getOrderStatusDetailed
    rw [hm,hb]
    dsimp only
    rw [hv]
    rfl

theorem reports_unique {S Call : Type} {b : StatusBackend S Call} {t : S} {o : KeyedOrder}
    {x y : OrderStatusInfo} (hx : Reports b t o x) (hy : Reports b t o y) : x = y :=
  Except.ok.inj (hx.2.symm.trans hy.2)

theorem parseStatus_filled {text : String} (h : parseStatus text = .filled) : text = "Filled" := by
  unfold parseStatus at h
  split at h
  · rfl
  · cases h
  · cases h

/-- Moves only let the report grow. -/
theorem venueInfo_grows (move : VenueMove) (v : VenueOrder) :
    Grows (venueInfo v) (venueInfo (move.act v)) := by
  refine ⟨fun h => ?_,move.filled_le v⟩
  change parseStatus (move.act v).orderStatus = .filled
  rw [move.filled_stays v (parseStatus_filled h)]
  rfl

/-- A listed order stays listed, and its listing only grows. -/
theorem listed_step {c : TestnetCall} {o : KeyedOrder} (hs : Numbered bybit single primary s)
    (hc : Real single primary c) (h : Listed s o) {v : VenueOrder}
    (hv : s.venue.realtime o.id o.symbol = some v) :
    Listed (s.step c).2 o ∧ ∃ w, (s.step c).2.venue.realtime o.id o.symbol = some w ∧
      Grows (venueInfo v) (venueInfo w) := by
  have hne := listed_ne_next hs h
  obtain ⟨hb,hm,n,_,hid,_⟩ := h
  rcases step_cases hs hc with hst | ⟨move,hst⟩ | ⟨p,u,hp,_,_,_,hst⟩
  · rw [hst]
    exact ⟨⟨hb,hm,n,v,hid,hv⟩,v,hv,Grows.refl _⟩
  · rw [hst]
    have hmove := realtime_map move s.venue o.id o.symbol
    rw [hv] at hmove
    exact ⟨⟨hb,hm,n,_,hid,hmove⟩,_,hmove,venueInfo_grows move v⟩
  · rw [hst]
    have happ := realtime_append u hv
    refine ⟨⟨hb,?_,n,v,hid,happ⟩,v,happ,Grows.refl _⟩
    change (if o.id = p.id then _ else s.orderMetadata o.id) = _
    rw [if_neg (fun he => hne (he.trans hp)),hm]

/-- A returned order is listed. -/
theorem listed_new {c : TestnetCall} {o : KeyedOrder} (hs : Numbered bybit single primary s)
    (hc : Real single primary c) (h : (s.step c).1 = some o) : Listed (s.step c).2 o := by
  rcases step_cases hs hc with hst | ⟨move,hst⟩ | ⟨p,v,hp,hv,hsym,hb,hst⟩
  · rw [hst] at h
    cases h
  · rw [hst] at h
    cases h
  · rw [hst] at h ⊢
    cases h
    refine ⟨hb,if_pos rfl,s.venue.length,v,hp,?_⟩
    change Venue.realtime (s.venue ++ [v]) _ _ = _
    unfold Venue.realtime
    -- no order listed before has the new id
    have hnone : s.venue.find? (fun w => w.id = o.id && w.symbol = o.symbol) = none := by
      refine List.find?_eq_none.mpr (fun w hw => ?_)
      obtain ⟨n,hn,hwn⟩ := hs.ids w hw
      have hwo : w.id ≠ o.id := by
        rw [hwn,hp]
        intro he
        cases he
        omega
      simp [hwo]
    rw [List.find?_append,hnone]
    simp [hv,hsym]

/-- A simulated order is returned, and its detailed status cannot be read. -/
theorem simulated_fails {c : TestnetCall} {order : KeyedOrder}
    (hs : Numbered bybit single primary s) (ho : TestnetCall.order c = some order)
    (hsim : s.simulates order = true) :
    ∃ o, (s.step c).1 = some o ∧ ∃ e, testnetBackend.detailed (s.step c).2 o = .error e := by
  have hfail : ∀ orderType secs, ∃ o, (s.placeSimulated order orderType secs).1 = .ok o ∧
      ∃ e, testnetBackend.detailed (s.placeSimulated order orderType secs).2 o = .error e := by
    intro orderType secs
    refine ⟨_,rfl,?_⟩
    have hnone : BybitDemoClient.getOrderStatusDetailed s.venue (.simulated s.uuids) order.symbol =
        .error .notInResponse := by
      have hlist : Venue.realtime s.venue (.simulated s.uuids) order.symbol = none := by
        refine List.find?_eq_none.mpr (fun w hw => ?_)
        obtain ⟨n,_,hwn⟩ := hs.ids w hw
        simp [hwn]
      unfold BybitDemoClient.getOrderStatusDetailed
      rw [hlist]
    have hmeta : (s.placeSimulated order orderType secs).2.orderMetadata (.simulated s.uuids) =
        some (order.exchange,order.symbol) := if_pos rfl
    change ∃ e, TestnetBackend.getOrderStatusDetailed _ _ _ = .error e
    unfold TestnetBackend.getOrderStatusDetailed
    rw [hmeta]
    change ∃ e, s.withClient order.exchange
      (BybitDemoClient.getOrderStatusDetailed s.venue (.simulated s.uuids) order.symbol) = .error e
    rw [hnone]
    unfold TestnetBackend.withClient
    split
    · split
      · exact ⟨_,rfl⟩
      · exact ⟨_,rfl⟩
    · exact ⟨_,rfl⟩
  cases c with
  | placeOrder reply ms o =>
    cases ho
    have hp : s.placeOrder reply ms order = s.placeSimulated order order.orderType (ms / 1000) :=
      if_pos hsim
    obtain ⟨o,hok,he⟩ := hfail order.orderType (ms / 1000)
    change ∃ o, (s.placeOrder reply ms order).1.toOption = some o ∧
      ∃ e, testnetBackend.detailed (s.placeOrder reply ms order).2 o = .error e
    rw [hp]
    exact ⟨o,by rw [hok]; rfl,he⟩
  | placeMarketOrder reply ms o =>
    cases ho
    have hp : s.placeMarketOrder reply ms order = s.placeSimulated order .market (ms / 1000) :=
      if_pos hsim
    obtain ⟨o,hok,he⟩ := hfail .market (ms / 1000)
    change ∃ o, (s.placeMarketOrder reply ms order).1.toOption = some o ∧
      ∃ e, testnetBackend.detailed (s.placeMarketOrder reply ms order).2 o = .error e
    rw [hp]
    exact ⟨o,by rw [hok]; rfl,he⟩
  | cancelOrder => cases ho
  | getOrderStatus => cases ho
  | getOrderStatusDetailed => cases ho
  | venue => cases ho

theorem numbered_new : Numbered bybit single primary (.new bybit single primary) :=
  ⟨rfl,rfl,rfl,fun _ h => (nomatch h)⟩

/-- The contract holds in a run of `TestnetBackend` if and only if no order is simulated. -/
theorem testnet_contract_iff (calls : List TestnetCall) :
    Contract testnetBackend (.new bybit single primary) calls ↔
      ∀ c ∈ calls, Real single primary c := by
  constructor
  · intro h
    -- the calls up to the first simulated one simulate nothing
    suffices hall : ∀ before after, calls = before ++ after →
        Numbered bybit single primary (testnetBackend.run (.new bybit single primary) before) ∧
          ∀ c ∈ before, Real single primary c from (hall calls [] (by simp)).2
    intro before
    induction before using List.reverseRecOn with
    | nil => exact fun _ _ => ⟨numbered_new,fun _ h => (nomatch h)⟩
    | append_singleton before c ih =>
      intro after hc
      obtain ⟨hn,hb⟩ := ih (c :: after) (by simpa using hc)
      have hreal : Real single primary c := by
        intro order ho hs
        by_contra hne
        have hsim : (testnetBackend.run (.new bybit single primary) before).simulates order =
            true := by
          unfold TestnetBackend.simulates
          rw [hn.single,hn.primary,hs]
          simp [hne]
        obtain ⟨o,hsome,e,he⟩ := simulated_fails hn ho hsim
        have hplaced : o ∈ testnetBackend.placed (.new bybit single primary) (before ++ [c]) := by
          rw [placed_append]
          refine List.mem_append_right _ ?_
          change o ∈ _ ++ []
          rw [List.append_nil,Option.mem_toList]
          exact hsome
        obtain ⟨info,_,⟨_,hd⟩,_⟩ := h (before ++ [c]) [] after (by simpa using hc) o hplaced
        rw [run_append] at hd
        cases he.symm.trans hd
      refine ⟨run_append (b := testnetBackend) _ before [c] ▸ numbered_step hn hreal,fun d hd => ?_⟩
      rcases List.mem_append.mp hd with hd | hd
      · exact hb d hd
      · exact List.mem_singleton.mp hd ▸ hreal
  · intro h
    refine contract_of_invariant (Numbered bybit single primary) Listed
      (fun _ c => Real single primary c) (fun s c => numbered_step)
      (fun s c o => listed_new) (fun s c o hs hc hl => ?_) (fun s o _ hl => ?_)
      (fun s c o info later hs hc hl hi hk => ?_) numbered_new (fun before c after hc => ?_)
    · obtain ⟨_,_,_,v,_,hv⟩ := id hl
      exact (listed_step hs hc hl hv).1
    · obtain ⟨_,_,_,v,_,hv⟩ := id hl
      exact ⟨_,listed_reports hl hv⟩
    · obtain ⟨_,_,_,v,_,hv⟩ := id hl
      obtain ⟨hl',w,hw,hg⟩ := listed_step hs hc hl hv
      rw [reports_unique hi (listed_reports hl hv),reports_unique hk (listed_reports hl' hw)]
      exact hg
    · exact h c (by simp [hc])

end Testnet

section Paper

/-- The call takes nothing away from an order: it cancels no order that is filed, and files
no smaller order under a used id. -/
def Spares (s : PaperTradingBackend) : PaperCall → Prop
  | .placeOrder _ order | .placeMarketOrder _ order =>
    ∀ old, s.orders (s.assign order.id) = some old → old.size ≤ order.size
  | .cancelOrder _ id => s.orders id = none
  | .getOrderStatus .. | .getOrderStatusDetailed .. => True

/-- Every call spares what it finds. -/
def Spared (calls : List PaperCall) : Prop :=
  ∀ before c after, calls = before ++ c :: after → Spares (paperTradingBackend.run .new before) c

/-- Orders are filed under their ids, and filled. -/
def Filed (s : PaperTradingBackend) : Prop :=
  ∀ k o, s.orders k = some o → o.id = k ∧ o.status = .filled

/-- What a call can do: nothing, file a filled order, or take one away. -/
theorem paper_cases (s : PaperTradingBackend) (c : PaperCall) :
    s.step c = (none,s) ∨
    (∃ o uuids, o.status = .filled ∧
      (Spares s c ↔ ∀ old, s.orders o.id = some old → old.size ≤ o.size) ∧
      s.step c = (some o,⟨fun k => if k = o.id then some o else s.orders k,uuids⟩)) ∨
    ∃ id, (Spares s c ↔ s.orders id = none) ∧ s.step c = (none,s.cancelOrder id) := by
  cases c with
  | placeOrder secs order => exact .inr (.inl ⟨_,_,rfl,Iff.rfl,rfl⟩)
  | placeMarketOrder secs order => exact .inr (.inl ⟨_,_,rfl,Iff.rfl,rfl⟩)
  | cancelOrder exchange id => exact .inr (.inr ⟨id,Iff.rfl,rfl⟩)
  | getOrderStatus exchange id => exact .inl rfl
  | getOrderStatusDetailed exchange id symbol => exact .inl rfl

variable {s : PaperTradingBackend}

theorem filed_step (hs : Filed s) (c : PaperCall) : Filed (s.step c).2 := by
  rcases paper_cases s c with h | ⟨o,uuids,hfilled,_,h⟩ | ⟨id,_,h⟩
  · rw [h]
    exact hs
  · rw [h]
    intro k p hp
    dsimp only at hp
    split at hp
    · next hk =>
      cases hp
      exact ⟨hk.symm,hfilled⟩
    · exact hs k p hp
  · rw [h]
    intro k p hp
    change (if k = id then none else s.orders k) = some p at hp
    split at hp
    · cases hp
    · exact hs k p hp

theorem paper_reports {o p : KeyedOrder} (hs : Filed s) (h : s.orders o.id = some p) :
    Reports paperTradingBackend s o ⟨.filled,p.size,p.size⟩ := by
  have hfilled := (hs _ p h).2
  constructor
  · change Except.ok (s.getOrderStatus o.id) = _
    unfold PaperTradingBackend.getOrderStatus
    rw [h]
    exact congrArg Except.ok hfilled
  · change Except.ok (s.getOrderStatusDetailed o.id) = _
    unfold PaperTradingBackend.getOrderStatusDetailed
    rw [h]
    dsimp only
    rw [hfilled]

/-- A spared order stays filed, and its size only grows. -/
theorem filed_grows {c : PaperCall} {k : OrderKey} {p : KeyedOrder} (hc : Spares s c)
    (h : s.orders k = some p) : ∃ q, (s.step c).2.orders k = some q ∧ p.size ≤ q.size := by
  rcases paper_cases s c with hst | ⟨o,uuids,_,hsp,hst⟩ | ⟨id,hsp,hst⟩
  · rw [hst]
    exact ⟨p,h,le_rfl⟩
  · rw [hst]
    dsimp only
    by_cases hk : k = o.id
    · subst hk
      exact ⟨o,if_pos rfl,hsp.mp hc p h⟩
    · exact ⟨p,(if_neg hk).trans h,le_rfl⟩
  · rw [hst]
    have hk : k ≠ id := by
      rintro rfl
      rw [hsp.mp hc] at h
      cases h
    exact ⟨p,(if_neg hk).trans h,le_rfl⟩

/-- Whatever is filed was returned by a placement. -/
theorem filed_placed (calls : List PaperCall) {k : OrderKey} {p : KeyedOrder}
    (h : (paperTradingBackend.run .new calls).orders k = some p) :
    p ∈ paperTradingBackend.placed .new calls := by
  induction calls using List.reverseRecOn with
  | nil => cases h
  | append_singleton calls c ih =>
    rw [run_append] at h
    rw [placed_append]
    change ((paperTradingBackend.run .new calls).step c).2.orders k = some p at h
    have hnew : ∀ o, ((paperTradingBackend.run .new calls).step c).1 = some o →
        o ∈ paperTradingBackend.placed (paperTradingBackend.run .new calls) [c] := by
      intro o ho
      change o ∈ _ ++ []
      rw [List.append_nil,Option.mem_toList]
      exact ho
    rcases paper_cases (paperTradingBackend.run .new calls) c with hst | ⟨o,uuids,_,_,
      hst⟩ | ⟨id,_,hst⟩
    · rw [hst] at h
      exact List.mem_append_left _ (ih h)
    · rw [hst] at h hnew
      dsimp only at h
      split at h
      · cases h
        exact List.mem_append_right _ (hnew _ rfl)
      · exact List.mem_append_left _ (ih h)
    · rw [hst] at h
      change (if k = id then none else _) = some p at h
      split at h
      · cases h
      · exact List.mem_append_left _ (ih h)

theorem filed_run (calls : List PaperCall) (hs : Filed s) :
    Filed (paperTradingBackend.run s calls) := by
  induction calls generalizing s with
  | nil => exact hs
  | cons c calls ih => exact ih (filed_step hs c)

/-- A call that does not spare an order breaks what was reported of it. -/
theorem unspared_breaks {c : PaperCall} (hs : Filed s) (hc : ¬ Spares s c) :
    ∃ o, s.orders o.id = some o ∧ ∀ later, Reports paperTradingBackend (s.step c).2 o later →
      ¬ Grows ⟨.filled,o.size,o.size⟩ later := by
  rcases paper_cases s c with hst | ⟨p,uuids,_,hsp,hst⟩ | ⟨id,hsp,hst⟩
  · exfalso
    cases c with
    | placeOrder secs order => cases hst
    | placeMarketOrder secs order => cases hst
    | cancelOrder exchange id =>
      apply hc
      have horders : (s.cancelOrder id).orders id = s.orders id :=
        congrArg (fun out => out.2.orders id) hst
      exact horders.symm.trans (if_pos rfl)
    | getOrderStatus exchange id => exact hc trivial
    | getOrderStatusDetailed exchange id symbol => exact hc trivial
  · rw [hsp] at hc
    push Not at hc
    obtain ⟨old,hold,hlt⟩ := hc
    have hid := (hs _ old hold).1
    refine ⟨old,hid ▸ hold,fun later hl hg => ?_⟩
    have hfiled := filed_step hs c
    rw [hst] at hl hfiled
    have hp := paper_reports (o := old) hfiled (p := p) (if_pos hid)
    rw [reports_unique hl hp] at hg
    exact absurd hg.2 (not_le.mpr hlt)
  · rw [hsp] at hc
    obtain ⟨o,ho⟩ := Option.ne_none_iff_exists'.mp hc
    have hid := (hs _ o ho).1
    refine ⟨o,hid ▸ ho,fun later hl hg => ?_⟩
    rw [hst] at hl
    have hnone : (s.cancelOrder id).orders o.id = none := if_pos hid
    have hd := hl.2
    change Except.ok ((s.cancelOrder id).getOrderStatusDetailed o.id) = _ at hd
    unfold PaperTradingBackend.getOrderStatusDetailed at hd
    rw [hnone] at hd
    cases hd
    exact absurd (hg.1 rfl) (by decide)

theorem filed_new : Filed .new := fun _ _ h => (nomatch h)

/-- The contract holds in a run of `PaperTradingBackend` if and only if its calls spare the
orders that are filed. -/
theorem paper_contract_iff (calls : List PaperCall) :
    Contract paperTradingBackend .new calls ↔ Spared calls := by
  constructor
  · intro h before c after hc
    by_contra hsp
    have hfiled : Filed (paperTradingBackend.run .new before) := filed_run before filed_new
    obtain ⟨o,ho,hbreak⟩ := unspared_breaks hfiled hsp
    obtain ⟨info,later,hi,hl,hg⟩ :=
      h before [c] after (by simpa using hc) o (filed_placed before ho)
    rw [reports_unique hi (paper_reports hfiled ho)] at hg
    rw [run_append] at hl
    exact hbreak later hl hg
  · intro h
    refine contract_of_invariant Filed (fun s o => ∃ p, s.orders o.id = some p)
      Spares (fun s c hs _ => filed_step hs c) (fun s c o _ _ ho => ?_)
      (fun s c o _ hc ho => ?_) (fun s o hs ho => ?_)
      (fun s c o info later hs hc ho hi hl => ?_) filed_new h
    · rcases paper_cases s c with hst | ⟨p,uuids,_,_,hst⟩ | ⟨id,_,hst⟩
      · cases (congrArg Prod.fst hst).symm.trans ho
      · cases (congrArg Prod.fst hst).symm.trans ho
        change ∃ p, (s.step c).2.orders o.id = some p
        rw [hst]
        exact ⟨o,if_pos rfl⟩
      · cases (congrArg Prod.fst hst).symm.trans ho
    · obtain ⟨p,hp⟩ := ho
      obtain ⟨q,hq,_⟩ := filed_grows hc hp
      exact ⟨q,hq⟩
    · obtain ⟨p,hp⟩ := ho
      exact ⟨_,paper_reports hs hp⟩
    · obtain ⟨p,hp⟩ := ho
      obtain ⟨q,hq,hle⟩ := filed_grows hc hp
      rw [reports_unique hi (paper_reports hs hp),
        reports_unique hl (paper_reports (filed_step hs c) hq)]
      exact ⟨fun _ => rfl,hle⟩

end Paper

/-- The status contract holds in a run of `TestnetBackend` if and only if no order is
simulated, and in one of `PaperTradingBackend` if and only if no filed order is cancelled or
filed again at a smaller size. -/
theorem status_contract_iff (bybit single : Bool) (primary : String) (calls : List TestnetCall)
    (paperCalls : List PaperCall) :
    (Contract testnetBackend (.new bybit single primary) calls ↔
      ∀ c ∈ calls, Real single primary c) ∧
    (Contract paperTradingBackend .new paperCalls ↔ Spared paperCalls) :=
  ⟨testnet_contract_iff calls,paper_contract_iff paperCalls⟩

/-- An order without an id. -/
def newOrder (exchange : String) : KeyedOrder :=
  ⟨.caller "",exchange,"BTCUSDT",.long,.limit,100,1,none,0,none,none,.pending⟩

/-- A simulated order is filled to one query and an error to the other; a paper order that
was filled is cancelled later on. -/
theorem status_queries_disagree :
    testnetBackend.status (testnetBackend.run (.new true true "bybit")
      [.placeOrder {} 0 (newOrder "okx")])
      { newOrder "okx" with id := .simulated 0 } = .ok .filled ∧
    testnetBackend.detailed (testnetBackend.run (.new true true "bybit")
      [.placeOrder {} 0 (newOrder "okx")])
      { newOrder "okx" with id := .simulated 0 } = .error (.unsupported "okx") ∧
    ¬ Contract testnetBackend (.new true true "bybit") [.placeOrder {} 0 (newOrder "okx")] ∧
    ¬ Contract paperTradingBackend .new [.placeOrder 0 (newOrder "okx"),
      .cancelOrder "okx" (.uuid 0)] := by
  refine ⟨rfl,rfl,fun h => ?_,fun h => ?_⟩
  · have hreal := (testnet_contract_iff _).mp h _ (List.mem_singleton_self _)
    exact absurd (hreal _ rfl rfl) (by decide)
  · have hspared := (paper_contract_iff _).mp h [.placeOrder 0 (newOrder "okx")] _ [] rfl
    cases hspared

end SpreadArb.Proofs.StatusContract
