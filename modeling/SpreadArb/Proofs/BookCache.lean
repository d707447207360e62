import SpreadArb.DemoClient

namespace SpreadArb.Proofs.BookCache
open Interact DemoClient

variable {api : DemoApi} {lib : Library} {env : DemoEnv}

/-- The books that were put into the cache under a key, oldest first. -/
def inserts (symbol : String) (levels : Nat) (history : List DemoServed) : List CachedOrderBook :=
  history.filterMap fun e =>
    match e.op with
    | .insertBook s l depth => if s = symbol ∧ l = levels then some ⟨depth,e.instant⟩ else none
    | _ => none

/-- The symbol and the levels whose book a call is about. -/
def key : DemoCall → Option (String × Nat)
  | .getOrderBookDepth symbol levels => some (symbol,levels)
  | .getBestBid symbol | .getBestAsk symbol => some (symbol,5)
  | _ => none

/-- The reply is read off this book. -/
def Delivers : DemoCall → DemoReply → DemoDepth → Prop
  | .getOrderBookDepth .., .depth book, depth => book = depth
  | .getBestBid _, .price price, depth => depth.bids.head?.map DemoLevel.price = some price
  | .getBestAsk _, .price price, depth => depth.asks.head?.map DemoLevel.price = some price
  | _, _, _ => False

section Events

variable (api lib) (history : List DemoServed) (n : Nat) (symbol : String) (levels : Nat)

/-- The book stands in a response to a request for this symbol and as many levels, which was there
by this instant. -/
def Fetched (caller : Nat) (depth : DemoDepth) (instant : Nat) : Prop :=
  ∃ t response, ⟨caller,t,.get (api.depthUrl symbol (api.limit levels)),.ok response⟩ ∈ history ∧
    t ≤ instant ∧ parseBook api lib levels response = .ok (depth.bids,depth.asks)

/-- The call looked the key up, and what had been put there by then was too old. -/
def Missed : Prop :=
  ∃ before after t cached, history = before ++ ⟨n,t,.lookupBook symbol levels,cached⟩ :: after ∧
    ∀ book ∈ inserts symbol levels before, book.cachedAt + orderBookCacheTtl ≤ t

/-- The call found a book in the cache that had been there for less than the time to live, or has
put it there itself. -/
def Recent (caller : Nat) (depth : DemoDepth) (instant : Nat) : Prop :=
  caller = n ∨ ∃ t, ⟨n,t,.lookupBook symbol levels,some (depth,t - instant)⟩ ∈ history ∧
    instant ≤ t ∧ t < instant + orderBookCacheTtl

/-- Where a call has its book from. -/
def Sourced (depth : DemoDepth) : Prop :=
  ∃ caller instant, ⟨caller,instant,.insertBook symbol levels depth,()⟩ ∈ history ∧
    Fetched api lib history symbol levels caller depth instant ∧
    Recent history n symbol levels caller depth instant

variable {api lib history n symbol levels} {e : DemoServed} {depth : DemoDepth}
  {caller instant : Nat}

theorem Fetched.append (h : Fetched api lib history symbol levels caller depth instant) :
    Fetched api lib (history ++ [e]) symbol levels caller depth instant := by
  obtain ⟨t,response,hget,hle,hparse⟩ := h
  exact ⟨t,response,List.mem_append_left _ hget,hle,hparse⟩

theorem Missed.append (h : Missed history n symbol levels) :
    Missed (history ++ [e]) n symbol levels := by
  obtain ⟨before,after,t,cached,rfl,hold⟩ := h
  exact ⟨before,after ++ [e],t,cached,by simp,hold⟩

theorem Sourced.append (h : Sourced api lib history n symbol levels depth) :
    Sourced api lib (history ++ [e]) n symbol levels depth := by
  obtain ⟨caller,instant,hinsert,hfetched,hrecent⟩ := h
  refine ⟨caller,instant,List.mem_append_left _ hinsert,hfetched.append,?_⟩
  rcases hrecent with hn | ⟨t,hlookup,hle,hlt⟩
  · exact .inl hn
  · exact .inr ⟨t,List.mem_append_left _ hlookup,hle,hlt⟩

theorem mem_inserts {book : CachedOrderBook} (h : book ∈ inserts symbol levels history) :
    ∃ caller, ⟨caller,book.cachedAt,.insertBook symbol levels book.depth,()⟩ ∈ history := by
  obtain ⟨⟨caller,t,op,ans⟩,he,hbook⟩ := List.mem_filterMap.mp h
  cases op <;> simp only [reduceCtorEq] at hbook
  case insertBook s l depth =>
    split at hbook
    · rename_i hk
      obtain ⟨rfl,rfl⟩ := hk
      cases hbook
      exact ⟨caller,he⟩
    · cases hbook

theorem inserts_append : inserts symbol levels (history ++ [e]) =
    inserts symbol levels history ++ inserts symbol levels [e] := List.filterMap_append ..

end Events

/-- Where a call that is about a book stands. -/
inductive Stage where
  | looking
  | fetching
  | reading (response : HttpResponse)
  | inserting (depth : DemoDepth)
  | done (depth : DemoDepth)
  | failed

/-- The key of a call with its stage, if it is about a book. -/
abbrev Ghost := Option ((String × Nat) × Stage)

/-- Requests that leave the cache alone. -/
def Apart : DemoOp → Prop
  | .lookupBook .. | .insertBook .. => False
  | _ => True

variable (api lib) in
/-- How the requests of a call go on. -/
inductive Moves : Ghost → (op : DemoOp) → DemoOp.Ans op → Ghost → Prop
  | hit {s l d age} (h : age < orderBookCacheTtl) :
    Moves (some ((s,l),.looking)) (.lookupBook s l) (some (d,age)) (some ((s,l),.done d))
  | stale {s l d age} (h : orderBookCacheTtl ≤ age) :
    Moves (some ((s,l),.looking)) (.lookupBook s l) (some (d,age)) (some ((s,l),.fetching))
  | absent {s l} : Moves (some ((s,l),.looking)) (.lookupBook s l) none (some ((s,l),.fetching))
  | answered {s l} (r) :
    Moves (some ((s,l),.fetching)) (.get (api.depthUrl s (api.limit l))) (.ok r)
      (some ((s,l),.reading r))
  | unanswered {s l} (e) :
    Moves (some ((s,l),.fetching)) (.get (api.depthUrl s (api.limit l))) (.error e)
      (some ((s,l),.failed))
  | stamped {s l r bids asks} (ts) (h : parseBook api lib l r = .ok (bids,asks)) :
    Moves (some ((s,l),.reading r)) .systemTime (.ok ts) (some ((s,l),.inserting ⟨bids,asks,ts⟩))
  | unstamped {s l r} (e) :
    Moves (some ((s,l),.reading r)) .systemTime (.error e) (some ((s,l),.failed))
  | inserted {s l d} (u) :
    Moves (some ((s,l),.inserting d)) (.insertBook s l d) u (some ((s,l),.done d))
  | clock {op} (r) (h : Apart op) : Moves none op r none

section Obeys

variable {s : String} {l : Nat}

/-- A depth is returned at the end. -/
def Ended (s : String) (l : Nat) (d : DemoDepth) (q : Ghost) : Prop := q = some ((s,l),.done d)

theorem fetchOrderBookDepth_obeys :
    Prog.Obeys (Moves api lib) (Machine.Ends (fun _ => True) (Ended s l))
      (fetchOrderBookDepth api lib s l : Prog demoSig (Except DemoError DemoDepth))
        (some ((s,l),.fetching)) := by
  intro r
  cases r with
  | error e => exact ⟨_,.unanswered e,trivial⟩
  | ok response =>
    refine ⟨_,.answered response,Prog.Obeys.ofExcept trivial (fun (bids,asks) hparse ts => ?_)⟩
    cases ts with
    | error e => exact ⟨_,.unstamped e,trivial⟩
    | ok ts => exact ⟨_,.stamped ts hparse,fun u => ⟨_,.inserted u,rfl⟩⟩

theorem getOrderBookDepth_obeys :
    Prog.Obeys (Moves api lib) (Machine.Ends (fun _ => True) (Ended s l))
      (getOrderBookDepth api lib s l : Prog demoSig (Except DemoError DemoDepth))
        (some ((s,l),.looking)) := by
  intro cached
  cases cached with
  | none => exact ⟨_,.absent,fetchOrderBookDepth_obeys⟩
  | some found =>
    obtain ⟨d,age⟩ := found
    by_cases hage : age < orderBookCacheTtl
    · refine ⟨_,.hit hage,?_⟩
      change Prog.Obeys _ _ (if age < orderBookCacheTtl then _ else _) _
      simp only [hage,↓reduceIte]
      rfl
    · refine ⟨_,.stale (Nat.le_of_not_lt hage),?_⟩
      change Prog.Obeys _ _ (if age < orderBookCacheTtl then _ else _) _
      simp only [hage,↓reduceIte]
      exact fetchOrderBookDepth_obeys

theorem getServerTime_apart :
    Prog.Only Apart (getServerTime api : Prog demoSig (Except DemoError HttpResponse)) := by
  unfold getServerTime
  split
  · exact ⟨trivial,fun _ => ⟨trivial,fun _ => trivial⟩⟩
  · exact ⟨trivial,fun _ => trivial⟩

theorem syncServerTime_apart :
    Prog.Only Apart (syncServerTime api lib : Prog demoSig (Except DemoError Unit)) := by
  refine Prog.Only.exceptBind ⟨trivial,fun _ => trivial⟩ (fun before => ?_)
  refine Prog.Only.exceptBind getServerTime_apart (fun response => ?_)
  refine Prog.Only.exceptBind trivial (fun json => ?_)
  refine Prog.Only.exceptBind ⟨trivial,fun _ => trivial⟩ (fun after => ?_)
  split
  · trivial
  · exact ⟨trivial,fun _ => ⟨trivial,fun _ => trivial⟩⟩

theorem resync_apart : Prog.Only Apart (resync api lib : Prog demoSig (Except DemoError Unit)) :=
  Prog.Only.exceptBind (Prog.Only.lift syncServerTime_apart) (fun _ => trivial)

theorem getTimestamp_apart :
    Prog.Only Apart (getTimestamp api lib : Prog demoSig (Except DemoError String)) := by
  have hstamp : Prog.Only Apart ((do
      let localTime ← systemTime
      let offset ← readOffset
      return toString (localTime + offset : Int) : DemoM String) :
        Prog demoSig (Except DemoError String)) :=
    Prog.Only.exceptBind ⟨trivial,fun _ => trivial⟩ (fun _ => ⟨trivial,fun _ => trivial⟩)
  refine ⟨trivial,fun elapsed => ?_⟩
  change Prog.Only Apart ((if elapsed > resyncAfter then _ else _ : DemoM String) : Prog demoSig _)
  split
  · exact Prog.Only.exceptBind resync_apart (fun _ => hstamp)
  · exact hstamp

/-- The top of one side of the book that was returned. -/
theorem topPrice_obeys (missing : String) (side : DemoDepth → List DemoLevel) :
    Prog.Obeys (Moves api lib)
      (Machine.Ends (fun _ => True) (fun p q => ∃ d, Ended s l d q ∧
        (side d).head?.map DemoLevel.price = some p))
      ((do let depth ← getOrderBookDepth api lib s l
           (topPrice missing (side depth) : DemoM Numeric.F64) : DemoM Numeric.F64) :
        Prog demoSig (Except DemoError Numeric.F64)) (some ((s,l),.looking)) := by
  refine Prog.Obeys.exceptBind getOrderBookDepth_obeys (fun d q hd => ?_)
  change Machine.Ends _ _ (topPrice missing (side d)) q
  cases htop : (side d).head? with
  | none => simp [topPrice,htop,Machine.Ends]
  | some level =>
    simp only [topPrice,htop,Machine.Ends]
    exact ⟨d,hd,by simp [htop]⟩

/-- The stage in which a call begins. -/
def outset (label : DemoCall) : Ghost := (key label).map (fun k => (k,.looking))

/-- A call about a book that succeeds is done with it. -/
def Results (label : DemoCall) (r : Except DemoError DemoReply) (q : Ghost) : Prop :=
  ∀ reply k, r = .ok reply → key label = some k → ∃ d, q = some (k,.done d) ∧ Delivers label reply d

theorem body_obeys (label : DemoCall) :
    (body api lib label).Obeys (Moves api lib) (Results label) (outset label) := by
  have hclock : ∀ (op : DemoOp) (r : op.Ans), Apart op → Moves api lib none op r none :=
    fun _ r h => .clock r h
  cases label with
  | syncServerTime =>
    exact Prog.Only.obeys hclock (Prog.Only.exceptBind syncServerTime_apart (fun _ => trivial))
      (fun r reply k _ hk => by cases hk)
  | getTimestamp =>
    exact Prog.Only.obeys hclock (Prog.Only.exceptBind getTimestamp_apart (fun _ => trivial))
      (fun r reply k _ hk => by cases hk)
  | getOrderBookDepth s l =>
    refine Prog.Obeys.bind getOrderBookDepth_obeys (fun r q h => ?_)
    cases r with
    | error e => exact fun reply k hr => by cases hr
    | ok d =>
      intro reply k hr hk
      cases hr
      cases hk
      exact ⟨d,h,rfl⟩
  | getBestBid s =>
    refine Prog.Obeys.bind (topPrice_obeys "No bids available in order book" DemoDepth.bids)
      (fun r q h => ?_)
    cases r with
    | error e => exact fun reply k hr => by cases hr
    | ok p =>
      intro reply k hr hk
      cases hr
      cases hk
      exact h
  | getBestAsk s =>
    refine Prog.Obeys.bind (topPrice_obeys "No asks available in order book" DemoDepth.asks)
      (fun r q h => ?_)
    cases r with
    | error e => exact fun reply k hr => by cases hr
    | ok p =>
      intro reply k hr hk
      cases hr
      cases hk
      exact h

end Obeys

section Steps

variable (api lib) in
/-- What holds of a call in its stage. -/
def Staged (w : DemoWorld) (n : Nat) (s : String) (l : Nat) : Stage → Prop
  | .looking | .failed => True
  | .fetching => Missed w.history n s l
  | .reading response => ∃ t, ⟨n,t,.get (api.depthUrl s (api.limit l)),.ok response⟩ ∈ w.history ∧
    t ≤ w.now
  | .inserting depth => Fetched api lib w.history s l n depth w.now
  | .done depth => Sourced api lib w.history n s l depth

variable (api) in
/-- The call asks for its book only, and only after it missed. -/
def Asked (history : List DemoServed) (n : Nat) (s : String) (l : Nat) : Prop :=
  ∀ t url r, ⟨n,t,.get url,r⟩ ∈ history → url = api.depthUrl s (api.limit l) ∧ Missed history n s l

variable (api lib) in
/-- The cache, what was served, and where the calls stand. -/
structure Kept (w : DemoWorld) (ghosts : List Ghost) : Prop where
  past : ∀ e ∈ w.history, e.instant ≤ w.now
  callers : ∀ e ∈ w.history, e.caller < ghosts.length
  books : ∀ s l, w.books s l = (inserts s l w.history).getLast?
  newest : ∀ {s l b}, w.books s l = some b → ∀ old ∈ inserts s l w.history,
    old.cachedAt ≤ b.cachedAt
  fetched : ∀ {c t s l d}, ⟨c,t,.insertBook s l d,()⟩ ∈ w.history →
    Fetched api lib w.history s l c d t
  asked : ∀ {n s l stage}, ghosts[n]? = some (some ((s,l),stage)) → Asked api w.history n s l
  staged : ∀ {n s l stage}, ghosts[n]? = some (some ((s,l),stage)) → Staged api lib w n s l stage

variable {w w' : DemoWorld} {ghosts : List Ghost} {n : Nat} {s : String} {l : Nat} {stage : Stage}
  {e : DemoServed}

theorem Staged.later (h : Staged api lib w n s l stage) (hh : w'.history = w.history ++ [e])
    (hle : w.now ≤ w'.now) : Staged api lib w' n s l stage := by
  cases stage with
  | looking | failed => trivial
  | fetching =>
    unfold Staged at h ⊢
    rw [hh]
    exact h.append
  | reading response =>
    obtain ⟨t,hget,ht⟩ := h
    exact ⟨t,by rw [hh]; exact List.mem_append_left _ hget,ht.trans hle⟩
  | inserting depth =>
    obtain ⟨t,response,hget,ht,hparse⟩ := h
    exact ⟨t,response,by rw [hh]; exact List.mem_append_left _ hget,ht.trans hle,hparse⟩
  | done depth =>
    unfold Staged at h ⊢
    rw [hh]
    exact h.append

/-- Another call's request, or one that is no response, leaves what was asked alone. -/
theorem Asked.later (h : Asked api w.history n s l) (hh : w'.history = w.history ++ [e])
    (he : e.caller ≠ n ∨ ∀ url, e.op ≠ .get url) : Asked api w'.history n s l := by
  intro t url r hget
  rw [hh] at hget ⊢
  rcases List.mem_append.mp hget with hget | hget
  · obtain ⟨hurl,hmissed⟩ := h t url r hget
    exact ⟨hurl,hmissed.append⟩
  · cases List.mem_singleton.mp hget
    simp at he

/-- A call that missed asks for its book. -/
theorem Asked.ask (h : Asked api w.history n s l) (hm : Missed w.history n s l)
    (hh : w'.history = w.history ++ [e])
    (he : ∀ url, e.op = .get url → url = api.depthUrl s (api.limit l)) :
    Asked api w'.history n s l := by
  intro t url r hget
  rw [hh] at hget ⊢
  rcases List.mem_append.mp hget with hget | hget
  · exact ⟨(h t url r hget).1,hm.append⟩
  · exact ⟨he url (by rw [← List.mem_singleton.mp hget]),hm.append⟩

variable {q q' : Ghost}

theorem kept_new (start : Nat) : Kept api lib (.new start) [] where
  past e he := by cases he
  callers e he := by cases he
  books s l := rfl
  newest h := by cases h
  fetched h := by cases h
  asked h := by cases h
  staged h := by cases h

/-- One more request was served. -/
theorem Kept.append (h : Kept api lib w ghosts) (hq : ghosts[e.caller]? = some q)
    (hh : w'.history = w.history ++ [e]) (hi : e.instant = w'.now) (hle : w.now ≤ w'.now)
    (hbooks : ∀ s l, w'.books s l = (inserts s l w'.history).getLast?)
    (hfetched : ∀ s l d, e.op = .insertBook s l d →
    Fetched api lib w.history s l e.caller d e.instant)
    (hown : ∀ s l stage, q' = some ((s,l),stage) → Asked api w'.history e.caller s l ∧
    Staged api lib w' e.caller s l stage) : Kept api lib w' (ghosts.set e.caller q') := by
  have hpast : ∀ f ∈ w'.history, f.instant ≤ w'.now := by
    intro f hf
    rw [hh] at hf
    rcases List.mem_append.mp hf with hf | hf
    · exact (h.past f hf).trans hle
    · rw [List.mem_singleton.mp hf,hi]
  constructor
  case past => exact hpast
  case callers =>
    intro f hf
    rw [List.length_set]
    rw [hh] at hf
    rcases List.mem_append.mp hf with hf | hf
    · exact h.callers f hf
    · rw [List.mem_singleton.mp hf]
      exact (List.getElem?_eq_some_iff.mp hq).1
  case books => exact hbooks
  case newest =>
    intro s l b hb old hold
    have hlast : old.cachedAt ≤ w'.now := by
      obtain ⟨c,hc⟩ := mem_inserts hold
      exact hpast _ hc
    rw [hbooks,hh,inserts_append] at hb
    rw [hh,inserts_append] at hold
    rcases hnew : inserts s l [e] with _ | ⟨b',_⟩
    · simp only [hnew,List.append_nil] at hb hold
      exact h.newest ((h.books s l).trans hb) old hold
    · obtain ⟨c,hc⟩ := mem_inserts
        (hnew ▸ List.mem_of_getLast? (by simpa [hnew] using hb) : b ∈ inserts s l [e])
      rw [← List.mem_singleton.mp hc] at hi
      exact hlast.trans (Nat.le_of_eq hi.symm)
  case fetched =>
    intro c t s l d hinsert
    rw [hh] at hinsert ⊢
    rcases List.mem_append.mp hinsert with hold | hnew
    · exact (h.fetched hold).append
    · have he := List.mem_singleton.mp hnew
      have := hfetched s l d (by rw [← he])
      rw [← he] at this
      exact this.append
  case asked =>
    intro k s l stage hk
    rcases (Pool.ghost_set hq).mp hk with ⟨rfl,hq'⟩ | ⟨hne,hk⟩
    · exact (hown s l stage hq'.symm).1
    · exact (h.asked hk).later hh (.inl (Ne.symm hne))
  case staged =>
    intro k s l stage hk
    rcases (Pool.ghost_set hq).mp hk with ⟨rfl,hq'⟩ | ⟨hne,hk⟩
    · exact (hown s l stage hq'.symm).2
    · exact (h.staged hk).later hh hle

section Serve

variable {op : DemoOp}

/-- A request that puts nothing into the cache. -/
theorem Kept.serve (h : Kept api lib w ghosts) (hq : ghosts[n]? = some q)
    (hop : ∀ s l d, op ≠ .insertBook s l d)
    (hown : ∀ s l stage, q' = some ((s,l),stage) →
    Asked api ((machine env n).serve op w).2.history n s l ∧
    Staged api lib ((machine env n).serve op w).2 n s l stage) :
    Kept api lib ((machine env n).serve op w).2 (ghosts.set n q') := by
  refine Kept.append h hq serve_history serve_now.symm (by simp [serve_now]) (fun s l => ?_)
    (fun s l d he => absurd he (hop s l d)) hown
  have hnone : inserts s l
      [⟨n,w.now + (env.move w.tick).delay,op,((machine env n).serve op w).1⟩] = [] := by
    cases op <;> first | rfl | exact absurd rfl (hop _ _ _)
  rw [serve_books hop,serve_history,inserts_append,hnone,List.append_nil]
  exact h.books s l

/-- What a lookup finds is the book that was put there last. -/
theorem Kept.found (h : Kept api lib w ghosts) {d : DemoDepth} {age : Nat}
    (hans : ((machine env n).serve (.lookupBook s l) w).1 = some (d,age)) :
    ∃ caller instant, w.books s l = some ⟨d,instant⟩ ∧
      ⟨caller,instant,.insertBook s l d,()⟩ ∈ w.history ∧
      instant ≤ w.now ∧ age = ((machine env n).serve (.lookupBook s l) w).2.now - instant := by
  obtain ⟨⟨depth,instant⟩,hb,hd⟩ := Option.map_eq_some_iff.mp hans
  cases hd
  have hlast := h.books s l
  obtain ⟨caller,hcaller⟩ := mem_inserts (List.mem_of_getLast? (hlast.symm.trans hb))
  exact ⟨caller,instant,hb,hcaller,h.past _ hcaller,rfl⟩

/-- Every book of a key that is kept no more, or for too long, is too old. -/
theorem Kept.missed (h : Kept api lib w ghosts)
    (hold : ∀ b, w.books s l = some b →
      b.cachedAt + orderBookCacheTtl ≤ ((machine env n).serve (.lookupBook s l) w).2.now) :
    Missed ((machine env n).serve (.lookupBook s l) w).2.history n s l := by
  refine ⟨w.history,[],_,_,serve_history,fun book hbook => ?_⟩
  cases hb : w.books s l with
  | none =>
    rw [h.books,List.getLast?_eq_none_iff] at hb
    simp [hb] at hbook
  | some b => exact (Nat.add_le_add_right (h.newest hb book hbook) _).trans (hold b hb)

/-- A call puts its book into the cache. -/
theorem Kept.insert (h : Kept api lib w ghosts) {d : DemoDepth}
    (hq : ghosts[n]? = some (some ((s,l),.inserting d))) :
    Kept api lib ((machine env n).serve (.insertBook s l d) w).2
      (ghosts.set n (some ((s,l),.done d))) := by
  obtain ⟨t,r,hget,hle,hparse⟩ := h.staged hq
  have hlater : w.now ≤ ((machine env n).serve (.insertBook s l d) w).2.now := by simp [serve_now]
  have hfetched : Fetched api lib w.history s l n d (w.now + (env.move w.tick).delay) :=
    ⟨t,r,hget,hle.trans (Nat.le_add_right ..),hparse⟩
  refine Kept.append h hq serve_history serve_now.symm hlater (fun s' l' => ?_)
    (fun s' l' d' he => ?_)
    (fun s' l' stage hs => ?_)
  · rw [serve_history,inserts_append]
    by_cases hk : s = s' ∧ l = l'
    · obtain ⟨rfl,rfl⟩ := hk
      simp [inserts,machine,DemoWorld.serve,DemoWorld.answer,DemoWorld.wait]
    · have hk' : ¬ (s' = s ∧ l' = l) := fun hc => hk ⟨hc.1.symm,hc.2.symm⟩
      have hnone : ∀ t, inserts s' l' [⟨n,t,.insertBook s l d,()⟩] = [] :=
        fun t => by simp [inserts,hk]
      rw [hnone,List.append_nil]
      exact (if_neg hk').trans (h.books s' l')
  · cases he
    exact hfetched
  · cases hs
    refine ⟨(h.asked hq).later serve_history (.inr (by simp)),n,w.now + (env.move w.tick).delay,?_,
      ?_,.inl rfl⟩
    · rw [serve_history]
      exact List.mem_append_right _ (List.mem_singleton.mpr rfl)
    · rw [serve_history]
      exact hfetched.append

/-- The next request of a call about a book. -/
theorem kept_step (h : Kept api lib w ghosts) (hq : ghosts[n]? = some q)
    (hm : Moves api lib q op ((machine env n).serve op w).1 q') :
    Kept api lib ((machine env n).serve op w).2 (ghosts.set n q') := by
  have hlater : w.now ≤ ((machine env n).serve op w).2.now := by simp [serve_now]
  generalize hans : ((machine env n).serve op w).1 = ans at hm
  cases hm with
  | @hit s l d age hage =>
    refine h.serve hq (by simp) (fun s' l' stage hs => ?_)
    cases hs
    refine ⟨(h.asked hq).later serve_history (.inr (by simp)),?_⟩
    obtain ⟨caller,instant,hb,hinsert,hle,hage'⟩ := h.found hans
    have hfetched := h.fetched hinsert
    refine ⟨caller,instant,?_,?_,
      .inr ⟨((machine env n).serve (.lookupBook s l) w).2.now,?_,hle.trans hlater,?_⟩⟩
    · rw [serve_history]
      exact List.mem_append_left _ hinsert
    · rw [serve_history]
      exact hfetched.append
    · rw [serve_history,← hage',← hans]
      simp [serve_now]
    · omega
  | @stale s l d age hage =>
    refine h.serve hq (by simp) (fun s' l' stage hs => ?_)
    cases hs
    refine ⟨(h.asked hq).later serve_history (.inr (by simp)),h.missed (fun b hb => ?_)⟩
    obtain ⟨caller,instant,hb',hinsert,hle,hage'⟩ := h.found hans
    cases hb.symm.trans hb'
    have hlater' := hle.trans hlater
    change instant + orderBookCacheTtl ≤ _
    omega
  | @absent s l =>
    refine h.serve hq (by simp) (fun s' l' stage hs => ?_)
    cases hs
    refine ⟨(h.asked hq).later serve_history (.inr (by simp)),h.missed (fun b hb => ?_)⟩
    have hnone := Option.map_eq_none_iff.mp hans
    cases hb.symm.trans hnone
  | @answered s l r =>
    refine h.serve hq (by simp) (fun s' l' stage hs => ?_)
    cases hs
    refine ⟨(h.asked hq).ask (h.staged hq) serve_history (by simp),
      w.now + (env.move w.tick).delay,?_,?_⟩
    · rw [serve_history,hans]
      simp
    · rw [serve_now]
  | @unanswered s l e =>
    refine h.serve hq (by simp) (fun s' l' stage hs => ?_)
    cases hs
    exact ⟨(h.asked hq).ask (h.staged hq) serve_history (by simp),trivial⟩
  | @stamped s l r bids asks ts hparse =>
    refine h.serve hq (by simp) (fun s' l' stage hs => ?_)
    cases hs
    obtain ⟨t,hget,hle⟩ := h.staged hq
    refine ⟨(h.asked hq).later serve_history (.inr (by simp)),t,r,?_,hle.trans hlater,hparse⟩
    rw [serve_history]
    exact List.mem_append_left _ hget
  | @unstamped s l r e =>
    refine h.serve hq (by simp) (fun s' l' stage hs => ?_)
    cases hs
    exact ⟨(h.asked hq).later serve_history (.inr (by simp)),trivial⟩
  | @inserted s l d u =>
    exact h.insert hq
  | clock r hop =>
    refine h.serve hq (fun s l d he => ?_) (fun s l stage hs => by cases hs)
    subst he
    exact hop

end Serve

/-- A call begins. -/
theorem kept_start (h : Kept api lib w ghosts) (label : DemoCall) :
    Kept api lib w (ghosts ++ [outset label]) := by
  have hnew : ∀ {n s l stage}, (ghosts ++ [outset label])[n]? = some (some ((s,l),stage)) →
      (n = ghosts.length ∧ stage = .looking) ∨ ghosts[n]? = some (some ((s,l),stage)) := by
    intro n s l stage hn
    rcases Pool.ghost_new.mp hn with ⟨hlen,hlabel⟩ | hold
    · cases hk : key label with
      | none => simp [outset,hk] at hlabel
      | some k =>
        simp only [outset,hk,Option.map_some,Option.some.injEq,Prod.mk.injEq] at hlabel
        exact .inl ⟨hlen,hlabel.2⟩
    · exact .inr hold
  refine ⟨h.past,fun e he => ?_,h.books,h.newest,h.fetched,fun hn => ?_,fun hn => ?_⟩
  · simpa using Nat.lt_succ_of_lt (h.callers e he)
  · rcases hnew hn with ⟨rfl,_⟩ | hold
    · intro t url r hget
      exact absurd (h.callers _ hget) (Nat.lt_irrefl _)
    · exact h.asked hold
  · rcases hnew hn with ⟨_,rfl⟩ | hold
    · trivial
    · exact h.staged hold

end Steps

section Runs

/-- The calls keep the key they began with. -/
def Labelled (calls : List (Call DemoCall demoSig (Except DemoError DemoReply)))
    (ghosts : List Ghost) : Prop :=
  ∀ (n : Nat) c q, calls[n]? = some c → ghosts[n]? = some q → q.map Prod.fst = key c.label

theorem moves_key {q q' : Ghost} {op : DemoOp} {r : op.Ans} (h : Moves api lib q op r q') :
    q'.map Prod.fst = q.map Prod.fst := by
  cases h <;> rfl

variable {calls : List (Call DemoCall demoSig (Except DemoError DemoReply))} {ghosts : List Ghost}

theorem Labelled.start (h : Labelled calls ghosts) (hlen : calls.length = ghosts.length)
    (label : DemoCall) (rest : Prog demoSig (Except DemoError DemoReply)) :
    Labelled (calls ++ [⟨label,rest⟩]) (ghosts ++ [outset label]) := by
  intro n c q hc hq
  rcases Pool.ghost_new.mp hc with ⟨hn,rfl⟩ | hc
  · rcases Pool.ghost_new.mp hq with ⟨_,rfl⟩ | hq
    · cases hk : key label <;> simp [outset,hk]
    · have := (List.getElem?_eq_some_iff.mp hq).1
      omega
  · rcases Pool.ghost_new.mp hq with ⟨hn,rfl⟩ | hq
    · have := (List.getElem?_eq_some_iff.mp hc).1
      omega
    · exact h n c q hc hq

theorem Labelled.step {n : Nat} {label : DemoCall}
    {old rest : Prog demoSig (Except DemoError DemoReply)} {q q' : Ghost}
    (h : Labelled calls ghosts) (hc : calls[n]? = some ⟨label,old⟩) (hq : ghosts[n]? = some q)
    (hk : q'.map Prod.fst = q.map Prod.fst) :
    Labelled (calls.set n ⟨label,rest⟩) (ghosts.set n q') := by
  intro k c p hc' hp
  rcases (Pool.ghost_set hc).mp hc' with ⟨rfl,rfl⟩ | ⟨hne,hc'⟩
  · rcases (Pool.ghost_set hq).mp hp with ⟨_,rfl⟩ | ⟨hne,_⟩
    · have hkey := h k _ q hc hq
      exact hk.trans hkey
    · exact absurd rfl hne
  · rcases (Pool.ghost_set hq).mp hp with ⟨he,_⟩ | ⟨_,hp⟩
    · exact absurd he hne
    · exact h k c p hc' hp

variable (api lib env) in
theorem run_kept (start : Nat) (acts : List (Act DemoCall)) :
    ∃ ghosts, Pool.Tracked (Moves api lib) Results (run api lib env start acts) ghosts ∧
      Kept api lib (run api lib env start acts).shared ghosts ∧
      Labelled (run api lib env start acts).calls ghosts := by
  refine Pool.run_tracked (C := fun _ _ => True)
    (J := fun s gs => Kept api lib s.shared gs ∧ Labelled s.calls gs) ?_ ?_
      (Pool.meets_true _ _ _ _)
    (Pool.tracked_new _) ⟨kept_new start,fun n c q hc => by simp at hc⟩
  · intro s gs label _ ht hj
    exact ⟨_,body_obeys label,kept_start hj.1 label,hj.2.start ht.length_eq label _⟩
  · intro s gs n label op next q q' _ _ hj hc hq hm
    exact ⟨kept_step hj.1 hq hm,hj.2.step hc hq (moves_key hm)⟩

variable {start : Nat} {acts : List (Act DemoCall)} {n : Nat}
  {c : Call DemoCall demoSig (Except DemoError DemoReply)}
  {s : String} {l : Nat}

theorem parseSide_length {missing field : String} {json : Json} {side : List DemoLevel}
    (h : parseSide l missing field json = .ok side) : side.length ≤ l := by
  unfold parseSide at h
  split at h
  · cases h
    exact (List.length_filterMap_le ..).trans (List.length_take_le ..)
  · cases h

/-- A book has no more levels than were asked for. -/
theorem parseBook_length {response : HttpResponse} {bids asks : List DemoLevel}
    (h : parseBook api lib l response = .ok (bids,asks)) : bids.length ≤ l ∧ asks.length ≤ l := by
  simp only [parseBook,bind,Except.bind,pure,Except.pure,throw,throwThe,MonadExceptOf.throw] at h
  repeat' split at h
  all_goals try contradiction
  rename_i hbids _ _ hasks
  cases h
  exact ⟨parseSide_length hbids,parseSide_length hasks⟩

/-- Whatever a call about a book replies is read off a book, of no more levels than asked for, that
some call of the run asked for. The call has asked for it itself, or it was put into the cache less
than 100 milliseconds before the call looked there. -/
theorem replies_are_fresh (hc : (run api lib env start acts).calls[n]? = some c)
    (hk : key c.label = some (s,l)) {reply : DemoReply} (hr : c.result = some (.ok reply)) :
    ∃ depth, Delivers c.label reply depth ∧ depth.bids.length ≤ l ∧ depth.asks.length ≤ l ∧
      Sourced api lib (run api lib env start acts).shared.history n s l depth := by
  obtain ⟨ghosts,ht,hkept,_⟩ := run_kept api lib env start acts
  obtain ⟨q,hq,hresult⟩ := ht.result hc hr
  obtain ⟨depth,rfl,hd⟩ := hresult reply (s,l) rfl hk
  have hsource : Sourced api lib _ n s l depth := hkept.staged hq
  obtain ⟨caller,instant,_,⟨_,_,_,_,hparse⟩,_⟩ := id hsource
  obtain ⟨hbids,hasks⟩ := parseBook_length hparse
  exact ⟨depth,hd,hbids,hasks,hsource⟩

/-- A call about a book asks the exchange for that book only, and only after it found none in the
cache that had been put there less than 100 milliseconds before. -/
theorem asks_when_expired (hc : (run api lib env start acts).calls[n]? = some c)
    (hk : key c.label = some (s,l)) {t : Nat} {url : String} {r : Except DemoError HttpResponse}
    (hget : ⟨n,t,.get url,r⟩ ∈ (run api lib env start acts).shared.history) :
    url = api.depthUrl s (api.limit l) ∧
      Missed (run api lib env start acts).shared.history n s l := by
  obtain ⟨ghosts,ht,hkept,hlabel⟩ := run_kept api lib env start acts
  obtain ⟨q,hq⟩ := ht.ghost hc
  have hkey := hlabel n c q hc hq
  rw [hk] at hkey
  obtain ⟨⟨k,stage⟩,rfl,hk'⟩ := Option.map_eq_some_iff.mp hkey
  cases hk'
  exact hkept.asked hq t url r hget

end Runs

section Example

/-- One level on each side of Bybit's book. -/
def oneLevelLib : Library where
  fromStr := fun _ => some (.obj [("retCode",.number "0"),
    ("result",.obj [("b",.arr [.arr [.str "100",.str "2"]]),
      ("a",.arr [.arr [.str "101",.str "3"]])])])
  toUppercase := id

/-- Every request takes sixty milliseconds. -/
def steadyEnv : DemoEnv where
  move := fun _ => ⟨60 * 10^6,.ok ⟨"200 OK",true,""⟩⟩
  systemClock := fun t => t / 10^6

/-- A call that fetches the book, one that finds it, and one that comes too late for that. -/
def threeCalls : List (Act DemoCall) :=
  [.start (.getBestBid "BTCUSDT"),.step 0,.step 0,.step 0,.step 0,
    .start (.getOrderBookDepth "BTCUSDT" 5),.step 1,.start (.getBestAsk "BTCUSDT"),.step 2,.step 2]

/-- The calls of this run. -/
def exampleRun : Calls := run bybitDemo oneLevelLib steadyEnv 0 threeCalls

theorem second_call_is_fresh :
    ∃ depth, Delivers (.getOrderBookDepth "BTCUSDT" 5) (.depth depth) depth ∧
    depth.bids.length ≤ 5 ∧ depth.asks.length ≤ 5 ∧
    Sourced bybitDemo oneLevelLib exampleRun.shared.history 1 "BTCUSDT" 5 depth := by
  have hc : (run bybitDemo oneLevelLib steadyEnv 0 threeCalls).calls[1]? = some _ := rfl
  obtain ⟨depth,_,h⟩ := replies_are_fresh hc rfl rfl
  exact ⟨depth,rfl,h⟩

theorem third_call_asks : Missed exampleRun.shared.history 2 "BTCUSDT" 5 := by
  have hc : (run bybitDemo oneLevelLib steadyEnv 0 threeCalls).calls[2]? = some _ := rfl
  have hget : _ ∈ (run bybitDemo oneLevelLib steadyEnv 0 threeCalls).shared.history :=
    List.mem_of_getElem? (show _[6]? = some _ from rfl)
  exact (asks_when_expired hc rfl hget).2

end Example

end SpreadArb.Proofs.BookCache
