import SpreadArb.BinanceOrders

namespace SpreadArb.Proofs.Placements
open Interact Numeric BinanceDemoClient

variable {kit : BinanceKit} {label : BinanceCall} {α β : Type}

/-- A request that changes something at Binance. -/
def changes : BinanceOp → Bool
  | .post _ | .delete _ => true
  | _ => false

/-- A call that has not changed anything yet. -/
def Quiet (q : List (Own binanceSig)) : Prop := ∀ e ∈ q, changes e.1 = false

/-- The list of symbols in a response gives a symbol this precision. -/
def Lists (kit : BinanceKit) (symbol : String) (precision : SymbolPrecision)
    (response : HttpResponse) : Prop :=
  ∃ json sym, DemoClient.decode kit.lib response.text = .ok json ∧
    findSymbol json symbol = some sym ∧
    precision = readPrecision sym

/-- A call has got the list itself. -/
def Heard (kit : BinanceKit) (q : List (Own binanceSig)) (symbol : String)
    (precision : SymbolPrecision) : Prop :=
  ∃ response : HttpResponse, ⟨.demo (.get exchangeInfoUrl),.ok response⟩ ∈ q ∧
    Lists kit symbol precision response

/-- A call has found the precision in the cache, or has got the list itself. -/
def Knows (kit : BinanceKit) (q : List (Own binanceSig)) (symbol : String)
    (precision : SymbolPrecision) : Prop :=
  ⟨.lookupPrecision symbol,some precision⟩ ∈ q ∨ Heard kit q symbol precision

/-- The change that a call is for. -/
def Meant (kit : BinanceKit) (known : String → SymbolPrecision → Prop) :
    BinanceCall → BinanceOp → Prop
  | .placeOrder order, op => ∃ precision timestamp, known order.symbol precision ∧
    op = .post (signedUrl kit "/fapi/v1/order" (limitQuery kit order precision timestamp))
  | .placeMarketOrder order, op => ∃ precision timestamp, known order.symbol precision ∧
    op = .post (signedUrl kit "/fapi/v1/order" (marketQuery kit order precision timestamp))
  | .setLeverage symbol, op =>
    ∃ timestamp, op = .post (signedUrl kit "/fapi/v1/leverage" (leverageQuery symbol timestamp))
  | .setMarginTypeIsolated symbol, op =>
    ∃ timestamp, op = .post (signedUrl kit "/fapi/v1/marginType" (marginQuery symbol timestamp))
  | .cancelOrder id symbol, op =>
    ∃ timestamp, op = .delete (signedUrl kit "/fapi/v1/order" (orderQuery id symbol timestamp))
  | _, _ => False

theorem Meant.mono {known known' : String → SymbolPrecision → Prop} {op : BinanceOp}
    (h : Meant kit known label op)
    (hk : ∀ symbol precision, known symbol precision → known' symbol precision) :
    Meant kit known' label op := by
  cases label with
  | placeOrder order =>
    obtain ⟨precision,timestamp,hknown,hop⟩ := h
    exact ⟨precision,timestamp,hk _ _ hknown,hop⟩
  | placeMarketOrder order =>
    obtain ⟨precision,timestamp,hknown,hop⟩ := h
    exact ⟨precision,timestamp,hk _ _ hknown,hop⟩
  | setLeverage symbol => exact h
  | setMarginTypeIsolated symbol => exact h
  | cancelOrder id symbol => exact h
  | demo call => exact h
  | getSymbolPrecision symbol => exact h
  | isSymbolTradeable symbol => exact h
  | getOrderStatus id symbol => exact h
  | getOrderStatusDetailed id symbol => exact h
  | getBalance => exact h

/-- A call changes only what it is for, and that once. What it puts into the cache it has got from
Binance. -/
structure Allowed (kit : BinanceKit) (label : BinanceCall) (q : List (Own binanceSig))
    (op : BinanceOp) : Prop where
  change : changes op = true → Quiet q ∧ Meant kit (Knows kit q) label op
  insert : ∀ symbol precision, op = .insertPrecision symbol precision → Heard kit q symbol precision

section Requests

/-- A request that is always allowed. -/
def Free : BinanceOp → Prop
  | .post _ | .delete _ | .insertPrecision .. => False
  | _ => True

theorem Free.quiet {op : BinanceOp} (h : Free op) : changes op = false := by
  cases op with
  | post url => exact h.elim
  | delete url => exact h.elim
  | _ => rfl

theorem Free.allowed {q : List (Own binanceSig)} {op : BinanceOp} (h : Free op) :
    Allowed kit label q op where
  change hop := by simp [h.quiet] at hop
  insert symbol precision hop := by
    subst hop
    exact h.elim

theorem Quiet.append {q mid : List (Own binanceSig)} (h : Quiet q) (hmid : Quiet mid) :
    Quiet (q ++ mid) := by
  intro e he
  obtain he | he := List.mem_append.mp he
  · exact h e he
  · exact hmid e he

theorem Quiet.concat {q : List (Own binanceSig)} (h : Quiet q) (op : BinanceOp)
    (hop : changes op = false) (r : op.Ans) :
    Quiet (q ++ [⟨op,r⟩]) := h.append (by simpa [Quiet] using hop)

/-- This has been changed, and nothing else. -/
def Changed (before : List (Own binanceSig)) (op : BinanceOp) (r : op.Ans)
    (q : List (Own binanceSig)) : Prop :=
  Quiet before ∧ ∃ after, q = before ++ ⟨op,r⟩ :: after ∧ Quiet after

/-- What is known of a call. -/
def At (label : BinanceCall) (I : List (Own binanceSig) → Prop)
    (s : BinanceCall × List (Own binanceSig)) : Prop :=
  s.1 = label ∧ I s.2

/-- A program that changes nothing keeps what is known of a call. -/
theorem free_obeys {I : List (Own binanceSig) → Prop}
    (hkeep : ∀ q mid, I q → Quiet mid → I (q ++ mid)) {p : Prog binanceSig α} (hp : p.Only Free)
    {s : BinanceCall × List (Own binanceSig)} (hs : At label I s) :
    p.Obeys (Told (Allowed kit)) (fun _ => At label I) s := by
  obtain ⟨label',q⟩ := s
  obtain ⟨rfl,hq⟩ := hs
  refine Prog.Obeys.mono (Prog.Only.told (K := Free) (fun _ _ h => h.allowed) hp q) ?_
  rintro a s ⟨mid,rfl,hmid⟩
  exact ⟨rfl,hkeep q mid hq (fun e he => (hmid e he).quiet)⟩

theorem Changed.append {before q : List (Own binanceSig)} {op : BinanceOp} {r : op.Ans}
    (h : Changed before op r q) {mid : List (Own binanceSig)} (hmid : Quiet mid) :
    Changed before op r (q ++ mid) := by
  obtain ⟨hbefore,after,rfl,hafter⟩ := h
  exact ⟨hbefore,after ++ mid,by simp,hafter.append hmid⟩

theorem demo_free (x : DemoM α) : Prog.Only Free (demo x : Prog binanceSig (Except DemoError α)) :=
  Prog.Only.embed (K := fun _ => True) (fun _ _ => trivial) (Machine.only_true _)

theorem rateLimitedGet_free (url : String) :
    Prog.Only Free (rateLimitedGet url : Prog binanceSig (Except DemoError HttpResponse)) :=
      demo_free _

theorem rateLimitedGetWithKey_free (url : String) :
    Prog.Only Free (rateLimitedGetWithKey url : Prog binanceSig (Except DemoError HttpResponse)) :=
  Prog.Only.exceptBind (demo_free _) (fun _ => ⟨trivial,fun _ => trivial⟩)

theorem getTimestamp_free :
    Prog.Only Free (getTimestamp kit : Prog binanceSig (Except DemoError String)) := demo_free _

theorem ofExcept_free (x : Except DemoError α) :
    Prog.Only Free ((x : BinanceM α) : Prog binanceSig (Except DemoError α)) := by
  cases x with
  | ok a => trivial
  | error e => trivial

theorem askOrder_free (id symbol : String) :
    Prog.Only Free (askOrder kit id symbol : Prog binanceSig (Except DemoError HttpResponse)) :=
  Prog.Only.exceptBind getTimestamp_free (fun _ => rateLimitedGetWithKey_free _)

theorem getOrderStatus_free (id symbol : String) :
    Prog.Only Free (getOrderStatus kit id symbol : Prog binanceSig
      (Except DemoError OrderStatus)) := by
  refine Prog.Only.exceptBind (askOrder_free id symbol) (fun response => ?_)
  refine Prog.Only.exceptBind (ofExcept_free _) (fun json => ?_)
  split
  · trivial
  · trivial

theorem getOrderStatusDetailed_free (id symbol : String) :
    Prog.Only Free (getOrderStatusDetailed kit id symbol : Prog binanceSig
      (Except DemoError DemoOrderInfo)) := by
  refine Prog.Only.exceptBind (askOrder_free id symbol) (fun response => ?_)
  refine Prog.Only.exceptBind (ofExcept_free _) (fun json => ?_)
  dsimp only
  split
  · trivial
  · trivial

theorem isSymbolTradeable_free (symbol : String) :
    Prog.Only Free (isSymbolTradeable kit symbol : Prog binanceSig (Except DemoError Bool)) := by
  refine Prog.Only.exceptBind (rateLimitedGet_free _) (fun response => ?_)
  exact Prog.Only.exceptBind (ofExcept_free _) (fun json => trivial)

theorem getBalance_free :
    Prog.Only Free (getBalance kit : Prog binanceSig (Except DemoError F64)) := by
  refine Prog.Only.exceptBind getTimestamp_free (fun timestamp => ?_)
  refine Prog.Only.exceptBind (rateLimitedGetWithKey_free _) (fun response => ?_)
  split
  · trivial
  split
  · trivial
  exact Prog.Only.exceptBind (ofExcept_free _) (fun json => ofExcept_free _)

end Requests

section Calls

theorem Heard.append {q : List (Own binanceSig)} {symbol : String} {precision : SymbolPrecision}
    (h : Heard kit q symbol precision) (mid : List (Own binanceSig)) :
    Heard kit (q ++ mid) symbol precision := by
  obtain ⟨response,hin,hlists⟩ := h
  exact ⟨response,List.mem_append_left _ hin,hlists⟩

theorem Knows.append {q : List (Own binanceSig)} {symbol : String} {precision : SymbolPrecision}
    (h : Knows kit q symbol precision) (mid : List (Own binanceSig)) :
    Knows kit (q ++ mid) symbol precision := by
  obtain hcached | hheard := h
  · exact .inl (List.mem_append_left _ hcached)
  · exact .inr (hheard.append mid)

/-- A request waits for the rate limiter first. -/
theorem rateLimited_obeys {x : BinanceM HttpResponse} {q : List (Own binanceSig)}
    {R : Except DemoError HttpResponse → BinanceCall × List (Own binanceSig) → Prop}
    (hx : Prog.Obeys (Told (Allowed kit)) R (x : Prog binanceSig (Except DemoError HttpResponse))
      (label,q ++ [⟨.demo .acquire,()⟩])) :
    Prog.Obeys (Told (Allowed kit)) R
      (rateLimited x : Prog binanceSig (Except DemoError HttpResponse)) (label,q) := by
  intro u
  exact ⟨_,⟨rfl,Free.allowed trivial⟩,hx⟩

theorem acquire_quiet {q : List (Own binanceSig)} (h : Quiet q) :
    Quiet (q ++ [⟨.demo .acquire,()⟩]) :=
  h.concat (.demo .acquire) rfl ()

theorem post_obeys {url : String} {q : List (Own binanceSig)} (hq : Quiet q)
    (hmeant : Meant kit (Knows kit q) label (.post url)) :
    Prog.Obeys (Told (Allowed kit))
      (fun r => At label (Changed (q ++ [⟨.demo .acquire,()⟩]) (.post url) r))
      (rateLimitedPost url : Prog binanceSig (Except DemoError HttpResponse)) (label,q) := by
  apply rateLimited_obeys
  intro r
  refine ⟨_,⟨rfl,⟨?_,by simp⟩⟩,rfl,acquire_quiet hq,[],rfl,by simp [Quiet]⟩
  intro _
  exact ⟨acquire_quiet hq,hmeant.mono (fun symbol precision h => h.append _)⟩

theorem delete_obeys {url : String} {q : List (Own binanceSig)} (hq : Quiet q)
    (hmeant : Meant kit (Knows kit q) label (.delete url)) :
    Prog.Obeys (Told (Allowed kit))
      (fun r => At label (Changed (q ++ [⟨.demo .acquire,()⟩]) (.delete url) r))
      (rateLimitedDelete url : Prog binanceSig (Except DemoError HttpResponse)) (label,q) := by
  apply rateLimited_obeys
  intro r
  refine ⟨_,⟨rfl,⟨?_,by simp⟩⟩,rfl,acquire_quiet hq,[],rfl,by simp [Quiet]⟩
  intro _
  exact ⟨acquire_quiet hq,hmeant.mono (fun symbol precision h => h.append _)⟩

/-- The precision comes from the cache or from a list of the exchange's, which is then put into the
cache. -/
theorem getSymbolPrecision_obeys (symbol : String) {q : List (Own binanceSig)} (hq : Quiet q) :
    Prog.Obeys (Told (Allowed kit)) (Machine.Ends (fun _ => True)
      (fun precision => At label (fun q => Quiet q ∧ Knows kit q symbol precision)))
      (getSymbolPrecision kit symbol : Prog binanceSig (Except DemoError SymbolPrecision))
        (label,q) := by
  intro found
  refine ⟨_,⟨rfl,Free.allowed trivial⟩,?_⟩
  have hlooked : Quiet (q ++ [⟨.lookupPrecision symbol,found⟩]) :=
    hq.concat (.lookupPrecision symbol) rfl found
  cases found with
  | some precision => exact ⟨rfl,hlooked,.inl (by simp)⟩
  | none =>
    intro u
    refine ⟨_,⟨rfl,Free.allowed trivial⟩,?_⟩
    intro r
    refine ⟨_,⟨rfl,Free.allowed trivial⟩,?_⟩
    cases r with
    | error e => trivial
    | ok response =>
      refine Prog.Obeys.ofExcept trivial ?_
      intro json hjson
      cases hsym : findSymbol json symbol with
      | none => trivial
      | some sym =>
        have hheard : Heard kit (q ++ [⟨.lookupPrecision symbol,none⟩] ++ [⟨.demo .acquire,u⟩] ++
            [⟨.demo (.get exchangeInfoUrl),.ok response⟩]) symbol (readPrecision sym) :=
          ⟨response,by simp,json,sym,hjson,hsym,rfl⟩
        intro u'
        refine ⟨_,⟨rfl,⟨by simp [changes],?_⟩⟩,rfl,?_,.inr (hheard.append _)⟩
        · intro symbol' precision' heq
          cases heq
          exact hheard
        · have hasked := (hlooked.concat (.demo .acquire) rfl u).concat
            (.demo (.get exchangeInfoUrl)) rfl (.ok response)
          exact hasked.concat (.insertPrecision symbol (readPrecision sym)) rfl u'

theorem getTimestamp_obeys :
    Prog.Obeys (Told (Allowed kit)) (Machine.Ends (fun _ => True) (fun _ => At label Quiet))
    (getTimestamp kit : Prog binanceSig (Except DemoError String)) (label,[]) := by
  have hbegin : At label Quiet (label,[]) := ⟨rfl,by simp [Quiet]⟩
  refine Prog.Obeys.mono (free_obeys (fun _ _ h hmid => h.append hmid) getTimestamp_free hbegin) ?_
  intro r s hs
  cases r with
  | error e => trivial
  | ok timestamp => exact hs

/-- What the two placements have in common: the order is sent once, with a precision that Binance
has told. -/
theorem submit_obeys {symbol : String} (url : SymbolPrecision → String → String)
    {f : String → SymbolPrecision → HttpResponse → String → BinanceM DemoOrder}
    {R : DemoOrder → BinanceCall × List (Own binanceSig) → Prop}
    (hmeant : ∀ q precision timestamp, Knows kit q symbol precision →
    Meant kit (Knows kit q) label (.post (url precision timestamp)))
    (hf : ∀ timestamp precision response id before s, Knows kit before symbol precision →
    At label (Changed before (.post (url precision timestamp)) (.ok response)) s →
    placedId kit response = .ok id →
    Prog.Obeys (Told (Allowed kit)) (Machine.Ends (fun _ => True) R)
    (f timestamp precision response id : Prog binanceSig (Except DemoError DemoOrder)) s) :
    Prog.Obeys (Told (Allowed kit)) (Machine.Ends (fun _ => True) R) ((do
      let timestamp ← getTimestamp kit
      let precision ← getSymbolPrecision kit symbol
      let response ← rateLimitedPost (url precision timestamp)
      let id ← (placedId kit response : BinanceM String)
      f timestamp precision response id : BinanceM DemoOrder) :
        Prog binanceSig (Except DemoError DemoOrder))
      (label,[]) := by
  refine Prog.Obeys.exceptBind getTimestamp_obeys ?_
  rintro timestamp ⟨label',q⟩ ⟨hlabel,hq⟩
  obtain rfl : label' = label := hlabel
  refine Prog.Obeys.exceptBind (getSymbolPrecision_obeys symbol hq) ?_
  rintro precision ⟨label'',q'⟩ ⟨hlabel,hq',hknows⟩
  obtain rfl : label'' = label' := hlabel
  refine Prog.Obeys.bind (post_obeys hq' (hmeant q' precision timestamp hknows)) ?_
  intro r s hs
  cases r with
  | error e => trivial
  | ok response =>
    refine Prog.Obeys.ofExcept trivial ?_
    intro id hid
    exact hf timestamp precision response id _ s (hknows.append _) hs hid

/-- The order was sent once, and Binance has taken it under this id. -/
structure Taken (kit : BinanceKit) (symbol url : String) (precision : SymbolPrecision)
    (response : HttpResponse) (id : String) (q : List (Own binanceSig)) : Prop where
  known : Knows kit q symbol precision
  id_eq : placedId kit response = .ok id
  sent : ∃ before after, q = before ++ ⟨.post url,.ok response⟩ :: after ∧
    Quiet before ∧ Quiet after

theorem Changed.taken {symbol url id : String} {precision : SymbolPrecision}
    {response : HttpResponse} {before q : List (Own binanceSig)}
    (h : Changed before (.post url) (.ok response) q) (hknows : Knows kit before symbol precision)
    (hid : placedId kit response = .ok id) : Taken kit symbol url precision response id q := by
  obtain ⟨hbefore,after,rfl,hafter⟩ := h
  exact ⟨hknows.append _,hid,before,after,rfl,hbefore,hafter⟩

/-- What a limit placement returns. -/
def LimitPlaced (kit : BinanceKit) (order placed : DemoOrder) (q : List (Own binanceSig)) : Prop :=
  ∃ precision timestamp response id,
    Taken kit order.symbol (signedUrl kit "/fapi/v1/order"
      (limitQuery kit order precision timestamp)) precision response id q ∧
    placed = { order with
      id
      status := .pending
      createdAt := (parseU64 timestamp.toList).getD 0
      size := roundQuantity order.size precision.quantity
      price := sentPrice kit order.price precision.tickSize }

theorem placeOrder_obeys (order : DemoOrder) :
    Prog.Obeys (Told (Allowed kit))
      (Machine.Ends (fun _ => True) (fun placed s => LimitPlaced kit order placed s.2))
      (placeOrder kit order : Prog binanceSig (Except DemoError DemoOrder))
        (.placeOrder order,[]) := by
  apply submit_obeys (fun precision timestamp =>
    signedUrl kit "/fapi/v1/order" (limitQuery kit order precision timestamp))
  · intro q precision timestamp hknows
    exact ⟨precision,timestamp,hknows,rfl⟩
  · intro timestamp precision response id before s hknows hafter hid
    exact ⟨precision,timestamp,response,id,hafter.2.taken hknows hid,rfl⟩

/-- A price that the exchange has told in its answer to the order, or when it was asked about it. -/
def PriceTold (kit : BinanceKit) (url id symbol : String) (q : List (Own binanceSig))
    (price : F64) : Prop :=
  ∃ response json, kit.lib.fromStr response.text = some json ∧ avgPrice json = some price ∧
    (⟨.post url,.ok response⟩ ∈ q ∨
      ∃ timestamp, ⟨.getWithKey (signedUrl kit "/fapi/v1/order" (orderQuery id symbol timestamp)),
        .ok response⟩ ∈ q)

theorem PriceTold.append {url id symbol : String} {q : List (Own binanceSig)} {price : F64}
    (h : PriceTold kit url id symbol q price) (mid : List (Own binanceSig)) :
    PriceTold kit url id symbol (q ++ mid) price := by
  obtain ⟨response,json,hjson,hprice,hin | ⟨timestamp,hin⟩⟩ := h
  · exact ⟨response,json,hjson,hprice,.inl (List.mem_append_left _ hin)⟩
  · exact ⟨response,json,hjson,hprice,.inr ⟨timestamp,List.mem_append_left _ hin⟩⟩

/-- Only a positive average price is taken. -/
theorem avgPrice_pos {json : Json} {price : F64} (h : avgPrice json = some price) :
    F64.lt (.fin 0) price = true := by
  unfold avgPrice at h
  exact (Option.filter_eq_some_iff.mp h).2

/-- What a market placement returns. -/
def MarketPlaced (kit : BinanceKit) (order placed : DemoOrder) (q : List (Own binanceSig)) : Prop :=
  ∃ precision timestamp response id price,
    Taken kit order.symbol (signedUrl kit "/fapi/v1/order"
      (marketQuery kit order precision timestamp)) precision response id q ∧
    (price = order.price ∨ PriceTold kit
      (signedUrl kit "/fapi/v1/order" (marketQuery kit order precision timestamp)) id
      order.symbol q price) ∧
    placed = { order with
      id
      status := .filled
      createdAt := (parseU64 timestamp.toList).getD 0
      filledAt := some ((parseU64 timestamp.toList).getD 0)
      size := roundQuantity order.size precision.quantity
      price := price
      fillPrice := some price }

/-- The order was sent, and the price is its own or one that the exchange has told. -/
def Priced (kit : BinanceKit) (order : DemoOrder) (url id : String) (before : List (Own binanceSig))
    (response : HttpResponse) (price : F64) (q : List (Own binanceSig)) : Prop :=
  Changed before (.post url) (.ok response) q ∧
    (price = order.price ∨ PriceTold kit url id order.symbol q price)

variable {order : DemoOrder} {url id : String} {before q : List (Own binanceSig)}
  {response : HttpResponse} {price : F64}
variable {s : BinanceCall × List (Own binanceSig)}

theorem Priced.append (h : Priced kit order url id before response price q)
    {mid : List (Own binanceSig)} (hmid : Quiet mid) :
    Priced kit order url id before response price (q ++ mid) := by
  obtain ⟨hchanged,hown | htold⟩ := h
  · exact ⟨hchanged.append hmid,.inl hown⟩
  · exact ⟨hchanged.append hmid,.inr (htold.append mid)⟩

theorem priced_obeys {p : Prog binanceSig α} (hp : p.Only Free)
    (hs : At label (Priced kit order url id before response price) s) :
    p.Obeys (Told (Allowed kit))
      (fun _ => At label (Priced kit order url id before response price)) s :=
  free_obeys (fun _ _ h hmid => h.append hmid) hp hs

/-- The exchange is asked for the price again; any answer but a positive one leaves the price that
was there. -/
theorem askFillPrice_obeys (hs : At label (Priced kit order url id before response price) s) :
    Prog.Obeys (Told (Allowed kit)) (Machine.Ends (fun _ => True)
      (fun price => At label (Priced kit order url id before response price)))
      (askFillPrice kit price id order.symbol : Prog binanceSig (Except DemoError F64)) s := by
  refine Prog.Obeys.exceptBind (R := fun _ =>
    At label (Priced kit order url id before response price)) ?_ ?_
  · refine Prog.Obeys.mono (priced_obeys getTimestamp_free hs) ?_
    intro r s hs
    cases r with
    | error e => trivial
    | ok timestamp => exact hs
  rintro timestamp ⟨label',q⟩ ⟨rfl,hq⟩
  intro u
  refine ⟨_,⟨rfl,Free.allowed trivial⟩,?_⟩
  intro r
  refine ⟨_,⟨rfl,Free.allowed trivial⟩,?_⟩
  have hasked : Quiet [⟨.demo .acquire,u⟩,
      ⟨.getWithKey (signedUrl kit "/fapi/v1/order" (orderQuery id order.symbol timestamp)),r⟩] := by
    simp [Quiet,changes]
  have hnow := hq.append hasked
  rw [List.append_cons] at hnow
  cases r with
  | error e => exact ⟨rfl,hnow⟩
  | ok answer =>
    dsimp only [Prog.bind,Function.comp_apply,ExceptT.bindCont]
    cases hjson : kit.lib.fromStr answer.text with
    | none => exact ⟨rfl,hnow⟩
    | some json =>
      refine ⟨rfl,hnow.1,?_⟩
      cases hprice : avgPrice json with
      | none => exact hnow.2
      | some told => exact .inr ⟨answer,json,hjson,hprice,.inr ⟨timestamp,by simp⟩⟩

theorem actualFillPrice_obeys (status : Except DemoError OrderStatus)
    (hs : At label (Priced kit order url id before response price) s) :
    Prog.Obeys (Told (Allowed kit)) (Machine.Ends (fun _ => True)
      (fun price => At label (Priced kit order url id before response price)))
      (actualFillPrice kit status price id order.symbol : Prog binanceSig (Except DemoError F64))
        s := by
  unfold actualFillPrice
  split
  · exact askFillPrice_obeys hs
  · exact hs

theorem placeMarketOrder_obeys (order : DemoOrder) :
    Prog.Obeys (Told (Allowed kit))
      (Machine.Ends (fun _ => True) (fun placed s => MarketPlaced kit order placed s.2))
      (placeMarketOrder kit order : Prog binanceSig (Except DemoError DemoOrder))
        (.placeMarketOrder order,[]) := by
  apply submit_obeys (fun precision timestamp =>
    signedUrl kit "/fapi/v1/order" (marketQuery kit order precision timestamp))
  · intro q precision timestamp hknows
    exact ⟨precision,timestamp,hknows,rfl⟩
  intro timestamp precision response id before s hknows hafter hid
  have hfirst : At (.placeMarketOrder order) (Priced kit order
      (signedUrl kit "/fapi/v1/order" (marketQuery kit order precision timestamp)) id
        before response
      (((kit.lib.fromStr response.text).bind avgPrice).getD order.price)) s := by
    refine ⟨hafter.1,hafter.2,?_⟩
    cases hjson : kit.lib.fromStr response.text with
    | none => exact .inl rfl
    | some json =>
      cases hprice : avgPrice json with
      | none => simp [hprice]
      | some told =>
        obtain ⟨_,_,after,hq,_⟩ := hafter
        exact .inr ⟨response,json,hjson,by simp [hprice],.inl (by simp [hq])⟩
  have hdone : ∀ price s, At (.placeMarketOrder order) (Priced kit order
      (signedUrl kit "/fapi/v1/order" (marketQuery kit order precision timestamp)) id before
        response price) s →
      MarketPlaced kit order { order with
        id
        status := .filled
        createdAt := (parseU64 timestamp.toList).getD 0
        filledAt := some ((parseU64 timestamp.toList).getD 0)
        size := roundQuantity order.size precision.quantity
        price := price
        fillPrice := some price } s.2 :=
    fun price s hs => ⟨precision,timestamp,response,id,price,hs.2.1.taken hknows hid,hs.2.2,rfl⟩
  refine Prog.Obeys.liftBind (priced_obeys ⟨trivial,fun _ => trivial⟩ hfirst) ?_
  intro _ s hs
  refine Prog.Obeys.liftBind (priced_obeys (getOrderStatus_free id order.symbol) hs) ?_
  intro status s hs
  exact Prog.Obeys.exceptBind (actualFillPrice_obeys status hs) hdone

/-- Binance has cancelled the order, or has at least not answered with an error. -/
def Cancelled (kit : BinanceKit) (id symbol : String) (q : List (Own binanceSig)) : Prop :=
  ∃ before timestamp response json,
    Changed before (.delete (signedUrl kit "/fapi/v1/order" (orderQuery id symbol timestamp)))
      (.ok response) q ∧
    DemoClient.decode kit.lib response.text = .ok json ∧
      apiFailure "Failed to cancel order: " json = none

theorem cancelOrder_obeys (id symbol : String) :
    Prog.Obeys (Told (Allowed kit))
      (Machine.Ends (fun _ => True) (fun _ s => Cancelled kit id symbol s.2))
      (cancelOrder kit id symbol : Prog binanceSig (Except DemoError Unit))
        (.cancelOrder id symbol,[]) := by
  refine Prog.Obeys.exceptBind getTimestamp_obeys ?_
  rintro timestamp ⟨label,q⟩ ⟨rfl,hq⟩
  refine Prog.Obeys.bind (delete_obeys hq ⟨timestamp,rfl⟩) ?_
  intro r s hs
  cases r with
  | error e => trivial
  | ok response =>
    refine Prog.Obeys.ofExcept trivial ?_
    intro json hjson
    cases hfailure : apiFailure "Failed to cancel order: " json with
    | some e => trivial
    | none => exact ⟨_,timestamp,response,json,hs.2,hjson,hfailure⟩

theorem change_obeys {path : String} {query : String → String}
    (hmeant : ∀ q timestamp,
    Meant kit (Knows kit q) label (.post (signedUrl kit path (query timestamp)))) :
    Prog.Obeys (Told (Allowed kit)) (fun _ _ => True)
      (change kit path query : Prog binanceSig (Except DemoError Unit))
      (label,[]) := by
  have hends : Prog.Obeys (Told (Allowed kit)) (Machine.Ends (fun _ => True) (fun _ _ => True))
      (change kit path query : Prog binanceSig (Except DemoError Unit)) (label,[]) := by
    refine Prog.Obeys.exceptBind getTimestamp_obeys ?_
    rintro timestamp ⟨label',q⟩ ⟨rfl,hq⟩
    refine Prog.Obeys.bind (post_obeys hq (hmeant q timestamp)) ?_
    intro r s hs
    cases r with
    | error e => trivial
    | ok response => exact Prog.Obeys.ofExcept trivial (fun json _ => trivial)
  exact Prog.Obeys.mono hends (fun _ _ _ => trivial)

/-- What a call has done when it returns. -/
def Done (kit : BinanceKit) :
    BinanceCall → Except DemoError BinanceReply → List (Own binanceSig) → Prop
  | .placeOrder order, .ok reply, q =>
    ∃ placed, reply = .placed placed ∧ LimitPlaced kit order placed q
  | .placeMarketOrder order, .ok reply, q =>
    ∃ placed, reply = .placed placed ∧ MarketPlaced kit order placed q
  | .cancelOrder id symbol, .ok _, q => Cancelled kit id symbol q
  | _, _, _ => True

/-- A call that changes nothing. -/
theorem free_body {x : BinanceM α} (hx : Prog.Only Free (x : Prog binanceSig (Except DemoError α)))
    (reply : α → BinanceReply) (hdone : ∀ r q, Done kit label r q) :
    Prog.Obeys (Told (Allowed kit)) (fun r s => Done kit label r s.2)
      ((do return reply (← x) : BinanceM BinanceReply) : Prog binanceSig
        (Except DemoError BinanceReply)) (label,[]) := by
  have hfree : Prog.Only Free ((do return reply (← x) : BinanceM BinanceReply) :
      Prog binanceSig (Except DemoError BinanceReply)) := Prog.Only.exceptBind hx (fun _ => trivial)
  exact Prog.Obeys.mono (Prog.Only.told (K := Free) (fun _ _ h => h.allowed) hfree []) (fun r s _ =>
    hdone r s.2)

theorem body_obeys (label : BinanceCall) :
    (body kit label).Obeys (Told (Allowed kit)) (fun r s => Done kit label r s.2) (label,[]) := by
  cases label with
  | demo call => exact free_body (demo_free _) BinanceReply.demo (fun _ _ => trivial)
  | isSymbolTradeable symbol =>
    exact free_body (isSymbolTradeable_free symbol) _ (fun _ _ => trivial)
  | getOrderStatus id symbol =>
    exact free_body (getOrderStatus_free id symbol) _ (fun _ _ => trivial)
  | getOrderStatusDetailed id symbol =>
    exact free_body (getOrderStatusDetailed_free id symbol) _ (fun _ _ => trivial)
  | getBalance => exact free_body getBalance_free _ (fun _ _ => trivial)
  | getSymbolPrecision symbol =>
    exact Prog.Obeys.bind (getSymbolPrecision_obeys symbol (q := []) (by simp [Quiet]))
      (fun r _ _ => by cases r <;> trivial)
  | setLeverage symbol =>
    exact Prog.Obeys.bind (change_obeys (fun _ timestamp => ⟨timestamp,rfl⟩)) (fun r _ _ => by
      cases r <;> trivial)
  | setMarginTypeIsolated symbol =>
    exact Prog.Obeys.bind (change_obeys (fun _ timestamp => ⟨timestamp,rfl⟩)) (fun r _ _ => by
      cases r <;> trivial)
  | placeOrder order =>
    refine Prog.Obeys.bind (placeOrder_obeys order) ?_
    intro r s h
    cases r with
    | error e => trivial
    | ok placed => exact ⟨placed,rfl,h⟩
  | placeMarketOrder order =>
    refine Prog.Obeys.bind (placeMarketOrder_obeys order) ?_
    intro r s h
    cases r with
    | error e => trivial
    | ok placed => exact ⟨placed,rfl,h⟩
  | cancelOrder id symbol =>
    refine Prog.Obeys.bind (cancelOrder_obeys id symbol) ?_
    intro r s h
    cases r with
    | error e => trivial
    | ok u => exact h

end Calls

section Runs

/-- In a response of the run Binance has given the symbol this precision. -/
def Listed (kit : BinanceKit) (history : List (Served binanceSig)) (symbol : String)
    (precision : SymbolPrecision) : Prop :=
  ∃ (n : Nat) (response : HttpResponse), ⟨n,.demo (.get exchangeInfoUrl),.ok response⟩ ∈ history ∧
    Lists kit symbol precision response

theorem Listed.append {history : List (Served binanceSig)} {symbol : String}
    {precision : SymbolPrecision} (h : Listed kit history symbol precision)
    (e : Served binanceSig) : Listed kit (history ++ [e]) symbol precision := by
  obtain ⟨n,response,hin,hlists⟩ := h
  exact ⟨n,response,List.mem_append_left _ hin,hlists⟩

theorem Heard.listed {n : Nat} {history : List (Served binanceSig)} {symbol : String}
    {precision : SymbolPrecision} (h : Heard kit (ownOf n history) symbol precision) :
    Listed kit history symbol precision := by
  obtain ⟨response,hin,hlists⟩ := h
  exact ⟨n,response,mem_of_own hin,hlists⟩

/-- The precisions in the cache, and those that were found there, are Binance's. -/
structure Sourced (kit : BinanceKit) (w : Recorded binanceSig BinanceWorld) : Prop where
  cached : ∀ symbol precision, w.world.precisions symbol = some precision →
    Listed kit w.history symbol precision
  found : ∀ (n : Nat) symbol precision, ⟨n,.lookupPrecision symbol,some precision⟩ ∈ w.history →
    Listed kit w.history symbol precision

theorem Sourced.knows {w : Recorded binanceSig BinanceWorld} (h : Sourced kit w) {n : Nat}
    {symbol : String} {precision : SymbolPrecision}
    (hknows : Knows kit (ownOf n w.history) symbol precision) :
    Listed kit w.history symbol precision := by
  obtain hcached | hheard := hknows
  · exact h.found n symbol precision (mem_of_own hcached)
  · exact hheard.listed

/-- What a request does to the cache. -/
theorem precisions_serve {env : DemoEnv} {n : Nat} {op : BinanceOp} {w : BinanceWorld}
    {symbol : String} {precision : SymbolPrecision}
    (h : (w.serve env n op).2.precisions symbol = some precision) :
    w.precisions symbol = some precision ∨ op = .insertPrecision symbol precision := by
  cases op with
  | insertPrecision symbol' precision' =>
    simp only [BinanceWorld.serve] at h
    split at h
    · next heq =>
      cases h
      exact .inr (by rw [heq])
    · exact .inl h
  | demo op => exact .inl h
  | lookupPrecision symbol => exact .inl h
  | getWithKey url => exact .inl h
  | post url => exact .inl h
  | delete url => exact .inl h
  | sleep ms => exact .inl h

theorem sourced_serve {env : DemoEnv} (n : Nat) (w : Recorded binanceSig BinanceWorld)
    (op : BinanceOp) (label : BinanceCall) (h : Sourced kit w)
    (hallowed : Allowed kit label (ownOf n w.history) op) :
    Sourced kit ((recorded (clientMachine env) n).serve op w).2 where
  cached symbol precision hp := by
    obtain hold | hinsert := precisions_serve hp
    · exact (h.cached symbol precision hold).append _
    · exact (hallowed.insert symbol precision hinsert).listed.append _
  found k symbol precision hin := by
    obtain hin | hin := List.mem_append.mp hin
    · exact (h.found k symbol precision hin).append _
    · generalize hans : ((clientMachine env n).serve op w.world).1 = ans at hin
      cases List.mem_singleton.mp hin
      exact (h.cached symbol precision hans).append _

variable {env : DemoEnv} {start : Nat} {acts : List (Act BinanceCall)} {n : Nat}
variable {c : Call BinanceCall binanceSig (Except DemoError BinanceReply)}

theorem run_sourced (kit : BinanceKit) (env : DemoEnv) (start : Nat)
    (acts : List (Act BinanceCall)) :
    Sourced kit (placements kit env start acts).shared ∧
      ∀ (n : Nat) c, (placements kit env start acts).calls[n]? = some c →
        Lawful (Allowed kit) c.label (ownOf n (placements kit env start acts).shared.history) ∧
        ∀ a, c.result = some a →
          Done kit c.label a (ownOf n (placements kit env start acts).shared.history) := by
  apply Pool.run_told body_obeys sourced_serve rfl
  exact ⟨by simp [BinanceWorld.new],by simp⟩

/-- The requests of a call that change something at Binance. -/
def changesOf (n : Nat) (history : List (Served binanceSig)) : List BinanceOp :=
  ((ownOf n history).map Sigma.fst).filter changes

theorem quiet_filter {q : List (Own binanceSig)} (h : Quiet q) :
    (q.map Sigma.fst).filter changes = [] := by
  apply List.filter_eq_nil_iff.mpr
  intro op hop
  obtain ⟨e,he,rfl⟩ := List.mem_map.mp hop
  simp [h e he]

theorem changed_filter {before after : List (Own binanceSig)} {e : Own binanceSig}
    (hbefore : Quiet before) (hafter : Quiet after) (he : changes e.1 = true) :
    ((before ++ e :: after).map Sigma.fst).filter changes = [e.1] := by
  rw [List.map_append,List.filter_append,quiet_filter hbefore,List.map_cons,
    List.filter_cons_of_pos he,quiet_filter hafter]
  rfl

/-- Whatever was changed was the first change. -/
theorem lawful_cases {label : BinanceCall} {q : List (Own binanceSig)}
    (h : Lawful (Allowed kit) label q) :
    Quiet q ∨ ∃ before e after, q = before ++ e :: after ∧ Quiet before ∧ Quiet after ∧
      changes e.1 = true := by
  by_cases hquiet : Quiet q
  · exact .inl hquiet
  right
  unfold Quiet at hquiet
  push Not at hquiet
  obtain ⟨e,he,hchanges⟩ := hquiet
  have hchanges : changes e.1 = true := by simpa using hchanges
  obtain ⟨before,after,rfl⟩ := List.append_of_mem he
  refine ⟨before,e,after,rfl,((h before e after rfl).change hchanges).1,?_,hchanges⟩
  intro f hf
  obtain ⟨first,last,rfl⟩ := List.append_of_mem hf
  by_contra hagain
  have hagain : changes f.1 = true := by simpa using hagain
  have hquiet := ((h (before ++ e :: first) f last (by simp)).change hagain).1
  have hfirst := hquiet e (by simp)
  rw [hfirst] at hchanges
  cases hchanges

def exchangeInfo : Json :=
  .obj [("symbols",.arr [.obj [("symbol",.str "BTCUSDT"),("quantityPrecision",.number "3"),
    ("filters",.arr [.obj [("filterType",.str "PRICE_FILTER"),("tickSize",.str "0.10")]])]])]

def filledOrder : Json :=
  .obj [("orderId",.number "77"),("status",.str "FILLED"),("avgPrice",.str "100.2")]

def btcKit : BinanceKit where
  lib := ⟨fun text => if text = "info" then some exchangeInfo else some filledOrder,id⟩
  display := fun _ => "0.123".toList
  generateSignature := id

/-- The sixth request is the one for the list of symbols. -/
def btcEnv : DemoEnv where
  move := fun tick => ⟨0,.ok ⟨"200 OK",true,if tick = 5 then "info" else "order"⟩⟩
  systemClock := fun t => t / 10^6

def btcOrder : DemoOrder :=
  ⟨"","binance","BTCUSDT",.long,.limit,.fin (10027/100),.fin (12345/100000),none,0,none,
    none,.pending⟩

/-- One call that runs to its end. -/
def oneCall (label : BinanceCall) (steps : Nat) : Placements :=
  placements btcKit btcEnv 0 (.start label :: List.replicate steps (.step 0))

/-- However many calls run on the client, each of them changes at most one thing at Binance, whether
it has returned or not: a placement sends its order once, with the precision Binance has listed for
its symbol, a cancel only names its order, and the calls that ask for something change nothing. -/
theorem one_change_a_call (hc : (placements kit env start acts).calls[n]? = some c) :
    changesOf n (placements kit env start acts).shared.history = [] ∨
      ∃ op, changesOf n (placements kit env start acts).shared.history = [op] ∧
        Meant kit (Listed kit (placements kit env start acts).shared.history) c.label op := by
  obtain ⟨hsourced,hcalls⟩ := run_sourced kit env start acts
  obtain ⟨hlawful,_⟩ := hcalls n c hc
  obtain hquiet | ⟨before,e,after,hq,hbefore,hafter,he⟩ := lawful_cases hlawful
  · exact .inl (quiet_filter hquiet)
  · refine .inr ⟨e.1,?_,?_⟩
    · rw [changesOf,hq]
      exact changed_filter hbefore hafter he
    · refine ((hlawful before e after hq).change he).2.mono ?_
      intro symbol precision hknows
      apply hsourced.knows (n := n)
      rw [hq]
      exact hknows.append _

theorem placement_changes_once :
    ∃ op, changesOf 0 (oneCall (.placeOrder btcOrder) 9).shared.history = [op] ∧
    Meant btcKit (Listed btcKit (oneCall (.placeOrder btcOrder) 9).shared.history)
      (.placeOrder btcOrder) op := by
  have hcall : ∃ c, (oneCall (.placeOrder btcOrder) 9).calls[0]? = some c ∧
      c.label = .placeOrder btcOrder := ⟨_,rfl,rfl⟩
  have hone : (changesOf 0 (oneCall (.placeOrder btcOrder) 9).shared.history).length = 1 := rfl
  obtain ⟨c,hc,hlabel⟩ := hcall
  obtain hnone | hop := one_change_a_call hc
  · change changesOf 0 (oneCall (.placeOrder btcOrder) 9).shared.history = [] at hnone
    rw [hnone] at hone
    cases hone
  · rw [hlabel] at hop
    exact hop

/-- Up to 10^22 the powers of ten are doubles. -/
theorem round_ten_pow {precision : Nat} (h : precision ≤ 22) :
    F64.round (10 ^ precision) = .fin (10 ^ precision) := by
  have hfive : |(5 : ℤ) ^ precision| < 2 ^ 53 := by
    rw [abs_of_pos (by positivity)]
    calc (5 : ℤ) ^ precision ≤ 5 ^ 22 := pow_le_pow_right₀ (by norm_num) h
      _ < 2 ^ 53 := by norm_num
  have hten : (10 : ℚ) ^ precision = ((5 ^ precision : ℤ) : ℚ) * 2 ^ (precision : ℤ) := by
    rw [zpow_natCast]
    push_cast
    rw [← mul_pow]
    norm_num
  rw [hten]
  exact F64.round_eq hfive (by omega) (by omega)

/-- Less than half a unit is rounded to nothing. -/
theorem roundQuantity_small {quantity : ℚ} {precision : Nat} (hnonneg : 0 ≤ quantity)
    (hprecision : precision ≤ 22) (hsmall : quantity * 10 ^ precision < 1/2) :
    roundQuantity (.fin quantity) precision = .fin 0 := by
  have hhalf : F64.round (1/2) = .fin (1/2) := by
    have := F64.round_eq (n := 1) (k := -1) (by norm_num) (by norm_num) (by norm_num)
    norm_num at this
    simpa using this
  have hlow := F64.round_mono (a := 0) (b := quantity * 10 ^ precision) (by positivity)
  have hhigh := F64.round_mono hsmall.le
  rw [F64.round_zero] at hlow
  rw [hhalf] at hhigh
  obtain ⟨y,hy,hy0,hy1⟩ := F64.fin_of_between hlow hhigh
  have hfloor : ⌊y⌋ = 0 := Int.floor_eq_zero_iff.mpr ⟨hy0,by linarith⟩
  have hdiv : F64.fin 0 / F64.fin (10 ^ precision) = .fin 0 := by
    rw [F64.fin_div (by positivity),zero_div,F64.round_zero]
  simp only [roundQuantity,round_ten_pow hprecision,F64.fin_mul,hy,F64.floor,hfloor,Int.cast_zero,
    hdiv]

/-- Up to the precision of doubles, a quantity is rounded down by less than one unit. -/
theorem roundQuantity_spec {quantity : ℚ} {precision : Nat} (hnonneg : 0 ≤ quantity)
    (hlarge : quantity ≤ 2 ^ 100) (hprecision : precision ≤ 22) :
    ∃ size, roundQuantity (.fin quantity) precision = .fin size ∧
      quantity - quantity / 2 ^ 51 - 1 / 10 ^ precision < size ∧
      size ≤ quantity + quantity / 2 ^ 51 := by
  have hm : (0 : ℚ) < 10 ^ precision := by positivity
  have hmost : (10 : ℚ) ^ precision ≤ 10 ^ 22 := pow_le_pow_right₀ (by norm_num) hprecision
  rcases lt_or_ge (quantity * 10 ^ precision) (1/2) with hsmall | hbig
  · refine ⟨0,roundQuantity_small hnonneg hprecision hsmall,?_,by positivity⟩
    have hunit : quantity < 1 / 10 ^ precision := by
      rw [lt_div_iff₀ hm]
      linarith
    have hnoise : 0 ≤ quantity / 2 ^ 51 := by positivity
    linarith
  · obtain ⟨y,hy,hyl,hyh⟩ := F64.round_near (q := quantity * 10 ^ precision) (by linarith)
      (by nlinarith)
    -- the whole units, as a quantity
    have hupper : (⌊y⌋ : ℚ) / 10 ^ precision ≤ quantity + quantity / 2 ^ 53 := by
      rw [div_le_iff₀ hm]
      have := Int.floor_le y
      linarith
    have hlower : quantity - quantity / 2 ^ 53 - 1 / 10 ^ precision < ⌊y⌋ / 10 ^ precision := by
      rw [lt_div_iff₀ hm,sub_mul,div_mul_cancel₀ 1 hm.ne']
      have := Int.lt_floor_add_one y
      linarith
    have hfloor : 0 ≤ ⌊y⌋ := Int.floor_nonneg.mpr (by linarith)
    have hround : ∃ r, F64.round ((⌊y⌋ : ℚ) / 10 ^ precision) = .fin r ∧
        (⌊y⌋ : ℚ) / 10 ^ precision - ⌊y⌋ / 10 ^ precision / 2 ^ 53 ≤ r ∧
        r ≤ ⌊y⌋ / 10 ^ precision + ⌊y⌋ / 10 ^ precision / 2 ^ 53 := by
      rcases hfloor.eq_or_lt with hzero | hpos
      · exact ⟨0,by simp [← hzero],by simp [← hzero],by simp [← hzero]⟩
      · have hone : (1 : ℚ) ≤ ⌊y⌋ := by exact_mod_cast hpos
        have hleast : (1 : ℚ) / 10 ^ 22 ≤ ⌊y⌋ / 10 ^ precision := by
          rw [div_le_div_iff₀ (by positivity) hm]
          nlinarith
        exact F64.round_near (by linarith) (by linarith)
    obtain ⟨r,hr,hrl,hrh⟩ := hround
    refine ⟨r,?_,?_,?_⟩
    · simp only [roundQuantity,round_ten_pow hprecision,F64.fin_mul,hy,F64.floor]
      rw [F64.fin_div hm.ne',hr]
    · have hunit : (0 : ℚ) < 1 / 10 ^ precision := by positivity
      linarith
    · linarith

/-- A limit order that is returned has been sent once and taken by Binance: it has the id that
Binance gave it, the price of its text, and its size less what is too fine for Binance, up to the
precision of doubles. -/
theorem placed_as_sent (hc : (placements kit env start acts).calls[n]? = some c) {order : DemoOrder}
    (hlabel : c.label = .placeOrder order) {reply : BinanceReply}
    (hr : c.result = some (.ok reply)) :
    ∃ precision timestamp response id,
      Listed kit (placements kit env start acts).shared.history order.symbol precision ∧
      changesOf n (placements kit env start acts).shared.history =
        [.post (signedUrl kit "/fapi/v1/order" (limitQuery kit order precision timestamp))] ∧
      ⟨n,.post (signedUrl kit "/fapi/v1/order" (limitQuery kit order precision timestamp)),
        .ok response⟩ ∈
        (placements kit env start acts).shared.history ∧
      placedId kit response = .ok id ∧
      (∀ quantity : ℚ, order.size = .fin quantity → 0 ≤ quantity → quantity ≤ 2 ^ 100 →
        precision.quantity ≤ 22 → ∃ size, roundQuantity order.size precision.quantity = .fin size ∧
          quantity - quantity / 2 ^ 51 - 1 / 10 ^ precision.quantity < size ∧
          size ≤ quantity + quantity / 2 ^ 51) ∧
      reply = .placed { order with
        id
        status := .pending
        createdAt := (parseU64 timestamp.toList).getD 0
        size := roundQuantity order.size precision.quantity
        price := sentPrice kit order.price precision.tickSize } := by
  obtain ⟨hsourced,hcalls⟩ := run_sourced kit env start acts
  obtain ⟨_,hdone⟩ := hcalls n c hc
  have hplaced := hdone _ hr
  rw [hlabel] at hplaced
  obtain ⟨placed,rfl,precision,timestamp,response,id,htaken,rfl⟩ := hplaced
  obtain ⟨before,after,hq,hbefore,hafter⟩ := htaken.sent
  refine ⟨precision,timestamp,response,id,hsourced.knows htaken.known,?_,?_,htaken.id_eq,?_,rfl⟩
  · rw [changesOf,hq]
    exact changed_filter hbefore hafter rfl
  · apply mem_of_own
    rw [hq]
    simp
  · intro quantity hsize hnonneg hlarge hprecision
    rw [hsize]
    exact roundQuantity_spec hnonneg hlarge hprecision

/-- A tick of ten cents, and a thousandth as the smallest quantity. -/
theorem btc_placed : ∃ c placed, (oneCall (.placeOrder btcOrder) 9).calls[0]? = some c ∧
    c.result = some (.ok (.placed placed)) ∧ placed.id = "77" ∧ placed.size = .round (123/1000) ∧
      placed.price = .fin (1003/10) ∧
    ∃ precision, Listed btcKit (oneCall (.placeOrder btcOrder) 9).shared.history "BTCUSDT"
      precision := by
  have hcall : ∃ c placed, (oneCall (.placeOrder btcOrder) 9).calls[0]? = some c ∧
      c.label = .placeOrder btcOrder ∧
      c.result = some (.ok (.placed placed)) ∧ placed.id = "77" ∧ placed.size = .round (123/1000) ∧
      placed.price = .fin (1003/10) :=
        ⟨_,_,rfl,rfl,rfl,by decide +kernel,by decide +kernel,by decide +kernel⟩
  obtain ⟨c,placed,hc,hlabel,hresult,hid,hsize,hprice⟩ := hcall
  obtain ⟨precision,_,_,_,hlisted,_⟩ := placed_as_sent hc hlabel hresult
  exact ⟨c,placed,hc,hresult,hid,hsize,hprice,precision,hlisted⟩

/-- A market order that is returned has been sent once and taken by Binance. It counts as filled, at
a positive average price that Binance told in its answer or when it was asked about this order, or
else at the price the order came with. -/
theorem market_price_told (hc : (placements kit env start acts).calls[n]? = some c)
    {order : DemoOrder} (hlabel : c.label = .placeMarketOrder order) {reply : BinanceReply}
    (hr : c.result = some (.ok reply)) :
    ∃ precision timestamp response id price,
      Listed kit (placements kit env start acts).shared.history order.symbol precision ∧
      changesOf n (placements kit env start acts).shared.history =
        [.post (signedUrl kit "/fapi/v1/order" (marketQuery kit order precision timestamp))] ∧
      ⟨n,.post (signedUrl kit "/fapi/v1/order" (marketQuery kit order precision timestamp)),
        .ok response⟩ ∈
        (placements kit env start acts).shared.history ∧
      placedId kit response = .ok id ∧
      (price = order.price ∨ F64.lt (.fin 0) price = true ∧
        PriceTold kit (signedUrl kit "/fapi/v1/order" (marketQuery kit order precision timestamp))
          id order.symbol
          (ownOf n (placements kit env start acts).shared.history) price) ∧
      reply = .placed { order with
        id
        status := .filled
        createdAt := (parseU64 timestamp.toList).getD 0
        filledAt := some ((parseU64 timestamp.toList).getD 0)
        size := roundQuantity order.size precision.quantity
        price := price
        fillPrice := some price } := by
  obtain ⟨hsourced,hcalls⟩ := run_sourced kit env start acts
  obtain ⟨_,hdone⟩ := hcalls n c hc
  have hplaced := hdone _ hr
  rw [hlabel] at hplaced
  obtain ⟨placed,rfl,precision,timestamp,response,id,price,htaken,hprice,rfl⟩ := hplaced
  obtain ⟨before,after,hq,hbefore,hafter⟩ := htaken.sent
  refine ⟨precision,timestamp,response,id,price,hsourced.knows htaken.known,?_,?_,
    htaken.id_eq,?_,rfl⟩
  · rw [changesOf,hq]
    exact changed_filter hbefore hafter rfl
  · apply mem_of_own
    rw [hq]
    simp
  · obtain hown | htold := hprice
    · exact .inl hown
    · have hpos : F64.lt (.fin 0) price = true := by
        obtain ⟨_,_,_,havg,_⟩ := htold
        exact avgPrice_pos havg
      exact .inr ⟨hpos,htold⟩

/-- The order came at 100.27, and Binance filled it at 100.2. -/
theorem btc_bought : ∃ c placed, (oneCall (.placeMarketOrder btcOrder) 20).calls[0]? = some c ∧
    c.result = some (.ok (.placed placed)) ∧ placed.status = .filled ∧
      placed.fillPrice = some (.fin (1002/10)) ∧
    ∃ precision, Listed btcKit (oneCall (.placeMarketOrder btcOrder) 20).shared.history "BTCUSDT"
      precision := by
  have hcall : ∃ c placed, (oneCall (.placeMarketOrder btcOrder) 20).calls[0]? = some c ∧
      c.label = .placeMarketOrder btcOrder ∧ c.result = some (.ok (.placed placed)) ∧
        placed.status = .filled ∧
      placed.fillPrice = some (.fin (1002/10)) := ⟨_,_,rfl,rfl,rfl,rfl,by decide +kernel⟩
  obtain ⟨c,placed,hc,hlabel,hresult,hstatus,hprice⟩ := hcall
  obtain ⟨precision,_,_,_,_,hlisted,_⟩ := market_price_told hc hlabel hresult
  exact ⟨c,placed,hc,hresult,hstatus,hprice,precision,hlisted⟩

end Runs

end SpreadArb.Proofs.Placements
