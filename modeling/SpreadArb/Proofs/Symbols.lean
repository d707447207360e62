import SpreadArb.Proofs.Quotes

namespace SpreadArb.Proofs.Symbols
open Detection Quotes

section Affixes

variable {s t x y : List Char}

theorem endsWith_iff : endsWith x s = true ↔ x <:+ s := List.isSuffixOf_iff_suffix

theorem contains_iff : contains x s = true ↔ x <:+: s := by
  rw [List.infix_iff_prefix_suffix]
  simp [contains,and_comm]

/-- A short ending is decided by the last characters. -/
theorem suffix_append (h : x.length ≤ y.length) : x <:+ s ++ y ↔ x <:+ y := by
  constructor
  · intro hx
    exact List.suffix_of_suffix_length_le hx (List.suffix_append s y) h
  · intro hx
    exact hx.trans (List.suffix_append s y)

/-- Texts that end in different characters. -/
theorem not_suffix (hy : y ≠ []) (h : x ≠ [] ∧ x.getLast? ≠ y.getLast?) : ¬x <:+ s ++ y := by
  rintro ⟨t,ht⟩
  apply h.2
  rw [← List.getLast?_append_of_ne_nil t h.1,ht,List.getLast?_append_of_ne_nil s hy]

theorem head_append {c : Char} (hx : x.head? ≠ some c) (hy : y.head? ≠ some c) :
    (x ++ y).head? ≠ some c := by
  cases x with
  | nil => exact hy
  | cons d x => exact hx

theorem dropEnd_append (s y : List Char) : dropEnd y.length (s ++ y) = s := by
  simp [dropEnd]

end Affixes

section Replace

theorem replaceUsd_cons {c : Char} {cs : List Char} (h : ¬"USD".toList <+: c :: cs) :
    replaceUsd (c :: cs) = c :: replaceUsd cs := by
  rw [replaceUsd.eq_def]
  split
  · rename_i heq
    rw [heq] at h
    exact absurd (List.prefix_append _ _) h
  · rename_i heq
    cases heq
    rfl
  · rename_i heq
    cases heq

/-- The text up to a first "USD" is kept. -/
theorem replaceUsd_first {s : List Char} (h : ¬"USD".toList <:+: s) (t : List Char) :
    replaceUsd (s ++ "USD".toList ++ t) = s ++ "USDT".toList ++ replaceUsd t := by
  induction s with
  | nil => rfl
  | cons c s ih =>
    have hs : ¬"USD".toList <:+: s := fun hi => h (hi.trans (List.suffix_cons c s).isInfix)
    have hp : ¬"USD".toList <+: c :: s := fun hi => h hi.isInfix
    rw [List.cons_append,List.cons_append,replaceUsd_cons,ih hs]
    · rfl
    · intro hi
      -- A "USD" that begins in `c :: s` and ends past it would have another "U" in it.
      rcases s with _ | ⟨d,_ | ⟨e,s⟩⟩
      · simp at hi
      · simp at hi
      · apply hp
        simpa using hi

theorem replaceUsd_usdt {s : List Char} (h : "USD".toList <:+: s) :
    "USDT".toList <:+: replaceUsd s := by
  induction s with
  | nil => simp at h
  | cons c s ih =>
    by_cases hp : "USD".toList <+: c :: s
    · obtain ⟨t,ht⟩ := hp
      rw [← ht]
      exact ⟨[],replaceUsd t,rfl⟩
    · rw [replaceUsd_cons hp]
      exact (ih ((List.infix_cons_iff.mp h).resolve_left hp)).trans (List.suffix_cons c _).isInfix

/-- The replacement begins with "SD" or "D" only where the text does. -/
theorem replaceUsd_head {x t : List Char} {c : Char} (h : replaceUsd x = c :: t) :
    ∃ x', x = c :: x' ∧ (c ≠ 'U' → replaceUsd x' = t) := by
  cases x with
  | nil => cases h
  | cons d x =>
    by_cases hp : "USD".toList <+: d :: x
    · obtain ⟨y,hy⟩ := hp
      rw [← hy] at h
      cases hy
      cases h
      exact ⟨_,rfl,fun hU => absurd rfl hU⟩
    · rw [replaceUsd_cons hp] at h
      cases h
      exact ⟨x,rfl,fun _ => rfl⟩

/-- After the replacement each "USD" has its "T". -/
theorem replaceUsd_followed (x : List Char) {p t : List Char}
    (h : replaceUsd x = p ++ "USD".toList ++ t) : t.head? = some 'T' := by
  induction x using replaceUsd.induct generalizing p with
  | case1 cs ih =>
    rw [replaceUsd] at h
    rcases p with _ | ⟨a,_ | ⟨b,_ | ⟨c,_ | ⟨d,p⟩⟩⟩⟩
    · simp only [List.nil_append,String.reduceToList,List.cons_append,List.cons.injEq,true_and] at h
      rw [← h]
      rfl
    · simp at h
    · simp at h
    · simp at h
    · simp only [List.cons_append,List.cons.injEq] at h
      exact ih h.2.2.2.2
  | case2 c cs hne ih =>
    have hp : ¬"USD".toList <+: c :: cs := by
      rintro ⟨y,hy⟩
      cases hy
      exact hne y rfl rfl
    rw [replaceUsd_cons hp] at h
    cases p with
    | nil =>
      simp only [List.nil_append,String.reduceToList,List.cons_append,List.cons.injEq] at h
      obtain ⟨rfl,hsd⟩ := h
      obtain ⟨x,rfl,hd⟩ := replaceUsd_head hsd
      obtain ⟨y,rfl,_⟩ := replaceUsd_head (hd (by decide))
      exact absurd ⟨y,rfl⟩ hp
    | cons a p =>
      simp only [List.cons_append,List.cons.injEq] at h
      exact ih h.2
  | case3 => simp [replaceUsd] at h

/-- No text is replaced by one in which a "USD" goes on otherwise. -/
theorem replaceUsd_ne (x : List Char) {d r : List Char} (hd : "USD".toList <:+: d)
    (hn : ¬"USDT".toList <:+: d) (hr : r.head? ≠ some 'T') : replaceUsd x ≠ d ++ r := by
  intro heq
  obtain ⟨p,t,rfl⟩ := hd
  have hhead : (t ++ r).head? = some 'T' := replaceUsd_followed x (by rw [heq,List.append_assoc])
  cases t with
  | nil => exact hr hhead
  | cons c t =>
    cases Option.some.inj hhead
    exact hn ⟨p,t,by simp⟩

end Replace

section Trim

theorem trimReversed_spec (s : List Char) :
    ∃ r, s = r ++ trimReversed s ∧ (r = [] ↔ ¬"TDSU".toList <+: s) ∧ r.getLast? ≠ some 'T' := by
  induction s using trimReversed.induct with
  | case1 cs ih =>
    obtain ⟨r,hcs,_,hlast⟩ := ih
    refine ⟨"TDSU".toList ++ r,?_,?_,?_⟩
    · rw [trimReversed]
      nth_rewrite 1 [hcs]
      rfl
    · constructor
      · intro h
        cases h
      · intro h
        exact absurd ⟨cs,rfl⟩ h
    · cases r with
      | nil => decide
      | cons c r => simpa [List.getLast?_append] using hlast
  | case2 cs hne =>
    refine ⟨[],by rw [trimReversed.eq_2 cs hne,List.nil_append],?_,by simp⟩
    simp only [true_iff]
    rintro ⟨y,hy⟩
    exact hne y hy.symm

/-- What the trimming takes off does not begin with a "T". -/
theorem trimEndUsdt_spec (s : List Char) :
    ∃ r, s = trimEndUsdt s ++ r ∧ (r = [] ↔ ¬"USDT".toList <:+ s) ∧ r.head? ≠ some 'T' := by
  obtain ⟨r,hs,hnil,hlast⟩ := trimReversed_spec s.reverse
  refine ⟨r.reverse,?_,?_,?_⟩
  · rw [trimEndUsdt,← List.reverse_append,← hs,List.reverse_reverse]
  · have hsuffix : "USDT".toList.reverse <+: s.reverse ↔ "USDT".toList <:+ s := List.reverse_prefix
    rw [List.reverse_eq_nil_iff,hnil]
    exact not_congr hsuffix
  · simpa using hlast

theorem trimEndUsdt_append (s : List Char) : trimEndUsdt (s ++ "USDT".toList) = trimEndUsdt s := by
  rw [trimEndUsdt,List.reverse_append]
  rfl

end Trim

section Decode

/-- A suffix `x ++ y` of which `y` is dropped. -/
def strip (x y s : List Char) : List Char := if endsWith (x ++ y) s then dropEnd y.length s else s

/-- The last steps of `normalize_symbol`, about "USD" and "USDT". -/
def finish (s : List Char) : List Char :=
  let s := if contains "USD".toList s && !contains "USDT".toList s then replaceUsd s else s
  if !contains "USDT".toList s then s ++ "USDT".toList else s

theorem normalizeUpper_eq (s : List Char) :
    normalizeUpper s =
      finish (strip "USDT".toList "M".toList
        (strip [] "PERP".toList (strip [] "SWAP".toList (s.filter (· ≠ '-'))))) := rfl

variable {s d r x y : List Char}

theorem strip_off (h : ¬x ++ y <:+ s) : strip x y s = s := by
  unfold strip
  rw [if_neg (endsWith_iff.not.mpr h)]

theorem strip_on (x y s : List Char) : strip x y (s ++ x ++ y) = s ++ x := by
  unfold strip
  rw [if_pos (endsWith_iff.mpr ⟨s,by rw [List.append_assoc]⟩),dropEnd_append]

/-- What is stripped does not begin with a "T". -/
theorem strip_spec (hy : y ≠ []) (hT : y.head? ≠ some 'T') (s : List Char) :
    ∃ q, s = strip x y s ++ q ∧ (q = [] ↔ ¬x ++ y <:+ s) ∧ q.head? ≠ some 'T' := by
  by_cases h : x ++ y <:+ s
  · obtain ⟨p,rfl⟩ := h
    refine ⟨y,?_,?_,hT⟩
    · rw [← List.append_assoc,strip_on]
    · exact ⟨fun hnil => absurd hnil hy,fun hs => absurd (List.suffix_append _ _) hs⟩
  · exact ⟨[],by rw [strip_off h,List.append_nil],by simp [h],by simp⟩

theorem finish_usdt (h : "USDT".toList <:+: s) : finish s = s := by
  simp [-String.reduceToList,finish,contains_iff.mpr h]

theorem finish_plain (h : ¬"USD".toList <:+: s) : finish s = s ++ "USDT".toList := by
  have hn : ¬"USDT".toList <:+: s := fun hi => h (List.IsInfix.trans ⟨[],['T'],rfl⟩ hi)
  have hc : contains "USD".toList s = false := Bool.eq_false_iff.mpr (contains_iff.not.mpr h)
  have hcn : contains "USDT".toList s = false := Bool.eq_false_iff.mpr (contains_iff.not.mpr hn)
  simp [-String.reduceToList,finish,hc,hcn]

theorem finish_usd (h : "USD".toList <:+: s) (hn : ¬"USDT".toList <:+: s) :
    finish s = replaceUsd s := by
  have hcn : contains "USDT".toList s = false := Bool.eq_false_iff.mpr (contains_iff.not.mpr hn)
  simp [-String.reduceToList,finish,contains_iff.mpr h,hcn,contains_iff.mpr (replaceUsd_usdt h)]

theorem usdt_of_append_usd (h : "USDT".toList <:+: s ++ "USD".toList) : "USDT".toList <:+: s := by
  change "USDT".toList <:+: s ++ (['U'] ++ (['S'] ++ ['D'])) at h
  simp only [← List.append_assoc,List.infix_concat_iff] at h
  rcases h with hd | hs | hu | h
  · exact absurd hd (not_suffix (by decide) (by decide))
  · exact absurd hs (not_suffix (by decide) (by decide))
  · exact absurd hu (not_suffix (by decide) (by decide))
  · exact h

/-- A "USD" after a text without one becomes a "USDT". -/
theorem finish_append_usd (h : ¬"USD".toList <:+: s) :
    finish (s ++ "USD".toList) = s ++ "USDT".toList := by
  have hn : ¬"USDT".toList <:+: s ++ "USD".toList := by
    intro hi
    exact h (List.IsInfix.trans ⟨[],['T'],rfl⟩ (usdt_of_append_usd hi))
  rw [finish_usd ⟨s,[],by simp⟩ hn]
  simpa [-String.reduceToList,replaceUsd] using replaceUsd_first h []

/-- After a text with one it does not. -/
theorem finish_append_usd_ne (h : "USD".toList <:+: s) (hT : r.head? ≠ some 'T') :
    finish (s ++ "USD".toList) ≠ s ++ (r ++ "USDT".toList) := by
  by_cases husdt : "USDT".toList <:+: s
  · rw [finish_usdt (husdt.trans (List.prefix_append s _).isInfix)]
    intro heq
    have hlen := congrArg List.length (List.append_cancel_left heq)
    simp at hlen
  · rw [finish_usd ⟨s,[],by simp⟩ (fun hi => husdt (usdt_of_append_usd hi))]
    exact replaceUsd_ne _ h husdt (head_append hT (by decide))

/-- The last steps add a "USDT" only to a text without "USD". -/
theorem finish_iff (hr : r ≠ []) (hT : r.head? ≠ some 'T') :
    finish d = d ++ r ↔ ¬"USD".toList <:+: d ∧ r = "USDT".toList := by
  by_cases husd : "USD".toList <:+: d
  · have hne : finish d ≠ d ++ r := by
      by_cases husdt : "USDT".toList <:+: d
      · rw [finish_usdt husdt]
        intro heq
        exact hr (List.self_eq_append_right.mp heq)
      · rw [finish_usd husd husdt]
        exact replaceUsd_ne d husd husdt hT
    exact iff_of_false hne (fun h => h.1 husd)
  · rw [finish_plain husd,List.append_cancel_left_eq]
    exact ⟨fun h => ⟨husd,h.symm⟩,fun h => h.2.symm⟩

end Decode

section Spellings

variable {b : List Char}

theorem undashed (h : '-' ∉ b) (y : List Char) :
    (b ++ y).filter (· ≠ '-') = b ++ y.filter (· ≠ '-') := by
  rw [List.filter_append]
  congr 1
  apply List.filter_eq_self.mpr
  intro c hc
  have hne : c ≠ '-' := by
    rintro rfl
    exact h hc
  simpa using hne

theorem mem_of_mem_trim {c : Char} (h : c ∈ trimEndUsdt b) : c ∈ b := by
  obtain ⟨r,hb,_⟩ := trimEndUsdt_spec b
  rw [hb]
  exact List.mem_append_left r h

theorem decode_symbol (h : '-' ∉ b) : normalizeUpper (b ++ "USDT".toList) = b ++ "USDT".toList := by
  rw [normalizeUpper_eq,undashed h]
  change finish (strip _ _ (strip _ _ (strip _ _ (b ++ "USDT".toList)))) = _
  rw [strip_off (not_suffix (by decide) (by decide)),strip_off (not_suffix (by decide) (by decide)),
    strip_off (not_suffix (by decide) (by decide)),finish_usdt ⟨b,[],by simp⟩]

theorem decode_kucoin (h : '-' ∉ b) :
    normalizeUpper (b ++ "USDT".toList ++ "M".toList) = b ++ "USDT".toList := by
  rw [normalizeUpper_eq,List.append_assoc,undashed h]
  change finish (strip _ _ (strip _ _ (strip _ _ (b ++ ("USDT".toList ++ "M".toList))))) = _
  rw [strip_off (not_suffix (by decide) (by decide)),strip_off (not_suffix (by decide) (by decide)),
    ← List.append_assoc,strip_on,finish_usdt ⟨b,[],by simp⟩]

theorem decode_okx (h : '-' ∉ b) :
    normalizeUpper (trimEndUsdt b ++ "-USDT-SWAP".toList) = b ++ "USDT".toList ↔
      ¬"USDT".toList <:+ b := by
  have hdash : '-' ∉ trimEndUsdt b := fun hm => h (mem_of_mem_trim hm)
  obtain ⟨r,hb,hr,_⟩ := trimEndUsdt_spec b
  have hout : normalizeUpper (trimEndUsdt b ++ "-USDT-SWAP".toList) =
      trimEndUsdt b ++ "USDT".toList := by
    rw [normalizeUpper_eq,undashed hdash]
    change finish (strip _ _ (strip _ _ (strip _ _ (trimEndUsdt b ++
      ("USDT".toList ++ "SWAP".toList))))) = _
    rw [← List.append_assoc,← List.append_nil (trimEndUsdt b ++ "USDT".toList),strip_on,
      List.append_nil,strip_off (not_suffix (by decide) (by decide)),
      strip_off (not_suffix (by decide) (by decide)),
      finish_usdt ⟨trimEndUsdt b,[],by simp⟩]
  rw [hout,List.append_left_inj,← hr]
  nth_rewrite 2 [hb]
  exact ⟨fun heq => List.self_eq_append_right.mp heq,fun hnil => by rw [hnil,List.append_nil]⟩

theorem decode_paradex (h : '-' ∉ b) :
    normalizeUpper (trimEndUsdt b ++ "-USD-PERP".toList) = b ++ "USDT".toList ↔
      ¬"USD".toList <:+: b := by
  have hdash : '-' ∉ trimEndUsdt b := fun hm => h (mem_of_mem_trim hm)
  obtain ⟨r,hb,hr,hT⟩ := trimEndUsdt_spec b
  generalize trimEndUsdt b = t at hb hdash ⊢
  have hout : normalizeUpper (t ++ "-USD-PERP".toList) = finish (t ++ "USD".toList) := by
    rw [normalizeUpper_eq,undashed hdash]
    change finish (strip _ _ (strip _ _ (strip _ _ (t ++ ("USD".toList ++ "PERP".toList))))) = _
    rw [strip_off ((suffix_append (by decide)).not.mpr (by decide)),
      ← List.append_assoc,← List.append_nil (t ++ "USD".toList),strip_on,List.append_nil,
      strip_off (not_suffix (by decide) (by decide))]
  rw [hout]
  constructor
  · intro heq
    rw [hb,List.append_assoc] at heq
    have hfree : ¬"USD".toList <:+: t := fun hi => finish_append_usd_ne hi hT heq
    rw [finish_append_usd hfree,List.append_right_inj,List.self_eq_append_left] at heq
    rwa [hb,heq,List.append_nil]
  · intro hfree
    have hnil : r = [] := hr.mpr (fun hs => hfree (List.IsInfix.trans ⟨[],['T'],rfl⟩ hs.isInfix))
    rw [hnil,List.append_nil] at hb
    rw [hb] at hfree ⊢
    exact finish_append_usd hfree

theorem decode_hyperliquid (h : '-' ∉ b) :
    normalizeUpper (trimEndUsdt b) = b ++ "USDT".toList ↔
      ¬"USD".toList <:+: b ∧ ¬"SWAP".toList <:+ b ∧ ¬"PERP".toList <:+ b := by
  have hdash : '-' ∉ trimEndUsdt b := fun hm => h (mem_of_mem_trim hm)
  obtain ⟨r,hb,hr,hT⟩ := trimEndUsdt_spec b
  generalize trimEndUsdt b = t at hb hdash ⊢
  have hout : normalizeUpper t =
      finish (strip "USDT".toList "M".toList
        (strip [] "PERP".toList (strip [] "SWAP".toList t))) := by
    have hfilter := undashed hdash []
    rw [List.append_nil] at hfilter
    rw [normalizeUpper_eq,hfilter]
    simp
  obtain ⟨q₁,h₁,hn₁,hT₁⟩ := strip_spec (x := []) (y := "SWAP".toList) (by decide) (by decide) t
  generalize strip [] "SWAP".toList t = t₁ at hout h₁
  obtain ⟨q₂,h₂,hn₂,hT₂⟩ := strip_spec (x := []) (y := "PERP".toList) (by decide) (by decide) t₁
  generalize strip [] "PERP".toList t₁ = t₂ at hout h₂
  obtain ⟨q₃,h₃,hn₃,hT₃⟩ :=
    strip_spec (x := "USDT".toList) (y := "M".toList) (by decide) (by decide) t₂
  generalize strip "USDT".toList "M".toList t₂ = d at hout h₃
  have hsymbol : b ++ "USDT".toList = d ++ (q₃ ++ q₂ ++ q₁ ++ r ++ "USDT".toList) := by
    rw [hb,h₁,h₂,h₃]
    simp only [List.append_assoc]
  rw [hout,hsymbol,finish_iff (by simp)
    (head_append (head_append (head_append (head_append hT₃ hT₂) hT₁) hT) (by decide)),
      List.append_left_eq_self]
  simp only [List.append_eq_nil_iff]
  constructor
  · rintro ⟨hfree,⟨⟨⟨rfl,rfl⟩,rfl⟩,rfl⟩⟩
    simp only [List.append_nil] at hb h₁ h₂ h₃
    subst h₃ h₂ h₁ hb
    exact ⟨hfree,hn₁.mp rfl,hn₂.mp rfl⟩
  · rintro ⟨hfree,hswap,hperp⟩
    have husdt : ∀ {x}, "USDT".toList <:+: x → x <:+: b → False := fun hx hb =>
      hfree ((List.IsInfix.trans ⟨[],['T'],rfl⟩ hx).trans hb)
    cases hr.mpr (fun hs => husdt hs.isInfix List.infix_rfl)
    rw [List.append_nil] at hb
    subst hb
    cases hn₁.mpr hswap
    rw [List.append_nil] at h₁
    subst h₁
    cases hn₂.mpr hperp
    rw [List.append_nil] at h₂
    subst h₂
    cases hn₃.mpr (fun hs => husdt (List.prefix_append _ _).isInfix hs.isInfix)
    rw [List.append_nil] at h₃
    subst h₃
    exact ⟨hfree,⟨⟨⟨rfl,rfl⟩,rfl⟩,rfl⟩⟩

end Spellings

section Keys

/-- The last segment of a key. -/
def lastSegment (key : String) : String := .ofList ((key.toList.splitOn ':').getLastD [])

variable {exchange kind subkind segment symbol key : String}

theorem split_redisKey (hk : ':' ∉ kind.toList) (hsub : ':' ∉ subkind.toList)
    (hseg : ':' ∉ segment.toList) :
    (redisKey exchange kind subkind segment).toList.splitOn ':' =
      exchange.toList.splitOn ':' ++ [kind.toList,subkind.toList,segment.toList] := by
  have hkey : (redisKey exchange kind subkind segment).toList =
      exchange.toList ++ ':' ::
        (kind.toList ++ ':' :: (subkind.toList ++ ':' :: segment.toList)) := by
    simp [redisKey]
  rw [hkey,List.splitOn_append_cons_self,List.splitOn_append_cons_self,
    List.splitOn_append_cons_self,List.splitOn_eq_singleton hk,List.splitOn_eq_singleton hsub,
    List.splitOn_eq_singleton hseg]
  rfl

/-- The exchanges whose keys do not spell the symbol out. -/
def guessed : List String := ["okx","hyperliquid","paradex"]

/-- The keys of a symbol have four parts. Elsewhere the last is the symbol, or the symbol and an
"M". -/
theorem pattern_shape (hs : ':' ∉ symbol.toList) (h : key ∈ getRedisKeyPatterns exchange symbol) :
    ∃ kind subkind segment, key = redisKey exchange kind subkind segment ∧
      (':' ∉ kind.toList ∧ ':' ∉ subkind.toList ∧ ':' ∉ segment.toList) ∧
      (exchange.toLower ∉ guessed → segment = symbol ∨ segment = symbol ++ "M") := by
  have ht : ':' ∉ trimEndUsdt symbol.toList := fun hm => hs (mem_of_mem_trim hm)
  unfold getRedisKeyPatterns at h
  dsimp only at h
  split at h
  all_goals
    simp only [List.mem_cons,List.not_mem_nil,or_false] at h
    rcases h with rfl | rfl
  all_goals
    refine ⟨_,_,_,rfl,⟨by decide,by decide,?_⟩,?_⟩
    · simp [ht,hs]
    · simp [*,guessed]

theorem lastSegment_redisKey (hk : ':' ∉ kind.toList) (hsub : ':' ∉ subkind.toList)
    (hseg : ':' ∉ segment.toList) :
    lastSegment (redisKey exchange kind subkind segment) = segment := by
  rw [lastSegment,split_redisKey hk hsub hseg]
  simp

/-- The feed reads the exchange and the last segment off a key. -/
theorem keyPair_pattern (lib : Library) (he : ':' ∉ exchange.toList) (hs : ':' ∉ symbol.toList)
    (h : key ∈ getRedisKeyPatterns exchange symbol) :
    keyPair lib key = some (exchange,normalizeSymbol lib (lastSegment key)) := by
  obtain ⟨kind,subkind,segment,rfl,⟨hk,hsub,hseg⟩,_⟩ := pattern_shape hs h
  rw [keyPair,split_redisKey hk hsub hseg,lastSegment_redisKey hk hsub hseg,
    List.splitOn_eq_singleton he]
  simp

end Keys

section RoundTrip

/-- A base of upper-case letters and digits. -/
structure Base where
  text : List Char
  letters : ∀ c ∈ text, c.isUpper = true ∨ c.isDigit = true
  nonempty : text ≠ []

/-- The symbol of a base against "USDT". -/
def Base.symbol (b : Base) : String := .ofList (b.text ++ "USDT".toList)

/-- `to_uppercase` keeps a text that is in upper case. -/
def KeepsUpper (lib : Library) : Prop :=
  ∀ s : String, (∀ c ∈ s.toList, c.isUpper = true ∨ c.isDigit = true ∨ c = '-') →
    lib.toUppercase s = s

/-- The bases that an exchange's spelling leaves legible. -/
def Legible (exchange : String) (b : Base) : Prop :=
  match exchange.toLower with
  | "okx" => ¬"USDT".toList <:+ b.text
  | "hyperliquid" => ¬"USD".toList <:+: b.text ∧ ¬"SWAP".toList <:+ b.text ∧
    ¬"PERP".toList <:+ b.text
  | "paradex" => ¬"USD".toList <:+: b.text
  | _ => True

/-- The keys of a symbol are read as that symbol. -/
def RoundTrips (lib : Library) (exchange : String) (b : Base) : Prop :=
  ∀ key ∈ getRedisKeyPatterns exchange b.symbol, normalizeSymbol lib (lastSegment key) = b.symbol

variable {lib : Library} {exchange : String} {b : Base}

theorem Base.dashless (b : Base) : '-' ∉ b.text := by
  intro h
  rcases b.letters _ h with hu | hd
  · exact absurd hu (by decide)
  · exact absurd hd (by decide)

theorem Base.colonless (b : Base) : ':' ∉ b.symbol.toList := by
  intro h
  rw [Base.symbol,String.toList_ofList,List.mem_append] at h
  rcases h with h | h
  · rcases b.letters _ h with hu | hd
    · exact absurd hu (by decide)
    · exact absurd hd (by decide)
  · exact absurd h (by decide)

/-- The segment of a base with an ending. -/
theorem normalize_segment (hlib : KeepsUpper lib) {t y : List Char} (ht : ∀ c ∈ t, c ∈ b.text)
    (hy : ∀ c ∈ y, c.isUpper = true ∨ c.isDigit = true ∨ c = '-') :
    normalizeSymbol lib (.ofList (t ++ y)) = b.symbol ↔
      normalizeUpper (t ++ y) = b.text ++ "USDT".toList := by
  have hkeep : lib.toUppercase (.ofList (t ++ y)) = .ofList (t ++ y) := by
    apply hlib
    intro c hc
    rw [String.toList_ofList,List.mem_append] at hc
    rcases hc with hc | hc
    · rcases b.letters c (ht c hc) with hu | hd
      · exact .inl hu
      · exact .inr (.inl hd)
    · exact hy c hc
  rw [normalizeSymbol,hkeep,String.toList_ofList,Base.symbol,String.ofList_inj]

theorem normalize_symbol (hlib : KeepsUpper lib) (b : Base) :
    normalizeSymbol lib b.symbol = b.symbol :=
  (normalize_segment hlib (fun _ hc => hc) (by simp)).mpr (decode_symbol b.dashless)

theorem normalize_kucoin (hlib : KeepsUpper lib) (b : Base) :
    normalizeSymbol lib (b.symbol ++ "M") = b.symbol := by
  have htext : b.symbol ++ "M" = .ofList (b.text ++ ("USDT".toList ++ "M".toList)) := by
    apply String.toList_inj.mp
    simp [Base.symbol]
  rw [htext,normalize_segment hlib (fun _ hc => hc) (by simp),← List.append_assoc]
  exact decode_kucoin b.dashless

/-- The three spellings from which the base is guessed. -/
theorem normalize_trimmed (hlib : KeepsUpper lib) (b : Base) (y : String)
    (hy : ∀ c ∈ y.toList, c.isUpper = true ∨ c.isDigit = true ∨ c = '-') :
    normalizeSymbol lib (.ofList (trimEndUsdt b.symbol.toList) ++ y) = b.symbol ↔
      normalizeUpper (trimEndUsdt b.text ++ y.toList) = b.text ++ "USDT".toList := by
  have htext : String.ofList (trimEndUsdt b.symbol.toList) ++ y =
      .ofList (trimEndUsdt b.text ++ y.toList) := by
    rw [Base.symbol,String.toList_ofList,trimEndUsdt_append,String.ofList_append,
      String.ofList_toList]
  rw [htext]
  exact normalize_segment hlib (fun _ hc => mem_of_mem_trim hc) hy

theorem legible_of_spelled (h : exchange.toLower ∉ guessed) (b : Base) : Legible exchange b := by
  unfold Legible
  split
  · rename_i heq
    exact absurd (heq ▸ by decide) h
  · rename_i heq
    exact absurd (heq ▸ by decide) h
  · rename_i heq
    exact absurd (heq ▸ by decide) h
  · trivial

theorem roundTrips_iff (hlib : KeepsUpper lib) (exchange : String) (b : Base) :
    RoundTrips lib exchange b ↔ Legible exchange b := by
  have hs := b.colonless
  have ht : ':' ∉ trimEndUsdt b.symbol.toList := fun hm => hs (mem_of_mem_trim hm)
  have hsymbol := normalize_symbol hlib b
  by_cases hg : exchange.toLower ∈ guessed
  · simp only [guessed,List.mem_cons,List.not_mem_nil,or_false] at hg
    unfold RoundTrips getRedisKeyPatterns Legible
    rcases hg with he | he | he
    · rw [he]
      simp only [List.forall_mem_cons,List.not_mem_nil,false_imp_iff,implies_true,and_true]
      rw [lastSegment_redisKey (by decide) (by decide) (by simp [ht]),
        lastSegment_redisKey (by decide) (by decide) hs,
        normalize_trimmed hlib b _ (by simp),decode_okx b.dashless]
      simp only [hsymbol,and_true]
    · rw [he]
      simp only [List.forall_mem_cons,List.not_mem_nil,false_imp_iff,implies_true,and_true]
      have hplain := normalize_trimmed hlib b "" (by simp)
      rw [String.append_empty,String.toList_empty,List.append_nil,
        decode_hyperliquid b.dashless] at hplain
      rw [lastSegment_redisKey (by decide) (by decide) (by simp [ht]),
        lastSegment_redisKey (by decide) (by decide) (by simp [ht]),and_self,hplain]
    · rw [he]
      simp only [List.forall_mem_cons,List.not_mem_nil,false_imp_iff,implies_true,and_true]
      rw [lastSegment_redisKey (by decide) (by decide) (by simp [ht]),
        lastSegment_redisKey (by decide) (by decide) hs,
        normalize_trimmed hlib b _ (by simp),decode_paradex b.dashless]
      simp only [hsymbol,and_true]
  · refine iff_of_true ?_ (legible_of_spelled hg b)
    intro key hkey
    obtain ⟨kind,subkind,segment,rfl,⟨hk,hsub,hseg⟩,hspelled⟩ := pattern_shape hs hkey
    rw [lastSegment_redisKey hk hsub hseg]
    rcases hspelled hg with rfl | rfl
    · exact hsymbol
    · exact normalize_kucoin hlib b

end RoundTrip

section Feed

variable {lib : Library} {exchange : String} {b : Base}

/-- A quote under a key of the symbol is registered as a quote of the symbol. -/
def Registers (lib : Library) (exchange : String) (b : Base) : Prop :=
  ∀ key ∈ getRedisKeyPatterns exchange b.symbol, ∀ m value us u,
    (parseToMarketUpdate lib m key value us).1 = some u →
      (parseToMarketUpdate lib m key value us).2.toId (exchange,b.symbol) = some u.symbolId

theorem registers_of_roundTrips (he : ':' ∉ exchange.toList) (h : RoundTrips lib exchange b) :
    Registers lib exchange b := by
  intro key hkey m value us u hu
  have hpair := keyPair_pattern lib he b.colonless hkey
  rw [h key hkey] at hpair
  rcases parse_cases lib m key value us with hnone | ⟨e,symbol,bid,ask,hk,_,hsome⟩
  · rw [hnone] at hu
    cases hu
  · rw [hpair] at hk
    cases hk
    rw [hsome] at hu ⊢
    cases hu
    exact getOrInsert_registers m exchange b.symbol

/-- The keys of two bases are told apart. -/
def Apart (lib : Library) (exchange : String) (b₁ b₂ : Base) : Prop :=
  ∀ key₁ ∈ getRedisKeyPatterns exchange b₁.symbol, ∀ key₂ ∈ getRedisKeyPatterns exchange b₂.symbol,
    normalizeSymbol lib (lastSegment key₁) ≠ normalizeSymbol lib (lastSegment key₂)

theorem symbol_inj {b₁ b₂ : Base} (h : b₁.symbol = b₂.symbol) : b₁ = b₂ := by
  have htext := List.append_cancel_right (String.ofList_inj.mp h)
  cases b₁
  cases b₂
  cases htext
  rfl

theorem apart_of_roundTrips {b₁ b₂ : Base} (h₁ : RoundTrips lib exchange b₁)
    (h₂ : RoundTrips lib exchange b₂) (hne : b₁ ≠ b₂) : Apart lib exchange b₁ b₂ := by
  intro key₁ hkey₁ key₂ hkey₂ heq
  rw [h₁ key₁ hkey₁,h₂ key₂ hkey₂] at heq
  exact hne (symbol_inj heq)

/-- A base with another "USDT" to it. -/
def Base.usdt (b : Base) : Base where
  text := b.text ++ "USDT".toList
  letters c hc := by
    rcases List.mem_append.mp hc with hb | hu
    · exact b.letters c hb
    · left
      simp only [String.reduceToList,List.mem_cons,List.not_mem_nil,or_false] at hu
      rcases hu with rfl | rfl | rfl | rfl
      all_goals decide
  nonempty h := b.nonempty (List.append_eq_nil_iff.mp h).1

/-- Where the base is guessed, the two have a key in common. -/
theorem shared_key (h : exchange.toLower ∈ guessed) (b : Base) :
    ∃ key, key ∈ getRedisKeyPatterns exchange b.symbol ∧
      key ∈ getRedisKeyPatterns exchange b.usdt.symbol := by
  have htrim : trimEndUsdt b.usdt.symbol.toList = trimEndUsdt b.symbol.toList := by
    simp only [Base.symbol,Base.usdt,String.toList_ofList,trimEndUsdt_append]
  simp only [guessed,List.mem_cons,List.not_mem_nil,or_false] at h
  unfold getRedisKeyPatterns
  rw [htrim]
  rcases h with he | he | he
  all_goals
    rw [he]
    exact ⟨_,List.mem_cons_self,List.mem_cons_self⟩

theorem usdt_ne (b : Base) : b ≠ b.usdt := by
  intro h
  have htext : b.text = b.text ++ "USDT".toList := congrArg Base.text h
  exact absurd (List.self_eq_append_right.mp htext) (by decide)

/-- An exchange's bases are all told apart only where each of them is legible. -/
theorem apart_iff (hlib : KeepsUpper lib) (exchange : String) :
    (∀ b₁ b₂, b₁ ≠ b₂ → Apart lib exchange b₁ b₂) ↔ ∀ b, Legible exchange b := by
  constructor
  · intro hapart b
    apply legible_of_spelled
    intro hg
    obtain ⟨key,hkey,hkey'⟩ := shared_key hg b
    exact hapart b b.usdt (usdt_ne b) key hkey key hkey' rfl
  · intro hlegible b₁ b₂ hne
    exact apart_of_roundTrips ((roundTrips_iff hlib exchange b₁).mpr (hlegible b₁))
      ((roundTrips_iff hlib exchange b₂).mpr (hlegible b₂)) hne

/-- The keys of a legible base, and of no other, are read as the symbol they were made from. -/
theorem symbols_round_trip_iff (lib : Library) (hlib : KeepsUpper lib) (exchange : String)
    (he : ':' ∉ exchange.toList) :
    (∀ b, RoundTrips lib exchange b ∧ Registers lib exchange b ↔ Legible exchange b) ∧
    (∀ b₁ b₂, Legible exchange b₁ → Legible exchange b₂ → b₁ ≠ b₂ → Apart lib exchange b₁ b₂) ∧
    ((∀ b₁ b₂, b₁ ≠ b₂ → Apart lib exchange b₁ b₂) ↔ ∀ b, Legible exchange b) := by
  refine ⟨?_,?_,apart_iff hlib exchange⟩
  · intro b
    constructor
    · intro h
      exact (roundTrips_iff hlib exchange b).mp h.1
    · intro h
      have hrt := (roundTrips_iff hlib exchange b).mpr h
      exact ⟨hrt,registers_of_roundTrips he hrt⟩
  · intro b₁ b₂ h₁ h₂ hne
    exact apart_of_roundTrips ((roundTrips_iff hlib exchange b₁).mpr h₁)
      ((roundTrips_iff hlib exchange b₂).mpr h₂) hne

theorem toUpper_kept {c : Char} (h : c.isUpper = true ∨ c.isDigit = true ∨ c = '-') :
    c.toUpper = c := by
  have hsmall : ¬('a'.val ≤ c.val) := by
    intro ha
    rcases h with hu | hd | rfl
    · simp only [Char.isUpper,decide_eq_true_eq] at hu
      exact absurd (UInt32.le_trans ha hu.2) (by decide)
    · simp only [Char.isDigit,Bool.and_eq_true,decide_eq_true_eq] at hd
      exact absurd (UInt32.le_trans ha hd.2) (by decide)
    · exact absurd ha (by decide)
  unfold Char.toUpper
  rw [dif_neg (fun ha => hsmall ha.1)]

theorem keepsUpper_reading (texts : List (String × Json)) : KeepsUpper (reading texts) := by
  intro s hs
  apply String.toList_inj.mp
  change (s.map Char.toUpper).toList = s.toList
  rw [String.toList_map]
  exact (List.map_congr_left (fun c hc => toUpper_kept (hs c hc))).trans (List.map_id _)

def perp : Base := ⟨"PERP".toList,by simp [Char.isUpper],by simp⟩

def btc : Base := ⟨"BTC".toList,by simp [Char.isUpper],by simp⟩

theorem btc_round_trips :
    RoundTrips (reading []) "hyperliquid" btc ∧ Registers (reading []) "hyperliquid" btc := by
  apply ((symbols_round_trip_iff _ (keepsUpper_reading []) "hyperliquid" (by decide)).1 btc).mpr
  have he : "hyperliquid".toLower = "hyperliquid" := by decide +kernel
  unfold Legible
  rw [he]
  exact ⟨by decide,by decide,by decide⟩

theorem perp_read_as_usdt :
    getRedisKeyPatterns "hyperliquid" perp.symbol =
      ["hyperliquid:usdc:ctx:PERP","hyperliquid:usdc:bbo:PERP"] ∧
      normalizeSymbol (reading []) (lastSegment "hyperliquid:usdc:ctx:PERP") = "USDT" ∧
      ¬RoundTrips (reading []) "hyperliquid" perp := by
  have hkeys : getRedisKeyPatterns "hyperliquid" perp.symbol =
      ["hyperliquid:usdc:ctx:PERP","hyperliquid:usdc:bbo:PERP"] := by
    decide +kernel
  have hread : normalizeSymbol (reading []) (lastSegment "hyperliquid:usdc:ctx:PERP") = "USDT" := by
    decide +kernel
  refine ⟨hkeys,hread,?_⟩
  intro h
  have hperp := h "hyperliquid:usdc:ctx:PERP" (by rw [hkeys]; simp)
  rw [hread] at hperp
  exact absurd hperp (by decide)

end Feed

end SpreadArb.Proofs.Symbols
