import SpreadArb.OrderTexts
import SpreadArb.Proofs.Prices

namespace SpreadArb.Proofs.Texts
open Numeric

section Bybit
open BybitDemoClient

/-- No sign, and nothing after the last digit that counts. -/
structure Canonical (n : Numeral) : Prop where
  unsigned : n.negative = false
  last : ∀ ds, n.fraction = some ds → ds ≠ [] ∧ ds.getLast? ≠ some '0'

variable {x qtyStep size price : ℚ}

theorem formatted_positive (h : 0 ≤ x) (places : Nat) :
    (Numeral.formatted places x).negative = false := by
  simp [Numeral.formatted,Numeral.fixed,not_lt.mpr h]

theorem formatted_whole (places : Nat) (x : ℚ) : (Numeral.formatted places x).whole ≠ [] :=
  toDigits_ne_nil _

theorem trimmedText_spec (h : 0 ≤ x) : ∃ n : Numeral, n.text = trimmedText x ∧ Canonical n ∧
    n.value = (Numeral.formatted 8 x).value := by
  have hwhole := formatted_whole 8 x
  refine ⟨(Numeral.formatted 8 x).trim hwhole,?_,⟨?_,?_⟩,Numeral.value_trim _ hwhole⟩
  · exact (Numeral.text_trim _ hwhole rfl).symm
  · exact formatted_positive h 8
  · intro ds hds
    exact Numeral.trim_last _ hwhole hds

/-- Eight places show the multiples of 10⁻⁸ as they are. -/
theorem eight_places (h : 0 ≤ x) :
    (Numeral.formatted 8 x).value = x ↔ Grid.OnGrid (1 / 10 ^ 8) x := by
  rw [Numeral.value_formatted_eq_iff h]
  constructor
  · rintro ⟨n,hn⟩
    exact ⟨n,by rw [hn]; ring⟩
  · rintro ⟨n,hn⟩
    exact ⟨n,by rw [hn]; ring⟩

theorem roundedPrice_eq (price : ℚ) : roundedPrice price = Grid.roundTo (1 / 10 ^ 8) price := by
  unfold roundedPrice Grid.roundTo
  rw [div_div_eq_mul_div,div_one,mul_one_div]

theorem trimmedText_onGrid (h : 0 ≤ x) (hgrid : Grid.OnGrid (1 / 10 ^ 8) x) :
    ∃ n : Numeral, n.text = trimmedText x ∧ Canonical n ∧ n.value = x := by
  obtain ⟨n,htext,hcanonical,hvalue⟩ := trimmedText_spec h
  exact ⟨n,htext,hcanonical,hvalue.trans ((eight_places h).mpr hgrid)⟩

theorem onGrid_mul {unit step : ℚ} (hstep : Grid.OnGrid unit step) (hx : Grid.OnGrid step x) :
    Grid.OnGrid unit x := by
  obtain ⟨k,rfl⟩ := hstep
  obtain ⟨z,rfl⟩ := hx
  exact ⟨z * k,by push_cast; ring⟩

/-- The texts of an order for Bybit: the quantity denotes the multiple of the step next to the
order's, the price the order's own to eight decimals, and both without a digit too many. -/
theorem bybit_texts (hstep : 0 < qtyStep) (hplaces : Grid.OnGrid (1 / 10 ^ 8) qtyStep)
    (hsize : 0 ≤ size) (hprice : 0 ≤ price) :
    (∃ n : Numeral, n.text = qtyStr qtyStep size ∧ Canonical n ∧ Grid.OnGrid qtyStep n.value ∧
      |n.value - size| ≤ qtyStep / 2) ∧
    ∃ n : Numeral, n.text = priceStr price ∧ Canonical n ∧ |n.value - price| ≤ 1 / (2 * 10 ^ 8) ∧
      (Grid.OnGrid (1 / 10 ^ 8) price → n.value = price) := by
  have hunit : (0 : ℚ) < 1 / 10 ^ 8 := by norm_num
  constructor
  · have hgrid : Grid.OnGrid qtyStep (roundedQty qtyStep size) := Grid.roundTo_onGrid qtyStep size
    have hrounded : 0 ≤ roundedQty qtyStep size := Grid.roundTo_nonneg hstep hsize
    obtain ⟨n,htext,hcanonical,hvalue⟩ := trimmedText_onGrid hrounded (onGrid_mul hplaces hgrid)
    refine ⟨n,htext,hcanonical,?_,?_⟩
    · rw [hvalue]
      exact hgrid
    · rw [hvalue]
      exact Grid.abs_roundTo_sub_le hstep size
  · have hrounded : 0 ≤ roundedPrice price := by
      rw [roundedPrice_eq]
      exact Grid.roundTo_nonneg hunit hprice
    have hgrid : Grid.OnGrid (1 / 10 ^ 8) (roundedPrice price) := by
      rw [roundedPrice_eq]
      exact Grid.roundTo_onGrid _ price
    obtain ⟨n,htext,hcanonical,hvalue⟩ := trimmedText_onGrid hrounded hgrid
    rw [roundedPrice_eq] at hvalue
    refine ⟨n,htext,hcanonical,?_,?_⟩
    · rw [hvalue]
      have hclose := Grid.abs_roundTo_sub_le hunit price
      linarith
    · intro hexact
      rw [hvalue]
      exact (Grid.roundTo_eq_iff hunit).mpr hexact

/-- A step of a thousandth, and a price of half a dollar more than a hundred. -/
theorem bybit_texts_btc :
    (∃ n : Numeral, n.text = "0.123".toList ∧ Canonical n ∧ Grid.OnGrid (1/1000) n.value ∧
      |n.value - 12345/100000| ≤ 1/1000/2) ∧
    ∃ n : Numeral, n.text = "100.5".toList ∧ n.value = 201/2 := by
  have hplaces : Grid.OnGrid (1 / 10 ^ 8) (1/1000 : ℚ) := ⟨100000,by norm_num⟩
  have hqty : qtyStr (1/1000) (12345/100000) = "0.123".toList := by decide +kernel
  have hprice : priceStr (201/2) = "100.5".toList := by decide +kernel
  obtain ⟨hfirst,n,htext,_,_,hvalue⟩ := bybit_texts (by norm_num) hplaces
    (by norm_num : (0 : ℚ) ≤ 12345/100000) (by norm_num : (0 : ℚ) ≤ 201/2)
  rw [hqty] at hfirst
  rw [hprice] at htext
  exact ⟨hfirst,n,htext,hvalue ⟨10050000000,by norm_num⟩⟩

end Bybit

section Parse

theorem digitsValue_eq (cs : List Char) : F64.digitsValue cs = natural cs := by
  induction cs using List.reverseRecOn with
  | nil => rfl
  | append_singleton cs c ih =>
    rw [natural_concat,← ih]
    simp [F64.digitsValue,digit]

theorem takeWhile_all {ds : List Char} (h : ∀ c ∈ ds, c.isDigit = true) :
    ds.takeWhile Char.isDigit = ds ∧ ds.dropWhile Char.isDigit = [] :=
  ⟨List.takeWhile_eq_self_iff.mpr h,List.dropWhile_eq_nil_iff.mpr h⟩

theorem parseNumber_unsigned (n : Numeral) :
    F64.parseNumber n.unsigned = some (F64.ofRat n.magnitude) := by
  have hwhole := n.whole_digits
  have hfraction := n.fraction_digits
  have hne := n.nonempty
  unfold Numeral.unsigned Numeral.magnitude
  cases hf : n.fraction with
  | none =>
    rw [hf] at hne
    have hw : n.whole ≠ [] := by simpa using hne
    simp [F64.parseNumber,pointed,takeWhile_all hwhole,hw,F64.parseExponent,digitsValue_eq]
  | some ds =>
    rw [hf] at hfraction hne
    have hds : ∀ c ∈ ds, c.isDigit = true := hfraction
    have hw : ¬(n.whole = [] ∧ ds = []) := by simpa using hne
    have hvalue : (natural (n.whole ++ ds) : ℚ) * (10 ^ ds.length)⁻¹ =
        natural n.whole + natural ds / 10 ^ ds.length := by
      rw [natural_append]
      push_cast
      field_simp
    simp [F64.parseNumber,pointed,Prices.takeWhile_digits hwhole,takeWhile_all hds,hw,
      F64.parseExponent,digitsValue_eq,hvalue]

theorem toLower_digit {c : Char} (h : c.isDigit = true) : c.toLower = c := by
  simp only [Char.isDigit,Bool.and_eq_true,decide_eq_true_eq] at h
  unfold Char.toLower
  rw [dif_neg]
  intro hupper
  exact absurd (UInt32.le_trans hupper.1 h.2) (by decide)

/-- The standard parser reads a numeral without a sign as its number. -/
theorem parse_numeral (n : Numeral) (h : n.negative = false) :
    F64.parse n.text = some (F64.ofRat n.value) := by
  have htext : n.text = n.unsigned := by simp [Numeral.text,h]
  have hvalue : n.value = n.magnitude := by simp [Numeral.value,h]
  obtain ⟨d,hd,hdigit⟩ := n.digit_mem_text
  rw [htext] at hd ⊢
  have hmem : d ∈ n.unsigned.map Char.toLower := List.mem_map.mpr ⟨d,hd,toLower_digit hdigit⟩
  have hword : ∀ word : List Char, (∀ c ∈ word, c.isDigit = false) →
      n.unsigned.map Char.toLower ≠ word := by
    intro word hletters heq
    rw [heq] at hmem
    exact absurd hdigit (by simp [hletters d hmem])
  have hunsigned : F64.parseUnsigned n.unsigned = some (F64.ofRat n.value) := by
    unfold F64.parseUnsigned
    dsimp only
    rw [if_neg,if_neg,parseNumber_unsigned,hvalue]
    · exact hword ['n','a','n'] (by simp [Char.isDigit])
    · rw [Bool.or_eq_true,decide_eq_true_eq,decide_eq_true_eq]
      exact not_or.mpr ⟨hword ['i','n','f'] (by simp [Char.isDigit]),
        hword ['i','n','f','i','n','i','t','y'] (by simp [Char.isDigit])⟩
  have hsign : ∀ c ∈ n.unsigned, c ≠ '-' ∧ c ≠ '+' := by
    intro c hc
    rcases n.mem_unsigned hc with hdigit | rfl
    · constructor
      · rintro rfl
        cases hdigit
      · rintro rfl
        cases hdigit
    · decide
  unfold F64.parse
  split
  · next cs heq => exact absurd rfl (hsign '-' (by rw [heq]; exact List.mem_cons_self)).1
  · next cs heq => exact absurd rfl (hsign '+' (by rw [heq]; exact List.mem_cons_self)).2
  · exact hunsigned

/-- Numbers that a double holds without going to infinity or to zero. -/
theorem ofRat_moderate {q : ℚ} (h : q = 0 ∨ 1 / 10 ^ 10 ≤ q) (hle : q ≤ 2 ^ 1001) :
    F64.ofRat q = .fin q := by
  have hnonneg : 0 ≤ q := by
    rcases h with rfl | h
    · exact le_rfl
    · have hunit : (0 : ℚ) ≤ 1 / 10 ^ 10 := by norm_num
      exact hunit.trans h
  have htop : (2 : ℚ) ^ 1001 < 2 ^ 1024 - 2 ^ 970 := by
    have hpow : (0 : ℚ) < 2 ^ 970 := by positivity
    have hlow : (2 : ℚ) ^ 1001 = 2 ^ 970 * 2 ^ 31 := by rw [← pow_add]
    have hhigh : (2 : ℚ) ^ 1024 = 2 ^ 970 * 2 ^ 54 := by rw [← pow_add]
    rw [hlow,hhigh]
    generalize (2 : ℚ) ^ 970 = p at hpow ⊢
    norm_num
    linarith
  have hbottom : -(2 ^ 1024 - 2 ^ 970) < q := by
    have hpow : (0 : ℚ) < 2 ^ 1001 := by positivity
    exact (neg_neg_of_pos (hpow.trans htop)).trans_le hnonneg
  unfold F64.ofRat
  rw [if_neg (not_le.mpr (hle.trans_lt htop)),if_neg (not_le.mpr hbottom)]
  split
  · next hsmall =>
    rcases h with rfl | h
    · rfl
    · have hpow : (2 : ℚ) ^ 40 ≤ 2 ^ 1075 := pow_le_pow_right₀ (by norm_num) (by norm_num)
      have hlarge := mul_le_mul h hpow (by norm_num) hnonneg
      rw [abs_of_nonneg hnonneg] at hsmall
      exact absurd (hlarge.trans hsmall) (by norm_num)
  · rfl

end Parse

section Binance
open BinanceDemoClient

variable {tickSize price : ℚ}

/-- The places that are left of a numeral's text without the zeros at its end. -/
theorem places_of_text (n : Numeral) (hsign : n.negative = false) {ds : List Char}
    (hpoint : n.fraction = some ds) :
    lengthAfterPoint (n.text.rdropWhile (· = '0')) = (ds.rdropWhile (· = '0')).length := by
  have hwhole : ∀ c ∈ n.whole, (decide (c ≠ '.')) = true := by
    intro c hc
    rw [decide_eq_true_eq]
    rintro rfl
    cases n.whole_digits '.' hc
  have htext : n.text = n.whole ++ '.' :: ds := by
    simp [Numeral.text,Numeral.unsigned,hsign,hpoint,pointed]
  rw [htext,rdropWhile_append_cons (by decide),lengthAfterPoint,List.dropWhile_append_of_pos hwhole]
  simp

theorem formatted_places (places : Nat) (x : ℚ) :
    ((Numeral.formatted places x).fraction.getD []).length = places := by
  change ((if places = 0 then none else some (lastDigits places _)).getD []).length = places
  split
  · next h => simp [h]
  · simp

/-- The decimals of a tick are enough for it. -/
theorem tick_decimals (htick : 0 < tickSize) (hplaces : Grid.OnGrid (1 / 10 ^ 10) tickSize) :
    ∃ k : ℤ, tickSize = k / 10 ^ decimals tickSize := by
  have hwhole := formatted_whole 10 tickSize
  have hvalue : (Numeral.formatted 10 tickSize).value = tickSize := by
    rw [Numeral.value_formatted_eq_iff htick.le]
    obtain ⟨k,hk⟩ := hplaces
    exact ⟨k,by rw [hk]; ring⟩
  obtain ⟨k,hk⟩ := ((Numeral.formatted 10 tickSize).trim hwhole).value_places
  rw [Numeral.value_trim,hvalue] at hk
  refine ⟨k,?_⟩
  have hlength : decimals tickSize =
      (((Numeral.formatted 10 tickSize).trim hwhole).fraction.getD []).length := by
    unfold decimals
    rw [places_of_text _ (formatted_positive htick.le 10) rfl]
    change _ = ((trimFraction _).getD []).length
    rw [trimFraction_getD]
    rfl
  rw [hlength]
  exact hk

/-- The price text of an order for Binance denotes the multiple of the tick next to the price, with
the decimals of the tick, and the order keeps that price. -/
theorem binance_text (display : ℚ → List Char) (htick : 0 < tickSize)
    (hplaces : Grid.OnGrid (1 / 10 ^ 10) tickSize) (hprice : 0 ≤ price) (hle : price ≤ 2 ^ 1000) :
    ∃ n : Numeral, n.text = roundPriceToTick display price tickSize ∧ Grid.OnGrid tickSize n.value ∧
      |n.value - price| ≤ tickSize / 2 ∧ (n.fraction.getD []).length = decimals tickSize ∧
      placedPrice display price tickSize = .fin n.value := by
  have hrounded : 0 ≤ Grid.roundTo tickSize price := Grid.roundTo_nonneg htick hprice
  have htext : (Numeral.formatted (decimals tickSize) (Grid.roundTo tickSize price)).text =
      roundPriceToTick display price tickSize := by
    rw [roundPriceToTick,if_neg (not_le.mpr htick)]
  have hvalue : (Numeral.formatted (decimals tickSize) (Grid.roundTo tickSize price)).value =
      Grid.roundTo tickSize price := by
    obtain ⟨k,hk⟩ := tick_decimals htick hplaces
    rw [Numeral.value_formatted_eq_iff hrounded]
    refine ⟨Grid.nearest (price / tickSize) * k,?_⟩
    rw [Grid.roundTo]
    nth_rewrite 2 [hk]
    push_cast
    ring
  have hclose := Grid.abs_roundTo_sub_le htick price
  refine ⟨_,htext,?_,?_,?_,?_⟩
  · rw [hvalue]
    exact Grid.roundTo_onGrid tickSize price
  · rw [hvalue]
    exact hclose
  · exact formatted_places _ _
  · rw [placedPrice,← htext,parse_numeral _ (formatted_positive hrounded _),hvalue,Option.getD_some]
    obtain hzero | hge := (Grid.roundTo_onGrid tickSize price).eq_zero_or_le htick hrounded
    · rw [hzero]
      exact ofRat_moderate (.inl rfl) (by positivity)
    · obtain hzero | hunit := hplaces.eq_zero_or_le (by norm_num) htick.le
      · exact absurd hzero htick.ne'
      · apply ofRat_moderate (.inr (hunit.trans hge))
        have hupper := le_of_abs_le hclose
        have htwice : Grid.roundTo tickSize price ≤ 2 * price := by linarith
        calc Grid.roundTo tickSize price ≤ 2 * price := htwice
          _ ≤ 2 * 2 ^ 1000 := mul_le_mul_of_nonneg_left hle (by norm_num)
          _ = 2 ^ 1001 := (pow_succ' 2 1000).symm

/-- A price between two ticks of half a cent. -/
theorem binance_text_half_cent :
    ∃ n : Numeral, n.text = "1234.570".toList ∧ Grid.OnGrid (5/1000) n.value ∧
      |n.value - 12345678/10000| ≤ 5/1000/2 ∧
      placedPrice (fun _ => []) (12345678/10000) (5/1000) = .fin n.value := by
  have htext : roundPriceToTick (fun _ => []) (12345678/10000) (5/1000) = "1234.570".toList := by
    decide +kernel
  have hplaces : Grid.OnGrid (1 / 10 ^ 10) (5/1000 : ℚ) := ⟨50000000,by norm_num⟩
  have hle : (12345678/10000 : ℚ) ≤ 2 ^ 1000 := by
    have hpow : (2 : ℚ) ^ 20 ≤ 2 ^ 1000 := pow_le_pow_right₀ (by norm_num) (by norm_num)
    exact le_trans (by norm_num) hpow
  obtain ⟨n,hn,hgrid,hclose,_,hplaced⟩ :=
    binance_text (fun _ => []) (by norm_num) hplaces (by norm_num) hle
  exact ⟨n,hn.trans htext,hgrid,hclose,hplaced⟩

end Binance

end SpreadArb.Proofs.Texts
