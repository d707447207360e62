import Mathlib.Data.List.DropRight
import Mathlib.Data.Rat.Floor
import Mathlib.Tactic.FieldSimp
import Mathlib.Tactic.IntervalCases
import Mathlib.Tactic.Linarith
import SpreadArb.Numeric.Decimal
import SpreadArb.Numeric.Rounding

namespace Numeric

section Digits

theorem digit_digitChar {d : Nat} (h : d < 10) : digit (Nat.digitChar d) = d := by
  interval_cases d
  all_goals rfl

theorem digitChar_isDigit {d : Nat} (h : d < 10) : (Nat.digitChar d).isDigit = true := by
  interval_cases d
  all_goals rfl

theorem natural_append (ds es : List Char) :
    natural (ds ++ es) = natural ds * 10 ^ es.length + natural es := by
  induction ds with
  | nil => simp
  | cons c ds ih =>
    rw [List.cons_append,natural_cons,natural_cons,ih,List.length_append]
    ring

theorem natural_concat (ds : List Char) (c : Char) :
    natural (ds ++ [c]) = natural ds * 10 + digit c := by
  rw [natural_append]
  simp [natural]

/-- The last digits of a number, as many as there are places. -/
def lastDigits : Nat → Nat → List Char
  | 0, _ => []
  | places+1, n => lastDigits places (n / 10) ++ [Nat.digitChar (n % 10)]

@[simp] theorem length_lastDigits (places n : Nat) : (lastDigits places n).length = places := by
  induction places generalizing n with
  | zero => rfl
  | succ places ih => simp [lastDigits,ih]

theorem lastDigits_isDigit {places n : Nat} : ∀ c ∈ lastDigits places n, c.isDigit = true := by
  induction places generalizing n with
  | zero => simp [lastDigits]
  | succ places ih =>
    intro c hc
    rcases List.mem_append.mp hc with hc | hc
    · exact ih c hc
    · rw [List.mem_singleton.mp hc]
      exact digitChar_isDigit (Nat.mod_lt _ (by decide))

theorem natural_lastDigits (places n : Nat) : natural (lastDigits places n) = n % 10 ^ places := by
  induction places generalizing n with
  | zero => simp [lastDigits,Nat.mod_one]
  | succ places ih =>
    rw [lastDigits,natural_concat,ih,digit_digitChar (Nat.mod_lt _ (by decide)),Nat.pow_succ',
      Nat.mod_mul]
    ring

theorem toDigits_concat {n : Nat} (h : 10 ≤ n) :
    Nat.toDigits 10 n = Nat.toDigits 10 (n / 10) ++ [Nat.digitChar (n % 10)] := by
  have hlast : n % 10 < 10 := Nat.mod_lt _ (by decide)
  have hsplit := Nat.toDigits_append_toDigits (b := 10) (by decide)
      (Nat.div_pos h (by decide)) hlast
  rw [Nat.div_add_mod,Nat.toDigits_of_lt_base hlast] at hsplit
  exact hsplit.symm

theorem toDigits_isDigit (n : Nat) : ∀ c ∈ Nat.toDigits 10 n, c.isDigit = true := by
  induction n using Nat.strong_induction_on with
  | _ n ih =>
    by_cases h : n < 10
    · rw [Nat.toDigits_of_lt_base h]
      simpa using digitChar_isDigit h
    · rw [toDigits_concat (not_lt.mp h)]
      intro c hc
      rcases List.mem_append.mp hc with hc | hc
      · exact ih _ (by omega) c hc
      · rw [List.mem_singleton.mp hc]
        exact digitChar_isDigit (Nat.mod_lt _ (by decide))

theorem natural_toDigits (n : Nat) : natural (Nat.toDigits 10 n) = n := by
  induction n using Nat.strong_induction_on with
  | _ n ih =>
    by_cases h : n < 10
    · rw [Nat.toDigits_of_lt_base h]
      simpa [natural] using digit_digitChar h
    · rw [toDigits_concat (not_lt.mp h),natural_concat,ih _ (by omega),
        digit_digitChar (Nat.mod_lt _ (by decide))]
      omega

theorem toDigits_ne_nil (n : Nat) : Nat.toDigits 10 n ≠ [] := by
  by_cases h : n < 10
  · simp [Nat.toDigits_of_lt_base h]
  · simp [toDigits_concat (not_lt.mp h)]

end Digits

section Fixed

/-- `n` units of the last place, with a point unless there are no places. -/
def Numeral.fixed (negative : Bool) (places n : Nat) : Numeral where
  negative
  whole := Nat.toDigits 10 (n / 10 ^ places)
  fraction := if places = 0 then none else some (lastDigits places n)
  digits := by
    intro c hc
    rcases List.mem_append.mp hc with hc | hc
    · exact toDigits_isDigit _ c hc
    · split at hc
      · cases hc
      · exact lastDigits_isDigit c hc
  nonempty h := toDigits_ne_nil _ (List.append_eq_nil_iff.mp h).1

theorem Numeral.magnitude_fixed (negative : Bool) (places n : Nat) :
    (Numeral.fixed negative places n).magnitude = n / 10 ^ places := by
  have hfraction : (Numeral.fixed negative places n).fraction.getD [] = lastDigits places n := by
    unfold Numeral.fixed
    cases places with
    | zero => rfl
    | succ places => rfl
  have hmod : (n : ℚ) = 10 ^ places * (n / 10 ^ places : Nat) + (n % 10 ^ places : Nat) := by
    exact_mod_cast (Nat.div_add_mod n (10 ^ places)).symm
  rw [Numeral.magnitude,hfraction,natural_lastDigits,length_lastDigits]
  change (natural (Nat.toDigits 10 (n / 10 ^ places)) : ℚ) + _ = _
  rw [natural_toDigits]
  rw [hmod]
  field_simp

/-- A number with so many places after the point. -/
def Numeral.formatted (places : Nat) (x : ℚ) : Numeral :=
  .fixed (x < 0) places (halfEven (|x| * 10 ^ places)).toNat

theorem Numeral.value_formatted {x : ℚ} (h : 0 ≤ x) (places : Nat) :
    (Numeral.formatted places x).value = halfEven (x * 10 ^ places) / 10 ^ places := by
  have hpos : 0 ≤ x * 10 ^ places := by positivity
  have hnonneg : 0 ≤ halfEven (x * 10 ^ places) := by
    have hclose := neg_le_of_abs_le (abs_halfEven_sub_le (x * 10 ^ places))
    have hgt : (-1 : ℚ) < halfEven (x * 10 ^ places) := by linarith
    have hgt' : -1 < halfEven (x * 10 ^ places) := by exact_mod_cast hgt
    omega
  have hcast : ((halfEven (x * 10 ^ places)).toNat : ℚ) = halfEven (x * 10 ^ places) := by
    exact_mod_cast Int.toNat_of_nonneg hnonneg
  have hsign : (Numeral.formatted places x).negative = false := by
    simp [Numeral.formatted,Numeral.fixed,not_lt.mpr h]
  rw [Numeral.value,hsign,Numeral.formatted,Numeral.magnitude_fixed,abs_of_nonneg h,hcast]
  rfl

/-- The places are enough for a number, and what they show is the number itself. -/
theorem Numeral.value_formatted_eq_iff {x : ℚ} (h : 0 ≤ x) (places : Nat) :
    (Numeral.formatted places x).value = x ↔ ∃ n : ℤ, x = n / 10 ^ places := by
  have hpow : (10 : ℚ) ^ places ≠ 0 := by positivity
  rw [Numeral.value_formatted h]
  constructor
  · intro heq
    exact ⟨_,heq.symm⟩
  · rintro ⟨n,rfl⟩
    rw [div_mul_cancel₀ _ hpow,halfEven_intCast]

end Fixed

section Trim

/-- The text without the zeros and the point at its end. -/
def trimmed (cs : List Char) : List Char := (cs.rdropWhile (· = '0')).rdropWhile (· = '.')

theorem rdropWhile_append_cons {α : Type} {p : α → Bool} {x : α} (h : p x = false) (s t : List α) :
    (s ++ x :: t).rdropWhile p = s ++ x :: t.rdropWhile p := by
  induction t using List.reverseRecOn with
  | nil => simp [h]
  | append_singleton t y ih =>
    have hassoc : s ++ x :: (t ++ [y]) = (s ++ x :: t) ++ [y] := by simp
    rw [hassoc,List.rdropWhile_concat,List.rdropWhile_concat]
    split
    · exact ih
    · exact hassoc.symm

/-- A number is a multiple of the unit of its last place. -/
theorem Numeral.value_places (n : Numeral) :
    ∃ k : ℤ, n.value = k / 10 ^ (n.fraction.getD []).length := by
  have hmagnitude : n.magnitude =
      (natural (n.whole ++ n.fraction.getD []) : ℤ) / 10 ^ (n.fraction.getD []).length := by
    rw [Numeral.magnitude,natural_append]
    push_cast
    field_simp
  unfold Numeral.value
  rw [hmagnitude]
  cases n.negative with
  | true =>
    refine ⟨-natural (n.whole ++ n.fraction.getD []),?_⟩
    rw [if_pos rfl]
    push_cast
    ring
  | false => exact ⟨_,rfl⟩

/-- What the digits after a point are worth. -/
def afterPoint (ds : List Char) : ℚ := natural ds / 10 ^ ds.length

theorem afterPoint_trim (ds : List Char) :
    afterPoint (ds.rdropWhile (· = '0')) = afterPoint ds := by
  induction ds using List.reverseRecOn with
  | nil => rfl
  | append_singleton ds c ih =>
    rw [List.rdropWhile_concat]
    split
    · next hc =>
      have hzero : c = '0' := by simpa using hc
      have hdigit : digit '0' = 0 := rfl
      rw [ih,hzero]
      unfold afterPoint
      rw [natural_concat,hdigit,List.length_append,List.length_singleton,pow_succ]
      push_cast
      field_simp
      simp
    · rfl

/-- The digits after a point without the zeros at their end. -/
def trimFraction (ds : List Char) : Option (List Char) :=
  match ds.rdropWhile (· = '0') with
  | [] => none
  | c :: ds => some (c :: ds)

theorem trimFraction_getD (ds : List Char) :
    (trimFraction ds).getD [] = ds.rdropWhile (· = '0') := by
  unfold trimFraction
  split
  · next heq => exact heq.symm
  · next heq => exact heq.symm

/-- The numeral with the zeros at its end taken off, and the point if nothing is left after it. -/
def Numeral.trim (n : Numeral) (h : n.whole ≠ []) : Numeral where
  negative := n.negative
  whole := n.whole
  fraction := trimFraction (n.fraction.getD [])
  digits := by
    intro c hc
    rcases List.mem_append.mp hc with hc | hc
    · exact n.whole_digits c hc
    · rw [trimFraction_getD] at hc
      exact n.fraction_digits c ((List.rdropWhile_prefix _ _).subset hc)
  nonempty hnil := h (List.append_eq_nil_iff.mp hnil).1

theorem Numeral.value_trim (n : Numeral) (h : n.whole ≠ []) : (n.trim h).value = n.value := by
  have hmagnitude : (n.trim h).magnitude = n.magnitude := by
    have hfraction := afterPoint_trim (n.fraction.getD [])
    unfold afterPoint at hfraction
    change (natural n.whole : ℚ) + natural ((trimFraction _).getD []) / 10 ^
      ((trimFraction _).getD []).length = _
    rw [trimFraction_getD,hfraction]
    rfl
  unfold Numeral.value
  rw [hmagnitude]
  rfl

theorem Numeral.trim_last (n : Numeral) (h : n.whole ≠ []) {ds : List Char}
    (hds : (n.trim h).fraction = some ds) : ds ≠ [] ∧ ds.getLast? ≠ some '0' := by
  change trimFraction _ = _ at hds
  unfold trimFraction at hds
  split at hds
  · cases hds
  · next c es heq =>
    cases hds
    refine ⟨List.cons_ne_nil c es,?_⟩
    intro hlast
    obtain ⟨fs,hfs⟩ := List.getLast?_eq_some_iff.mp hlast
    -- taking the zeros off once more changes nothing
    have htwice := List.rdropWhile_idempotent (fun c => decide (c = '0')) (n.fraction.getD [])
    rw [heq,hfs,List.rdropWhile_concat_pos _ _ _ (by decide)] at htwice
    have hle := (List.rdropWhile_prefix (fun c => decide (c = '0')) fs).length_le
    rw [htwice] at hle
    simp at hle

/-- A text that ends with a digit has no point at its end. -/
theorem rdropWhile_point (s : List Char) {ds : List Char} (hne : ds ≠ [])
    (h : ∀ c ∈ ds, c.isDigit = true) : (s ++ ds).rdropWhile (· = '.') = s ++ ds := by
  obtain rfl | ⟨es,c,rfl⟩ := ds.eq_nil_or_concat'
  · exact absurd rfl hne
  · have hdigit : c.isDigit = true := h c (by simp)
    have hc : c ≠ '.' := by
      rintro rfl
      cases hdigit
    rw [← List.append_assoc]
    exact List.rdropWhile_concat_neg _ _ _ (by simpa using hc)

/-- The sign, if there is one. -/
def Numeral.sign (n : Numeral) : List Char := if n.negative then ['-'] else []

theorem Numeral.text_eq (n : Numeral) : n.text = n.sign ++ n.whole ++ pointed n.fraction := by
  unfold Numeral.text Numeral.sign Numeral.unsigned
  cases n.negative with
  | true => rfl
  | false => rfl

/-- The trimmed text is the text of the trimmed numeral. -/
theorem Numeral.text_trim (n : Numeral) (h : n.whole ≠ []) {ds : List Char}
    (hpoint : n.fraction = some ds) : trimmed n.text = (n.trim h).text := by
  have hdigits : ∀ c ∈ ds, c.isDigit = true := by
    have hfraction := n.fraction_digits
    rw [hpoint] at hfraction
    exact hfraction
  have htrim : (n.trim h).text = n.sign ++ n.whole ++ pointed (trimFraction ds) := by
    rw [Numeral.text_eq]
    change n.sign ++ n.whole ++ pointed (trimFraction (n.fraction.getD [])) = _
    rw [hpoint]
    rfl
  rw [trimmed,n.text_eq,hpoint,pointed,rdropWhile_append_cons (by decide),htrim,trimFraction]
  cases hrest : ds.rdropWhile (· = '0') with
  | nil =>
    rw [List.rdropWhile_concat_pos _ _ _ (by decide),rdropWhile_point _ h n.whole_digits]
    simp [pointed]
  | cons c es =>
    have hes : ∀ d ∈ c :: es, d.isDigit = true := by
      intro d hd
      apply hdigits d
      apply (List.rdropWhile_prefix _ _).subset
      rw [hrest]
      exact hd
    have hassoc : n.sign ++ n.whole ++ '.' :: c :: es =
        (n.sign ++ n.whole ++ ['.']) ++ c :: es := by simp
    rw [hassoc,rdropWhile_point _ (List.cons_ne_nil c es) hes]
    simp [pointed]

end Trim

end Numeric
