import SpreadArb.ExchangeParser
import SpreadArb.Numeric.Decimal
import Mathlib.Tactic.FieldSimp

namespace SpreadArb.Proofs.Prices
open Numeric

/-- A character of the strings in question. -/
def Plain (c : Char) : Prop := c.isDigit = true ∨ c = '.' ∨ c = '-'

/-- A price text that is not a numeral is refused, and a numeral gives its number. -/
def ParsesNumerals (s : String) : Prop :=
  ∀ v, parsePriceSimd s = some v ↔ ∃ n : Numeral, n.text = s.toList ∧ v = .fin n.value

section Scan

variable {ds fs : List Char}

/-- The loop over a run of digits. -/
theorem scan_digits (h : ∀ c ∈ ds, c.isDigit = true) (rest : List Char) (r d : Nat) (f : Bool) :
    scanPrice (ds ++ rest) r d f =
      scanPrice rest (r * 10 ^ ds.length + natural ds) (if f then d + ds.length else d) f := by
  induction ds generalizing r d with
  | nil => simp
  | cons c ds ih =>
    have hc : c.isDigit = true := h c (by simp)
    have hpoint : c ≠ '.' := by
      rintro rfl
      exact absurd hc (by decide)
    simp only [List.cons_append,scanPrice,hpoint,hc,if_true,if_false]
    rw [ih (fun c hc => h c (List.mem_cons_of_mem _ hc)),natural_cons]
    congr 1
    · simp only [List.length_cons,pow_succ,digit]
      ring
    · cases f
      · rfl
      · simp only [if_true,List.length_cons]
        ring

theorem scan_point (rest : List Char) (r d : Nat) :
    scanPrice ('.' :: rest) r d false = scanPrice rest r d true := rfl

theorem scan_sign (rest : List Char) (r d : Nat) (f : Bool) :
    scanPrice ('-' :: rest) r d f = .invalid := rfl

theorem scan_second_point (rest : List Char) (r d : Nat) :
    scanPrice ('.' :: rest) r d true = .fallback := rfl

/-- What the loop makes of digits, perhaps with a point among them. -/
theorem scan_spelled (hw : ∀ c ∈ ds, c.isDigit = true) {fraction : Option (List Char)}
    (hf : ∀ c ∈ fraction.getD [], c.isDigit = true) :
    scanPrice (ds ++ pointed fraction) 0 0 false =
      .value (natural ds + natural (fraction.getD []) / 10 ^ (fraction.getD []).length) := by
  rw [scan_digits hw]
  cases fraction with
  | none => simp [pointed,scanPrice]
  | some fs =>
    have hfs : ∀ c ∈ fs, c.isDigit = true := by simpa using hf
    have hnil := scan_digits hfs [] (0 * 10 ^ ds.length + natural ds) 0 true
    rw [List.append_nil] at hnil
    simp only [pointed,scan_point,hnil,Bool.false_eq_true,if_false,if_true,scanPrice,
      Option.getD_some]
    congr 1
    push_cast
    field_simp
    ring

end Scan

section Shapes

/-- What comes after the leading digits of a plain text. -/
theorem leading_digits {cs : List Char} (h : ∀ c ∈ cs, Plain c) :
    ∃ ds rest, cs = ds ++ rest ∧ (∀ c ∈ ds, c.isDigit = true) ∧
      (rest = [] ∨ (∃ more, rest = '.' :: more) ∨ ∃ more, rest = '-' :: more) := by
  induction cs with
  | nil => exact ⟨[],[],rfl,by simp,.inl rfl⟩
  | cons c cs ih =>
    obtain ⟨ds,rest,hcs,hds,hrest⟩ := ih (fun c hc => h c (List.mem_cons_of_mem _ hc))
    rcases h c (by simp) with hdigit | rfl | rfl
    · refine ⟨c :: ds,rest,by rw [hcs]; rfl,?_,hrest⟩
      intro c' hc'
      rcases List.mem_cons.mp hc' with rfl | hmem
      · exact hdigit
      · exact hds c' hmem
    · exact ⟨[],'.' :: cs,rfl,by simp,.inr (.inl ⟨cs,rfl⟩)⟩
    · exact ⟨[],'-' :: cs,rfl,by simp,.inr (.inr ⟨cs,rfl⟩)⟩

/-- A text of digits with at most one point among them. -/
def Spelled (cs : List Char) : Prop :=
  ∃ ds fraction, cs = ds ++ pointed fraction ∧ (∀ c ∈ ds, c.isDigit = true) ∧
    ∀ c ∈ fraction.getD [], c.isDigit = true

/-- A plain text that is not spelled has a sign in it, which the loop refuses, or two points. -/
theorem scan_unspelled {cs : List Char} (h : ∀ c ∈ cs, Plain c) (hs : ¬Spelled cs) :
    scanPrice cs 0 0 false = .invalid ∨
      ∃ ds fs rest, cs = ds ++ '.' :: (fs ++ '.' :: rest) ∧ (∀ c ∈ ds, c.isDigit = true) ∧
        (∀ c ∈ fs, c.isDigit = true) ∧ scanPrice cs 0 0 false = .fallback := by
  obtain ⟨ds,rest,rfl,hds,rfl | ⟨more,rfl⟩ | ⟨more,rfl⟩⟩ := leading_digits h
  · exact absurd ⟨ds,none,rfl,hds,by simp⟩ hs
  · have hmore : ∀ c ∈ more, Plain c := fun c hc =>
      h c (List.mem_append_right _ (List.mem_cons_of_mem _ hc))
    obtain ⟨fs,rest,rfl,hfs,rfl | ⟨tail,rfl⟩ | ⟨tail,rfl⟩⟩ := leading_digits hmore
    · refine absurd ⟨ds,some fs,?_,hds,by simpa using hfs⟩ hs
      simp [pointed]
    · refine .inr ⟨ds,fs,tail,rfl,hds,hfs,?_⟩
      rw [scan_digits hds,scan_point,scan_digits hfs,scan_second_point]
    · left
      rw [scan_digits hds,scan_point,scan_digits hfs,scan_sign]
  · left
    rw [scan_digits hds,scan_sign]

theorem takeWhile_digits {ds : List Char} (h : ∀ c ∈ ds, c.isDigit = true) (rest : List Char) :
    (ds ++ '.' :: rest).takeWhile Char.isDigit = ds ∧ (ds ++ '.' :: rest).dropWhile Char.isDigit =
      '.' :: rest := by
  have hpoint : Char.isDigit '.' = false := rfl
  rw [List.takeWhile_append_of_pos h,List.dropWhile_append_of_pos h]
  simp [hpoint]

/-- The standard parser refuses a second point. -/
theorem parseUnsigned_two_points {ds fs : List Char} (hds : ∀ c ∈ ds, c.isDigit = true)
    (hfs : ∀ c ∈ fs, c.isDigit = true) (rest : List Char) :
    F64.parseUnsigned (ds ++ '.' :: (fs ++ '.' :: rest)) = none := by
  have hnumber : F64.parseNumber (ds ++ '.' :: (fs ++ '.' :: rest)) = none := by
    unfold F64.parseNumber
    simp only [takeWhile_digits hds,takeWhile_digits hfs]
    split
    · rfl
    · rfl
  have hmem : '.' ∈ (ds ++ '.' :: (fs ++ '.' :: rest)).map Char.toLower :=
    List.mem_map.mpr ⟨'.',by simp,rfl⟩
  unfold F64.parseUnsigned
  dsimp only
  rw [if_neg,if_neg,hnumber]
  · intro heq
    rw [heq] at hmem
    exact absurd hmem (by decide)
  · intro heq
    rcases Bool.or_eq_true_iff.mp heq with heq | heq
    all_goals
      rw [decide_eq_true_eq] at heq
      rw [heq] at hmem
      exact absurd hmem (by decide)

end Shapes

section Parse

theorem Plain.utf8Size {c : Char} (h : Plain c) : c.utf8Size = 1 := by
  rcases h with hdigit | rfl | rfl
  · unfold Char.utf8Size
    simp only [Char.isDigit,Bool.and_eq_true,decide_eq_true_eq] at hdigit
    rw [if_pos]
    exact UInt32.le_trans hdigit.2 (by decide)
  · rfl
  · rfl

theorem plain_bytes {cs : List Char} (h : ∀ c ∈ cs, Plain c) :
    (cs.map Char.utf8Size).sum = cs.length := by
  induction cs with
  | nil => rfl
  | cons c cs ih =>
    simp only [List.map_cons,List.sum_cons,List.length_cons,(h c (by simp)).utf8Size,
      ih (fun c hc => h c (List.mem_cons_of_mem _ hc))]
    ring

/-- A plain text of up to 32 characters goes through the loop. -/
theorem fast_plain {cs : List Char} (h : ∀ c ∈ cs, Plain c) (hne : cs ≠ [])
    (hlen : cs.length ≤ 32) :
    (decide (cs = []) || decide ((cs.map Char.utf8Size).sum > 32)) = false := by
  rw [plain_bytes h]
  simp [hne,hlen]

theorem splitSign_text (n : Numeral) : splitSign n.text = (n.negative,n.unsigned) := by
  unfold Numeral.text
  cases hneg : n.negative with
  | true => rfl
  | false =>
    simp only [Bool.false_eq_true,if_false]
    cases hu : n.unsigned with
    | nil => rfl
    | cons c cs =>
      have hc := n.mem_unsigned (c := c) (by simp [hu])
      unfold splitSign
      split
      · rename_i heq
        obtain ⟨rfl,-⟩ := List.cons.inj heq
        exact absurd hc (by decide)
      · rfl

theorem text_plain (n : Numeral) : ∀ c ∈ n.text, Plain c := by
  intro c hc
  have hunsigned : ∀ c ∈ n.unsigned, Plain c := fun c hc => (n.mem_unsigned hc).imp_right .inl
  unfold Numeral.text at hc
  split at hc
  · rcases List.mem_cons.mp hc with rfl | hc
    · exact .inr (.inr rfl)
    · exact hunsigned c hc
  · exact hunsigned c hc

/-- A numeral gives its number. -/
theorem fast_numeral (n : Numeral) (hlen : n.text.length ≤ 32) :
    parsePriceFast n.text = some (.fin n.value) := by
  obtain ⟨c,hc,-⟩ := n.digit_mem_text
  have hscan := scan_spelled n.whole_digits n.fraction_digits
  unfold parsePriceFast
  rw [fast_plain (text_plain n) (List.ne_nil_of_mem hc) hlen,splitSign_text]
  simp only [Numeral.unsigned,hscan,Numeral.value,Numeral.magnitude,Bool.false_eq_true,if_false]

theorem splitSign_cases (cs : List Char) :
    cs = '-' :: (splitSign cs).2 ∧ (splitSign cs).1 = true ∨ cs = (splitSign cs).2 ∧
      (splitSign cs).1 = false := by
  unfold splitSign
  split
  · exact .inl ⟨rfl,rfl⟩
  · exact .inr ⟨rfl,rfl⟩

/-- The standard parser leaves out the sign too. -/
theorem parse_two_points {cs ds fs rest : List Char} (h : ∀ c ∈ cs, Plain c)
    (hcs : (splitSign cs).2 = ds ++ '.' :: (fs ++ '.' :: rest)) (hds : ∀ c ∈ ds, c.isDigit = true)
    (hfs : ∀ c ∈ fs, c.isDigit = true) : F64.parse cs = none := by
  have hnone := parseUnsigned_two_points hds hfs rest
  rw [← hcs] at hnone
  unfold F64.parse
  split
  · exact Option.map_eq_none_iff.mpr hnone
  · exact absurd (h '+' (by simp)) (by unfold Plain; decide)
  · rename_i hsign _
    rcases splitSign_cases cs with ⟨heq,-⟩ | ⟨heq,-⟩
    · exact absurd heq (hsign _)
    · rw [heq]
      exact hnone

theorem fast_unspelled {cs : List Char} (h : ∀ c ∈ cs, Plain c) (hne : cs ≠ [])
    (hlen : cs.length ≤ 32) (hs : ¬Spelled (splitSign cs).2) : parsePriceFast cs = none := by
  have hrest : ∀ c ∈ (splitSign cs).2, Plain c := by
    intro c hc
    rcases splitSign_cases cs with ⟨heq,-⟩ | ⟨heq,-⟩
    · exact h c (heq ▸ List.mem_cons_of_mem _ hc)
    · exact h c (heq ▸ hc)
  unfold parsePriceFast
  rw [fast_plain h hne hlen]
  rcases scan_unspelled hrest hs with hscan | ⟨ds,fs,rest,hcs,hds,hfs,hscan⟩
  · simp [hscan]
  · simp [hscan,parse_two_points h hcs hds hfs]

/-- The texts without a digit that the loop takes for zero. -/
def Degenerate (s : String) : Prop := s = "-" ∨ s = "." ∨ s = "-."

/-- A plain text that is spelled but is no numeral is degenerate. -/
theorem numeral_or_degenerate {s : String} (hne : s.toList ≠ [])
    (hs : Spelled (splitSign s.toList).2) : (∃ n : Numeral, n.text = s.toList) ∨ Degenerate s := by
  obtain ⟨ds,fraction,hcs,hds,hfs⟩ := hs
  by_cases hdigits : ds ++ fraction.getD [] = []
  · right
    obtain ⟨rfl,hnil⟩ := List.append_eq_nil_iff.mp hdigits
    have htext : (splitSign s.toList).2 = [] ∨ (splitSign s.toList).2 = ['.'] := by
      cases fraction with
      | none => exact .inl hcs
      | some fs =>
        obtain rfl : fs = [] := hnil
        exact .inr hcs
    rcases splitSign_cases s.toList with ⟨heq,-⟩ | ⟨heq,-⟩ <;> rcases htext with hrest | hrest <;>
      rw [hrest] at heq
    · exact .inl (String.toList_inj.mp heq)
    · exact .inr (.inr (String.toList_inj.mp heq))
    · exact absurd heq hne
    · exact .inr (.inl (String.toList_inj.mp heq))
  · left
    refine ⟨⟨(splitSign s.toList).1,ds,fraction,?_,hdigits⟩,?_⟩
    · intro c hc
      rcases List.mem_append.mp hc with hc | hc
      · exact hds c hc
      · exact hfs c hc
    · unfold Numeral.text Numeral.unsigned
      dsimp only
      rw [← hcs]
      rcases splitSign_cases s.toList with ⟨heq,hsign⟩ | ⟨heq,hsign⟩
      · rw [hsign,if_pos rfl]
        exact heq.symm
      · rw [hsign,if_neg (by simp)]
        exact heq.symm

/-- Over the digits, the point and the sign, a price text of up to 32 characters is parsed as the
grammar of numerals has it, unless it is one of the three texts without a digit that the loop takes
for zero. -/
theorem parses_numerals_iff (s : String) (hchars : ∀ c ∈ s.toList, Plain c) (hne : s ≠ "")
    (hlen : s.toList.length ≤ 32) : ParsesNumerals s ↔ ¬Degenerate s := by
  have hcs : s.toList ≠ [] := fun h => hne (String.toList_inj.mp h)
  have hfast : parsePriceSimd s = parsePriceFast s.toList := if_neg hne
  constructor
  · rintro hparses hdeg
    have hzero : parsePriceSimd s = some (.fin 0) := by
      rcases hdeg with rfl | rfl | rfl <;> decide +kernel
    obtain ⟨n,htext,-⟩ := (hparses _).mp hzero
    obtain ⟨c,hc,hdigit⟩ := n.digit_mem_text
    rw [htext] at hc
    have hno : ∀ c ∈ s.toList, c.isDigit = false := by
      rcases hdeg with rfl | rfl | rfl <;> simp [Char.isDigit]
    rw [hno c hc] at hdigit
    cases hdigit
  · intro hdeg v
    rw [hfast]
    constructor
    · intro hv
      by_cases hs : Spelled (splitSign s.toList).2
      · obtain ⟨n,htext⟩ := (numeral_or_degenerate hcs hs).resolve_right hdeg
        refine ⟨n,htext,?_⟩
        rw [← htext,fast_numeral n (htext ▸ hlen)] at hv
        exact (Option.some.inj hv).symm
      · rw [fast_unspelled hchars hcs hlen hs] at hv
        cases hv
    · rintro ⟨n,htext,rfl⟩
      rw [← htext]
      exact fast_numeral n (htext ▸ hlen)

theorem parses_numeral :
    ((∀ c ∈ "-0.123".toList, Plain c) ∧ "-0.123" ≠ "" ∧ "-0.123".toList.length ≤ 32) ∧
      (ParsesNumerals "-0.123" ↔ ¬Degenerate "-0.123") :=
  have h : (∀ c ∈ "-0.123".toList, Plain c) ∧ "-0.123" ≠ "" ∧ "-0.123".toList.length ≤ 32 := by
    simp [Plain,Char.isDigit]
  ⟨h,parses_numerals_iff "-0.123" h.1 h.2.1 h.2.2⟩

/-- A sign alone is taken for zero. -/
theorem sign_alone : ¬ParsesNumerals "-" := by
  intro h
  have hzero : parsePriceSimd "-" = some (.fin 0) := by decide +kernel
  obtain ⟨n,htext,-⟩ := (h _).mp hzero
  obtain ⟨c,hc,hdigit⟩ := n.digit_mem_text
  rw [htext] at hc
  obtain rfl : c = '-' := by simpa using hc
  exact absurd hdigit (by decide)

end Parse

end SpreadArb.Proofs.Prices
