import Mathlib
import SpreadArb.Numeric.Rounding

namespace Numeric

/-- A double as far as programs branch on it. Arithmetic rounds to the nearest double, and the
infinities and the values that are not numbers behave as IEEE 754 says; zeros have no sign. What is
read from a text keeps the value of the text. -/
inductive F64 where
  | fin (q : ℚ)
  | inf
  | negInf
  | nan
deriving DecidableEq

namespace F64

/-- Comparisons with `nan` are false. -/
def lt : F64 → F64 → Bool
  | fin a, fin b => a < b
  | fin _, inf | negInf, fin _ | negInf, inf => true
  | _, _ => false

def le : F64 → F64 → Bool
  | fin a, fin b => a ≤ b
  | fin _, inf | negInf, fin _ | negInf, inf | inf, inf | negInf, negInf => true
  | _, _ => false

def isFinite : F64 → Bool
  | fin _ => true
  | _ => false

def neg : F64 → F64
  | fin q => fin (-q)
  | inf => negInf
  | negInf => inf
  | nan => nan

def abs : F64 → F64
  | fin q => fin |q|
  | negInf => inf
  | x => x

/-- The double next to a number: the exact result of an operation, or a literal. -/
def round (q : ℚ) : F64 :=
  if 2 ^ 1024 ≤ rounded q then inf
  else if rounded q ≤ -2 ^ 1024 then negInf
  else fin (rounded q)

def add : F64 → F64 → F64
  | fin a, fin b => round (a + b)
  | inf, fin _ | fin _, inf | inf, inf => inf
  | negInf, fin _ | fin _, negInf | negInf, negInf => negInf
  | _, _ => nan

/-- The infinity with the sign of `q`. -/
def ofSign (q : ℚ) : F64 := if 0 < q then inf else if q < 0 then negInf else nan

def mul : F64 → F64 → F64
  | fin a, fin b => round (a * b)
  | fin a, inf | inf, fin a => ofSign a
  | fin a, negInf | negInf, fin a => ofSign (-a)
  | inf, inf | negInf, negInf => inf
  | inf, negInf | negInf, inf => negInf
  | _, _ => nan

def div : F64 → F64 → F64
  | fin a, fin b => if b = 0 then ofSign a else round (a / b)
  | fin _, inf | fin _, negInf => fin 0
  | inf, fin b => if b < 0 then negInf else inf
  | negInf, fin b => if b < 0 then inf else negInf
  | _, _ => nan

instance : Neg F64 := ⟨neg⟩
instance : Add F64 := ⟨add⟩
instance : Sub F64 := ⟨fun a b => add a (neg b)⟩
instance : Mul F64 := ⟨mul⟩
instance : Div F64 := ⟨div⟩

/-- The smaller one; an argument that is not a number is ignored. -/
protected def min : F64 → F64 → F64
  | nan, b => b
  | a, nan => a
  | a, b => if lt b a then b else a

def floor : F64 → F64
  | fin q => fin ⌊q⌋
  | x => x

def clamp (x lo hi : F64) : F64 := if lt x lo then lo else if lt hi x then hi else x

/-- The cast to a byte: towards zero, saturating, and zero for `nan`. -/
def toU8 : F64 → Nat
  | fin q => if q ≤ 0 then 0 else if 255 ≤ q then 255 else ⌊q⌋.toNat
  | inf => 255
  | negInf | nan => 0

/-- What a text with this value is read as: what is too large is infinite, what is too small is
zero. -/
def ofRat (q : ℚ) : F64 :=
  if 2 ^ 1024 - 2 ^ 970 ≤ q then inf
  else if q ≤ -(2 ^ 1024 - 2 ^ 970) then negInf
  else if |q| * 2 ^ 1075 ≤ 1 then fin 0
  else fin q

section Parse

/-- The value of a string of decimal digits. -/
def digitsValue (cs : List Char) : Nat := cs.foldl (fun n c => n * 10 + (c.toNat - '0'.toNat)) 0

/-- The exponent part of a number, with nothing after it. -/
def parseExponent : List Char → Option ℤ
  | [] => some 0
  | e :: cs =>
    if e = 'e' || e = 'E' then
      match cs with
      | '-' :: ds => if ds ≠ [] && ds.all Char.isDigit then some (-digitsValue ds) else none
      | '+' :: ds => if ds ≠ [] && ds.all Char.isDigit then some (digitsValue ds) else none
      | ds => if ds ≠ [] && ds.all Char.isDigit then some (digitsValue ds) else none
    else none

/-- An unsigned decimal number. -/
def parseNumber (cs : List Char) : Option F64 :=
  let whole := cs.takeWhile Char.isDigit
  let rest := cs.dropWhile Char.isDigit
  let (fraction,rest) := match rest with
    | '.' :: ds => (ds.takeWhile Char.isDigit,ds.dropWhile Char.isDigit)
    | _ => ([],rest)
  if whole = [] && fraction = [] then none
  else (parseExponent rest).map (fun e : ℤ =>
    ofRat (digitsValue (whole ++ fraction) * (10 : ℚ) ^ (e - (fraction.length : ℤ))))

def parseUnsigned (cs : List Char) : Option F64 :=
  let lower := cs.map Char.toLower
  if lower = ['i','n','f'] || lower = ['i','n','f','i','n','i','t','y'] then some inf
  else if lower = ['n','a','n'] then some nan
  else parseNumber cs

/-- The standard parser of doubles. -/
def parse : List Char → Option F64
  | '-' :: cs => (parseUnsigned cs).map neg
  | '+' :: cs => parseUnsigned cs
  | cs => parseUnsigned cs

end Parse

section Lemmas

variable {a b c : ℚ} {x y z : F64}

@[simp] theorem fin_add : fin a + fin b = round (a + b) := rfl

@[simp] theorem fin_sub : fin a - fin b = round (a - b) :=
  congrArg round (sub_eq_add_neg a b).symm

@[simp] theorem fin_mul : fin a * fin b = round (a * b) := rfl

theorem fin_div (h : b ≠ 0) : fin a / fin b = round (a / b) := if_neg h

@[simp] theorem lt_fin : lt (fin a) (fin b) = decide (a < b) := rfl

@[simp] theorem le_fin : le (fin a) (fin b) = decide (a ≤ b) := rfl

/-- Away from `nan` the comparisons complement each other. -/
theorem le_eq_not_lt (hx : x ≠ nan) (hy : y ≠ nan) : le x y = !lt y x := by
  cases x <;> cases y <;>
    first | rfl | exact absurd rfl hx | exact absurd rfl hy | simp [← not_lt]

protected theorem lt_trans (h : lt x y = true) (h' : lt y z = true) : lt x z = true := by
  cases x <;> cases y <;> cases z <;>
    simp only [lt,decide_eq_true_eq,Bool.false_eq_true] at h h' ⊢
  exact h.trans h'

protected theorem le_trans (h : le x y = true) (h' : le y z = true) : le x z = true := by
  cases x <;> cases y <;> cases z <;>
    simp only [le,decide_eq_true_eq,Bool.false_eq_true] at h h' ⊢
  exact h.trans h'

protected theorem le_of_lt (h : lt x y = true) : le x y = true := by
  cases x <;> cases y <;> simp only [lt,le,decide_eq_true_eq,Bool.false_eq_true] at h ⊢
  exact h.le

protected theorem lt_of_lt_of_le (h : lt x y = true) (h' : le y z = true) : lt x z = true := by
  cases x <;> cases y <;> cases z <;>
    simp only [lt,le,decide_eq_true_eq,Bool.false_eq_true] at h h' ⊢
  exact h.trans_le h'

theorem round_ne_nan (q : ℚ) : round q ≠ nan := by
  unfold round
  split_ifs <;> exact F64.noConfusion

end Lemmas

section Order

variable {a b c : ℚ} {x y : F64}

theorem round_mono (h : a ≤ b) : le (round a) (round b) = true := by
  have hle : rounded a ≤ rounded b := rounded_mono h
  have hpos : (0 : ℚ) < 2 ^ 1024 := pow_pos (by norm_num) _
  unfold round
  generalize (2 : ℚ) ^ 1024 = top at hpos
  split_ifs <;> first | rfl | (simpa using hle) | (exfalso; linarith)

/-- A number of fewer than 53 bits that is neither too large nor too small is a double. -/
theorem round_eq {n k : ℤ} (hn : |n| < 2 ^ 53) (hk : -1074 ≤ k) (hk' : k ≤ 971) :
    round (n * 2 ^ k) = fin (n * 2 ^ k) := by
  have hpow : (2 : ℚ) ^ k ≤ 2 ^ (971 : ℤ) := zpow_le_zpow_right₀ (by norm_num) hk'
  have hpos : (0 : ℚ) < 2 ^ k := by positivity
  have hbits : |(n : ℚ)| < 2 ^ 53 := by exact_mod_cast hn
  have habs : |(n : ℚ) * 2 ^ k| < 2 ^ 1024 := by
    rw [abs_mul,abs_of_pos hpos]
    calc |(n : ℚ)| * 2 ^ k < 2 ^ 53 * 2 ^ k := mul_lt_mul_of_pos_right hbits hpos
      _ ≤ 2 ^ 53 * 2 ^ (971 : ℤ) := by gcongr
      _ = 2 ^ 1024 := by
          rw [← zpow_natCast 2 53,← zpow_natCast 2 1024,← zpow_add₀ (by norm_num)]
          norm_num
  obtain ⟨hlow,hhigh⟩ := abs_lt.mp habs
  unfold round
  rw [rounded_eq hn hk,if_neg (not_le.mpr hhigh),if_neg (not_le.mpr hlow)]

theorem round_int {n : ℤ} (hn : |n| < 2 ^ 53) : round n = fin n := by
  have h := round_eq hn (k := 0) (by norm_num) (by norm_num)
  simpa using h

/-- Away from the ends of the range rounding changes the last bit at most. -/
theorem round_close {q : ℚ} (hlow : 2 ^ (-1022 : ℤ) ≤ |q|) (hhigh : |q| ≤ 2 ^ 1000) :
    ∃ r, round q = fin r ∧ |r - q| ≤ |q| / 2 ^ 53 := by
  have hclose := rounded_close hlow
  have htop : 2 * (2 : ℚ) ^ 1000 < 2 ^ 1024 := by
    rw [← pow_succ']
    exact pow_lt_pow_right₀ (by norm_num) (by norm_num)
  have hsmall : |q| / 2 ^ 53 ≤ |q| := div_le_self (abs_nonneg q) (by norm_num)
  have hdouble : |rounded q| ≤ 2 * |q| := by
    have := abs_sub_abs_le_abs_sub (rounded q) q
    linarith only [this,hclose,hsmall]
  have hrounded : |rounded q| < 2 ^ 1024 :=
    (hdouble.trans (mul_le_mul_of_nonneg_left hhigh (by norm_num))).trans_lt htop
  obtain ⟨hneg,hpos⟩ := abs_lt.mp hrounded
  refine ⟨rounded q,?_,hclose⟩
  unfold round
  rw [if_neg (not_le.mpr hpos),if_neg (not_le.mpr hneg)]

theorem round_near {q : ℚ} (hlow : 1 / 2 ^ 200 ≤ q) (hhigh : q ≤ 2 ^ 200) :
    ∃ r, round q = fin r ∧ q - q / 2 ^ 53 ≤ r ∧ r ≤ q + q / 2 ^ 53 := by
  have habs : |q| = q := abs_of_pos (lt_of_lt_of_le (by positivity) hlow)
  have hsmall : (2 : ℚ) ^ (-1022 : ℤ) ≤ |q| := by
    rw [habs]
    calc (2 : ℚ) ^ (-1022 : ℤ) ≤ 2 ^ (-200 : ℤ) := zpow_le_zpow_right₀ (by norm_num) (by norm_num)
      _ = 1 / 2 ^ 200 := by rw [zpow_neg,one_div]; rfl
      _ ≤ q := hlow
  have hlarge : |q| ≤ 2 ^ 1000 := by
    rw [habs]
    exact hhigh.trans (pow_le_pow_right₀ (by norm_num) (by norm_num))
  obtain ⟨r,hr,hclose⟩ := round_close hsmall hlarge
  rw [habs] at hclose
  obtain ⟨hge,hle⟩ := abs_le.mp hclose
  exact ⟨r,hr,by linarith only [hge],by linarith only [hle]⟩

theorem le_inf (h : x ≠ nan) : le x inf = true := by
  cases x <;> first | rfl | exact absurd rfl h

theorem negInf_le (h : x ≠ nan) : le negInf x = true := by
  cases x <;> first | rfl | exact absurd rfl h

theorem le_self (h : x ≠ nan) : le x x = true := by
  cases x <;> first | rfl | exact absurd rfl h | simp

theorem ne_nan_of_le (h : le x y = true) : x ≠ nan ∧ y ≠ nan := by
  constructor
  · rintro rfl
    cases h
  · rintro rfl
    cases x <;> cases h

/-- What lies between finite values is finite. -/
theorem fin_of_between (hlow : le (fin a) x = true) (hhigh : le x (fin b) = true) :
    ∃ q, x = fin q ∧ a ≤ q ∧ q ≤ b := by
  cases x with
  | fin q => exact ⟨q,rfl,by simpa using hlow,by simpa using hhigh⟩
  | inf => cases hhigh
  | negInf => cases hlow
  | nan => cases hlow

/-- What comes below a value and what above it. -/
theorem le_cases (h : le x y = true) :
    (∃ a b, x = fin a ∧ y = fin b ∧ a ≤ b) ∨ (x = negInf ∧ y ≠ nan) ∨ (x ≠ nan ∧ y = inf) := by
  cases x <;> cases y <;> simp_all [le]

/-- An operation that is monotone on finite values, and keeps the infinities. -/
theorem mono_of_fin {f : F64 → F64} (hfin : ∀ a b, a ≤ b → le (f (fin a)) (f (fin b)) = true)
    (hinf : f inf = inf) (hneg : f negInf = negInf) (h : le x y = true) :
    le (f x) (f y) = true := by
  have hnan : ∀ z, z ≠ nan → f z ≠ nan := by
    intro z hz
    cases z with
    | fin q =>
      intro hf
      have := hfin q q le_rfl
      rw [hf] at this
      cases this
    | inf => rw [hinf]; exact F64.noConfusion
    | negInf => rw [hneg]; exact F64.noConfusion
    | nan => exact absurd rfl hz
  rcases le_cases h with ⟨a,b,rfl,rfl,hab⟩ | ⟨rfl,hy⟩ | ⟨hx,rfl⟩
  · exact hfin a b hab
  · rw [hneg]
    exact negInf_le (hnan y hy)
  · rw [hinf]
    exact le_inf (hnan x hx)

@[simp] theorem round_zero : round 0 = fin 0 := by
  simpa using round_int (n := 0) (by norm_num)

theorem add_mono (h : le x y = true) (c : ℚ) : le (x + fin c) (y + fin c) = true :=
  mono_of_fin (f := fun z => z + fin c) (fun _ _ hab => round_mono (by linarith)) rfl rfl h

theorem sub_mono (h : le x y = true) (c : ℚ) : le (x - fin c) (y - fin c) = true :=
  add_mono h (-c)

theorem mul_mono (h : le x y = true) (hc : 0 < c) : le (x * fin c) (y * fin c) = true :=
  mono_of_fin (f := fun z => z * fin c)
    (fun _ _ hab => round_mono (mul_le_mul_of_nonneg_right hab hc.le)) (if_pos hc)
    (by change ofSign (-c) = negInf; rw [ofSign,if_neg (by linarith),if_pos (by linarith)]) h

theorem div_mono (h : le x y = true) (hc : 0 < c) : le (x / fin c) (y / fin c) = true :=
  mono_of_fin (f := fun z => z / fin c)
    (fun a b hab => by
      rw [fin_div hc.ne',fin_div hc.ne']
      exact round_mono (div_le_div_of_nonneg_right hab hc.le))
    (if_neg (not_lt.mpr hc.le)) (if_neg (not_lt.mpr hc.le)) h

theorem min_mono (h : le x y = true) (c : ℚ) :
    le (F64.min x (fin c)) (F64.min y (fin c)) = true := by
  have hbound : ∀ z, z ≠ nan → le (F64.min z (fin c)) (fin c) = true := by
    intro z hz
    cases z with
    | fin q =>
      simp only [F64.min,lt_fin,decide_eq_true_eq]
      split_ifs with hq
      · simp
      · simpa using hq
    | inf => simp [F64.min,lt]
    | negInf => rfl
    | nan => exact absurd rfl hz
  rcases le_cases h with ⟨a,b,rfl,rfl,hab⟩ | ⟨rfl,hy⟩ | ⟨hx,rfl⟩
  · simp only [F64.min,lt_fin,decide_eq_true_eq]
    split_ifs <;> simp only [le_fin,decide_eq_true_eq] <;> linarith
  · refine negInf_le (fun hnan => ?_)
    have hle := hbound y hy
    rw [hnan] at hle
    cases hle
  · exact hbound x hx

theorem clamp_between (hx : x ≠ nan) (hab : a ≤ b) :
    le (fin a) (x.clamp (fin a) (fin b)) = true ∧ le (x.clamp (fin a) (fin b)) (fin b) = true := by
  cases x with
  | fin q =>
    simp only [clamp,lt_fin,decide_eq_true_eq]
    split_ifs <;> simp only [le_fin,decide_eq_true_eq] <;> constructor <;> linarith
  | inf => simpa [clamp,lt] using hab
  | negInf => simpa [clamp,lt] using hab
  | nan => exact absurd rfl hx

theorem clamp_mono (h : le x y = true) (hab : a ≤ b) :
    le (x.clamp (fin a) (fin b)) (y.clamp (fin a) (fin b)) = true := by
  rcases le_cases h with ⟨p,q,rfl,rfl,hpq⟩ | ⟨rfl,hy⟩ | ⟨hx,rfl⟩
  · simp only [clamp,lt_fin,decide_eq_true_eq]
    split_ifs <;> simp only [le_fin,decide_eq_true_eq] <;> linarith
  · exact (clamp_between hy hab).1
  · have hinf : inf.clamp (fin a) (fin b) = fin b := by simp [clamp,lt]
    rw [hinf]
    exact (clamp_between hx hab).2

theorem toU8_le (x : F64) : x.toU8 ≤ 255 := by
  cases x with
  | fin q =>
    unfold toU8
    dsimp only
    split_ifs with hlow hhigh
    · exact Nat.zero_le _
    · exact le_rfl
    · have hfloor : ⌊q⌋ < 255 := Int.floor_lt.mpr (by push_cast; linarith)
      omega
  | inf => exact le_rfl
  | negInf => exact Nat.zero_le _
  | nan => exact Nat.zero_le _

theorem toU8_mono (h : le x y = true) : x.toU8 ≤ y.toU8 := by
  rcases le_cases h with ⟨p,q,rfl,rfl,hpq⟩ | ⟨rfl,_⟩ | ⟨hx,rfl⟩
  · by_cases hq : 255 ≤ q
    · have hlarge : (fin q).toU8 = 255 := by
        unfold toU8
        dsimp only
        rw [if_neg (by linarith),if_pos hq]
      rw [hlarge]
      exact toU8_le _
    · have hfloor := Int.floor_le_floor hpq
      unfold toU8
      dsimp only
      split_ifs <;> first | omega | (exfalso; linarith)
  · exact Nat.zero_le _
  · exact toU8_le x

end Order

end F64

end Numeric
