import Mathlib.Data.Nat.Digits.Defs
import Mathlib.Data.Rat.Defs
import Mathlib.Tactic.Ring

namespace Numeric

def digit (c : Char) : Nat := c.toNat - '0'.toNat

/-- The number that a list of digits denotes. -/
def natural (ds : List Char) : Nat := Nat.ofDigits 10 (ds.reverse.map digit)

@[simp] theorem natural_nil : natural [] = 0 := rfl

theorem natural_cons (c : Char) (ds : List Char) :
    natural (c :: ds) = digit c * 10 ^ ds.length + natural ds := by
  simp only [natural,List.reverse_cons,List.map_append,List.map_cons,List.map_nil,
    Nat.ofDigits_append,List.length_map,List.length_reverse,Nat.ofDigits_singleton]
  ring

/-- A decimal numeral: an optional sign, digits, and perhaps a point with digits after it. One digit
at least. -/
structure Numeral where
  negative : Bool
  whole : List Char
  fraction : Option (List Char)
  digits : ∀ c ∈ whole ++ fraction.getD [], c.isDigit = true
  nonempty : whole ++ fraction.getD [] ≠ []

/-- A point, and the digits after it. -/
def pointed : Option (List Char) → List Char
  | none => []
  | some ds => '.' :: ds

namespace Numeral

def unsigned (n : Numeral) : List Char := n.whole ++ pointed n.fraction

def text (n : Numeral) : List Char := if n.negative then '-' :: n.unsigned else n.unsigned

/-- The number without its sign. -/
def magnitude (n : Numeral) : ℚ :=
  natural n.whole + natural (n.fraction.getD []) / 10 ^ (n.fraction.getD []).length

def value (n : Numeral) : ℚ := if n.negative then -n.magnitude else n.magnitude

variable (n : Numeral)

theorem whole_digits : ∀ c ∈ n.whole, c.isDigit = true :=
  fun c hc => n.digits c (List.mem_append_left _ hc)

theorem fraction_digits : ∀ c ∈ n.fraction.getD [], c.isDigit = true :=
  fun c hc => n.digits c (List.mem_append_right _ hc)

theorem mem_unsigned {c : Char} (h : c ∈ n.unsigned) : c.isDigit = true ∨ c = '.' := by
  rcases List.mem_append.mp h with hw | hp
  · exact .inl (n.whole_digits c hw)
  · cases hf : n.fraction with
    | none => simp [hf,pointed] at hp
    | some ds =>
      rw [hf] at hp
      rcases List.mem_cons.mp hp with rfl | hd
      · exact .inr rfl
      · exact .inl (n.fraction_digits c (by simpa [hf] using hd))

theorem digit_mem_text : ∃ c ∈ n.text, c.isDigit = true := by
  obtain ⟨c,hc⟩ := List.exists_mem_of_ne_nil _ n.nonempty
  refine ⟨c,?_,n.digits c hc⟩
  have hunsigned : c ∈ n.unsigned := by
    rcases List.mem_append.mp hc with hw | hf
    · exact List.mem_append_left _ hw
    · apply List.mem_append_right
      cases hfr : n.fraction with
      | none => simp [hfr] at hf
      | some ds => exact List.mem_cons_of_mem _ (by simpa [hfr] using hf)
  unfold text
  split
  · exact List.mem_cons_of_mem _ hunsigned
  · exact hunsigned

end Numeral

end Numeric
