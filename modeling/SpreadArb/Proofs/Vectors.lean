import SpreadArb.PriceAvx512

namespace SpreadArb.Proofs.Vectors
open Numeric Lanes

section Vector

/-- The last lane is padding, however many bytes there are. -/
theorem load_last (bytes : List UInt8) :
    load (n := 32) ((bytes.take 16 ++ List.replicate 16 0).map UInt8.toBitVec) 31 = 0 := by
  have hlen : ((bytes.take 16).map UInt8.toBitVec).length ≤ 16 := by
    rw [List.length_map]
    exact List.length_take_le 16 bytes
  change List.getD _ 31 0 = 0
  rw [List.map_append,List.map_replicate,List.getD_append_right _ _ _ _ (by omega),
    List.getD_eq_getElem?_getD,
    List.getElem?_replicate]
  split
  · rfl
  · rfl

/-- The vector loop is left in its first turn: the padding is no digit, and all lanes are tested. -/
theorem vectorDigits_none (bytes : List UInt8) (result : Nat) :
    vectorDigits bytes result = none := by
  unfold vectorDigits
  dsimp only
  split
  · rfl
  · rw [if_pos]
    apply movemask_ne_allOnes (j := 31)
    simp only [Lanes.and,cmpgt,sub,add,set1,load_last]
    decide

theorem vectorLoop_stays (turns : Nat) (bytes : List UInt8) (result : Nat) :
    vectorLoop turns bytes result = (bytes,result) := by
  cases turns with
  | zero => rfl
  | succ turns => rw [vectorLoop,vectorDigits_none]

end Vector

section Bytes

/-- A character of one byte is that byte. -/
theorem asBytes_ascii {c : Char} (h : c.utf8Size = 1) (cs : List Char) :
    asBytes (c :: cs) = c.val.toUInt8 :: asBytes cs := by
  rw [asBytes,List.flatMap_cons,String.utf8EncodeChar_eq_singleton h]
  rfl

/-- Any other starts with a byte past the range of the digits. -/
theorem asBytes_wide {c : Char} (h : c.utf8Size ≠ 1) (cs : List Char) :
    ∃ byte bytes, asBytes (c :: cs) = byte :: bytes ∧ 128 ≤ byte.toNat := by
  rw [asBytes,List.flatMap_cons]
  rcases c.utf8Size_eq with h1 | h2 | h3 | h4
  · exact absurd h1 h
  · rw [String.utf8EncodeChar_eq_cons_cons h2]
    refine ⟨_,_,rfl,?_⟩
    rw [UInt8.toNat_or]
    exact Nat.le_trans (by decide) Nat.right_le_or
  · rw [String.utf8EncodeChar_eq_cons_cons_cons h3]
    refine ⟨_,_,rfl,?_⟩
    rw [UInt8.toNat_or]
    exact Nat.le_trans (by decide) Nat.right_le_or
  · rw [String.utf8EncodeChar_eq_cons_cons_cons_cons h4]
    refine ⟨_,_,rfl,?_⟩
    rw [UInt8.toNat_or]
    exact Nat.le_trans (by decide) Nat.right_le_or

theorem length_asBytes (cs : List Char) : (asBytes cs).length = (cs.map Char.utf8Size).sum := by
  induction cs with
  | nil => rfl
  | cons c cs ih =>
    rw [asBytes,List.flatMap_cons,List.length_append,String.length_utf8EncodeChar,List.map_cons,
      List.sum_cons,← ih]
    rfl

end Bytes

section Scan

/-- The byte of a character of one byte is its number. -/
theorem toNat_byte {c : Char} (h : c.utf8Size = 1) : c.val.toUInt8.toNat = c.toNat := by
  have hsmall : c.toNat ≤ 127 := UInt32.le_iff_toNat_le.mp (Char.utf8Size_eq_one_iff.mp h)
  rw [UInt32.toNat_toUInt8]
  exact Nat.mod_eq_of_lt (by change c.toNat < _; omega)

theorem byte_point {c : Char} (h : c.utf8Size = 1) : c.val.toUInt8 = 46 ↔ c = '.' := by
  rw [← UInt8.toNat_inj,toNat_byte h,← Char.toNat_inj]
  rfl

theorem byte_digit {c : Char} (h : c.utf8Size = 1) :
    (c.val.toUInt8 ≥ 48 && c.val.toUInt8 ≤ 57) = c.isDigit := by
  simp only [ge_iff_le,UInt8.le_iff_toNat_le,toNat_byte h,Char.isDigit,UInt32.le_iff_toNat_le]
  rfl

/-- A byte past the range of the digits stops the loop. -/
theorem scanBytes_high {byte : UInt8} (h : 128 ≤ byte.toNat) (bytes : List UInt8) (r d : Nat)
    (f : Bool) : scanBytes (byte :: bytes) r d f = .invalid := by
  have hpoint : byte ≠ 46 := by
    rintro rfl
    exact absurd h (by decide)
  have hdigit : ¬byte ≤ 57 := by
    intro hle
    have hnat : byte.toNat ≤ 57 := UInt8.le_iff_toNat_le.mp hle
    omega
  simp [scanBytes,hpoint,hdigit]

/-- The other loop stops at the character that the byte starts. -/
theorem scanPrice_wide {c : Char} (h : c.utf8Size ≠ 1) (cs : List Char) (r d : Nat) (f : Bool) :
    scanPrice (c :: cs) r d f = .invalid := by
  have hlarge : ¬c.val ≤ 127 := fun hle => h (Char.utf8Size_eq_one_iff.mpr hle)
  have hdigit : c.isDigit = false := by
    by_contra hd
    simp only [Char.isDigit,Bool.not_eq_false,Bool.and_eq_true,decide_eq_true_eq] at hd
    exact hlarge (UInt32.le_trans hd.2 (by decide))
  have hne : ∀ c', c'.val ≤ 127 → c ≠ c' := by
    rintro c' hc' rfl
    exact hlarge hc'
  simp [scanPrice,hdigit,hne '.' (by decide),hne 'e' (by decide),hne 'E' (by decide)]

/-- The two scalar loops agree character by character, given that none starts an exponent. -/
theorem scanBytes_eq {cs : List Char} (he : 'e' ∉ cs) (hE : 'E' ∉ cs) (r d : Nat) (f : Bool) :
    scanBytes (asBytes cs) r d f = scanPrice cs r d f := by
  induction cs generalizing r d f with
  | nil => rfl
  | cons c cs ih =>
    obtain ⟨hce,he⟩ := not_or.mp (List.mem_cons.not.mp he)
    obtain ⟨hcE,hE⟩ := not_or.mp (List.mem_cons.not.mp hE)
    by_cases hsize : c.utf8Size = 1
    · rw [asBytes_ascii hsize]
      simp only [scanBytes,scanPrice,byte_point hsize,byte_digit hsize,ih he hE]
      split
      · rfl
      · split
        · rename_i hdigit
          have hge : 48 ≤ c.val.toUInt8 := by
            rw [← byte_digit hsize,Bool.and_eq_true,decide_eq_true_eq] at hdigit
            exact hdigit.1
          rw [UInt8.toNat_sub_of_le _ _ hge,toNat_byte hsize]
          rfl
        · simp [Ne.symm hce,Ne.symm hcE]
    · obtain ⟨byte,bytes,hbytes,hhigh⟩ := asBytes_wide hsize cs
      rw [hbytes,scanBytes_high hhigh,scanPrice_wide hsize]

end Scan

section Sign

/-- The sign is the first byte as it is the first character. -/
theorem head_asBytes (cs : List Char) : (asBytes cs).head? = some 45 ↔ (splitSign cs).1 = true := by
  cases cs with
  | nil => simp [asBytes,splitSign]
  | cons c cs =>
    have hsign : (splitSign (c :: cs)).1 = true ↔ c = '-' := by
      unfold splitSign
      split
      · simp_all
      · simp_all
    rw [hsign]
    by_cases hsize : c.utf8Size = 1
    · rw [asBytes_ascii hsize,List.head?_cons,Option.some_inj,← UInt8.toNat_inj,toNat_byte hsize,
        ← Char.toNat_inj]
      rfl
    · obtain ⟨byte,bytes,hbytes,hhigh⟩ := asBytes_wide hsize cs
      rw [hbytes,List.head?_cons,Option.some_inj]
      constructor
      · rintro rfl
        exact absurd hhigh (by decide)
      · rintro rfl
        exact absurd rfl hsize

/-- The bytes after the sign are those of the characters after it. -/
theorem drop_sign (cs : List Char) :
    (if (asBytes cs).head? = some 45 then (asBytes cs).drop 1 else asBytes cs) =
      asBytes (splitSign cs).2 := by
  rw [if_congr (head_asBytes cs) rfl rfl]
  unfold splitSign
  split
  · rfl
  · rfl

theorem mem_splitSign {c : Char} {cs : List Char} (h : c ∈ (splitSign cs).2) : c ∈ cs := by
  unfold splitSign at h
  split at h
  · exact List.mem_cons_of_mem _ h
  · exact h

end Sign

theorem avx512_eq_fast (cs : List Char) : parsePriceAvx512 cs = parsePriceFast cs := by
  unfold parsePriceAvx512
  dsimp only
  split
  · rfl
  · rename_i hlen
    split
    · rfl
    · rename_i hshort
      simp only [Bool.or_eq_true,decide_eq_true_eq,not_or,List.contains_iff_mem] at hlen hshort
      have he : 'e' ∉ (splitSign cs).2 := fun h => hshort.1.2 (mem_splitSign h)
      have hE : 'E' ∉ (splitSign cs).2 := fun h => hshort.2 (mem_splitSign h)
      have hcs : ¬(cs = [] || (cs.map Char.utf8Size).sum > 32) = true := by
        rw [← length_asBytes,Bool.or_eq_true,decide_eq_true_eq,decide_eq_true_eq]
        rintro (rfl | hlong)
        · exact hlen.1 rfl
        · exact hlen.2 hlong
      rw [vectorLoop_stays,drop_sign,scanBytes_eq he hE]
      unfold parsePriceFast
      rw [if_neg hcs]
      dsimp only
      cases scanPrice (splitSign cs).2 0 0 false with
      | value q => simp only [head_asBytes]
      | fallback => rfl
      | invalid => rfl

/-- The vector unit changes no price. -/
theorem vector_changes_no_price :
    (∀ cs, parsePriceAvx512 cs = parsePriceFast cs) ∧
      ∀ s, parsePriceVector s = parsePriceSimd s := by
  refine ⟨avx512_eq_fast,?_⟩
  intro s
  unfold parsePriceVector parsePriceSimd
  rw [avx512_eq_fast]

end SpreadArb.Proofs.Vectors
