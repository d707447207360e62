import SpreadArb.Workers
import SpreadArb.Numeric.Sorted

namespace SpreadArb.Proofs.Workers

/-- The chunks are the list cut into pieces of this size, the last one of what is left. -/
structure Cuts (size : Nat) (items : List α) (chunks : List (List α)) : Prop where
  joined : chunks.flatten = items
  nonempty : ∀ c ∈ chunks, c ≠ []
  full : ∀ c ∈ chunks.dropLast, c.length = size
  short : ∀ c ∈ chunks, c.length ≤ size

section Chunks

variable {size : Nat} {items : List α} {idx : Nat}

theorem cuts_nil : Cuts size ([] : List α) [] where
  joined := rfl
  nonempty _ h := nomatch h
  full _ h := nomatch h
  short _ h := nomatch h

/-- One more piece in front. -/
theorem cuts_cons {chunks : List (List α)} (hsize : 0 < size) (hidx : idx < items.length)
    (h : Cuts size (items.drop (min (idx + size) items.length)) chunks) :
    Cuts size (items.drop idx) (items.extract idx (min (idx + size) items.length) :: chunks) := by
  have hlength : (items.extract idx (min (idx + size) items.length)).length =
      min (idx + size) items.length - idx := by
    rw [List.extract_eq_take_drop,List.length_take,List.length_drop]
    omega
  constructor
  · rw [List.flatten_cons,h.joined,List.extract_eq_take_drop]
    have hstop : idx + (min (idx + size) items.length - idx) =
        min (idx + size) items.length := by omega
    rw [← hstop,← List.drop_drop]
    simp
  · intro c hc
    rcases List.mem_cons.mp hc with rfl | hc
    · apply List.ne_nil_of_length_pos
      omega
    · exact h.nonempty c hc
  · intro c hc
    cases chunks with
    | nil => cases hc
    | cons d chunks =>
      rw [List.dropLast_cons_cons] at hc
      rcases List.mem_cons.mp hc with rfl | hc
      · -- a piece follows, so this one does not reach the end
        have hd : 0 < d.length := List.length_pos_of_ne_nil (h.nonempty d List.mem_cons_self)
        have hmore : d.length ≤ (items.drop (min (idx + size) items.length)).length := by
          rw [← h.joined,List.flatten_cons,List.length_append]
          omega
        rw [List.length_drop] at hmore
        omega
      · exact h.full c hc
  · intro c hc
    rcases List.mem_cons.mp hc with rfl | hc
    · omega
    · exact h.short c hc

variable {bits : Nat}

/-- The loop, by induction on what is left. After the first turn a piece is no longer than what lies
behind, so that the next index is below twice the length. -/
theorem chunkLoop_cuts (hsize : 0 < size) (hmax : size < 2 ^ bits)
    (hlen : items.length ≤ 2 ^ (bits-1) - 1) (hpast : idx < items.length → idx = 0 ∨ size ≤ idx)
    (chunks : List (List α)) :
    ∃ rest, chunkLoop bits items size hsize idx chunks = some (chunks ++ rest) ∧
      Cuts size (items.drop idx) rest := by
  induction hleft : items.length - idx using Nat.strong_induction_on generalizing idx chunks with
  | _ left ih =>
    rw [chunkLoop]
    split
    · next hlt =>
      have hfits : idx + size < 2 ^ bits := by
        rcases hpast hlt with hzero | hpast
        · omega
        · have hbits : bits ≠ 0 := by
            intro hzero
            subst hzero
            omega
          have hdouble : 2 ^ bits = 2 * 2 ^ (bits-1) := by
            rw [← pow_succ']
            congr 1
            omega
          omega
      rw [if_pos hfits]
      dsimp only
      obtain ⟨rest,hrest,hcuts⟩ :=
        ih (items.length - min (idx + size) items.length) (by omega) (by omega)
        (chunks ++ [items.extract idx (min (idx + size) items.length)]) rfl
      refine ⟨items.extract idx (min (idx + size) items.length) :: rest,?_,
        cuts_cons hsize hlt hcuts⟩
      rw [hrest,List.append_assoc]
      rfl
    · next hend =>
      refine ⟨[],by simp,?_⟩
      rw [List.drop_of_length_le (by omega)]
      exact cuts_nil

theorem chunkVec_cuts (hsize : 0 < size) (hmax : size < 2 ^ bits)
    (hlen : items.length ≤ 2 ^ (bits-1) - 1) :
    ∃ chunks, chunkVec bits items size = some chunks ∧ Cuts size items chunks := by
  obtain ⟨chunks,hchunks,hcuts⟩ := chunkLoop_cuts hsize hmax hlen (fun _ => .inl rfl) []
  refine ⟨chunks,?_,hcuts⟩
  rw [chunkVec,dif_pos hsize]
  exact hchunks

end Chunks

section Coins

variable [LinearOrder α]

theorem dedupAfter_sorted {last : α} {items : List α} (h : (last :: items).Pairwise (· ≤ ·)) :
    (last :: dedupAfter last items).Pairwise (· < ·) ∧ ∀ a, a ∈ last :: dedupAfter last items ↔
      a ∈ last :: items := by
  induction items generalizing last with
  | nil => simp [dedupAfter]
  | cons b items ih =>
    obtain ⟨hlast,hitems⟩ := List.pairwise_cons.mp h
    unfold dedupAfter
    split
    · next he =>
      subst he
      obtain ⟨hsorted,hmem⟩ := ih hitems
      refine ⟨hsorted,?_⟩
      intro a
      rw [hmem a]
      simp
    · next hne =>
      obtain ⟨hsorted,hmem⟩ := ih hitems
      refine ⟨List.pairwise_cons.mpr ⟨?_,hsorted⟩,?_⟩
      · intro a ha
        have hb : last < b := lt_of_le_of_ne (hlast b List.mem_cons_self) (Ne.symm hne)
        rcases List.mem_cons.mp ha with rfl | ha
        · exact hb
        · exact hb.trans ((List.pairwise_cons.mp hsorted).1 a ha)
      · intro a
        rw [List.mem_cons,hmem a]
        exact List.mem_cons.symm

theorem dedup_sorted {items : List α} (h : items.Pairwise (· ≤ ·)) :
    (dedup items).Nodup ∧ ∀ a, a ∈ dedup items ↔ a ∈ items := by
  cases items with
  | nil => simp [dedup]
  | cons a items =>
    obtain ⟨hsorted,hmem⟩ := dedupAfter_sorted h
    exact ⟨hsorted.imp (fun hlt => hlt.ne),hmem⟩

/-- The coins of the exchange, each once. -/
theorem fetchPerpCoins_nodup (names : List String) :
    (fetchPerpCoins names).Nodup ∧ ∀ coin, coin ∈ fetchPerpCoins names ↔ coin ∈ names := by
  obtain ⟨hnodup,hmem⟩ := dedup_sorted (Numeric.Sorted.sort_sorted names)
  refine ⟨hnodup,?_⟩
  intro coin
  rw [fetchPerpCoins,hmem coin]
  exact List.mem_mergeSort

/-- In a list of different items each one is in one piece only. -/
theorem cuts_unique {β : Type*} {size : Nat} {items : List β} {chunks : List (List β)}
    (h : Cuts size items chunks) (hd : items.Nodup) {x : β} (hx : x ∈ items) :
    ∃! k : Nat, ∃ c : List β, chunks[k]? = some c ∧ x ∈ c := by
  rw [← h.joined] at hd hx
  have hdisjoint := List.pairwise_iff_getElem.mp (List.nodup_flatten.mp hd).2
  have hone : ∀ (i j : Nat) (c e : List β), chunks[i]? = some c → chunks[j]? = some e → x ∈ c →
      x ∈ e → ¬i < j := by
    intro i j c e hi hj hxc hxe hij
    obtain ⟨hi',rfl⟩ := List.getElem?_eq_some_iff.mp hi
    obtain ⟨hj',rfl⟩ := List.getElem?_eq_some_iff.mp hj
    exact hdisjoint i j hi' hj' hij hxc hxe
  obtain ⟨c,hc,hxc⟩ := List.mem_flatten.mp hx
  obtain ⟨k,hk⟩ := List.mem_iff_getElem?.mp hc
  refine ⟨k,⟨c,hk,hxc⟩,?_⟩
  rintro l ⟨e,hl,hxe⟩
  have hlk := hone l k e c hl hk hxe hxc
  have hkl := hone k l c e hk hl hxc hxe
  omega

end Coins

/-- The loop ends without overflow and cuts the list into pieces, none longer than the chunk size,
and the workers get every coin exactly once. -/
theorem chunks_cover_list (bits : Nat) (items : List α) (size : Nat)
    (hlen : items.length ≤ 2 ^ (bits-1) - 1) (hsize : 1 ≤ size) (hmax : size < 2 ^ bits) :
    (∃ chunks, chunkVec bits items size = some chunks ∧ chunks.flatten = items ∧
      (∀ c ∈ chunks, c ≠ []) ∧ (∀ c ∈ chunks.dropLast, c.length = size) ∧
      (∀ c ∈ chunks, c.length ≤ size) ∧
      (items.Nodup → ∀ x ∈ items, ∃! k : Nat, ∃ c : List α, chunks[k]? = some c ∧ x ∈ c)) ∧
    ∀ names, (fetchPerpCoins names).length ≤ 2 ^ (bits-1) - 1 → coinsPerConnection < 2 ^ bits →
      ∃ batches, hyperliquidBatches bits names = some batches ∧
        ∀ coin ∈ names, ∃! worker : Nat, ∃ batch : List String, batches[worker]? = some batch ∧
          coin ∈ batch := by
  constructor
  · obtain ⟨chunks,hchunks,hcuts⟩ := chunkVec_cuts hsize hmax hlen
    exact ⟨chunks,hchunks,hcuts.joined,hcuts.nonempty,hcuts.full,hcuts.short,fun hd _ hx =>
      cuts_unique hcuts hd hx⟩
  · intro names hnames hcoins
    obtain ⟨hnodup,hmem⟩ := fetchPerpCoins_nodup names
    obtain ⟨batches,hbatches,hcuts⟩ :=
      chunkVec_cuts (by decide : 0 < coinsPerConnection) hcoins hnames
    refine ⟨batches,hbatches,?_⟩
    intro coin hcoin
    exact cuts_unique hcuts hnodup ((hmem coin).mpr hcoin)

/-- Five items in pairs. -/
theorem five_in_pairs : ∃ chunks, chunkVec 64 [1,2,3,4,5] 2 = some chunks ∧
      chunks.flatten = [1,2,3,4,5] := by
  obtain ⟨chunks,hchunks,hjoined,_⟩ :=
    (chunks_cover_list 64 [1,2,3,4,5] 2 (by decide) (by decide) (by decide)).1
  exact ⟨chunks,hchunks,hjoined⟩

end SpreadArb.Proofs.Workers
