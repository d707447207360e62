import Mathlib

namespace Numeric.Sorted

variable [LinearOrder α] {l : List α} {k : Nat} {v : α}

/-- The elements up to position `k` of a sorted list are at most the one that stands there. -/
theorem lt_countP_le (hs : l.Pairwise (· ≤ ·)) (hv : l[k]? = some v) : k < l.countP (· ≤ v) := by
  obtain ⟨hk,rfl⟩ := List.getElem?_eq_some_iff.mp hv
  have hall : ∀ a ∈ l.take (k+1), a ≤ l[k] := by
    intro a ha
    obtain ⟨i,hi,rfl⟩ := List.getElem_of_mem ha
    rw [List.length_take] at hi
    rw [List.getElem_take]
    rcases Nat.lt_or_ge i k with hlt | hge
    · exact List.pairwise_iff_getElem.mp hs i k (by omega) hk hlt
    · have he : i = k := by omega
      subst he
      exact le_rfl
  have hprefix : (l.take (k+1)).countP (· ≤ l[k]) = k+1 := by
    rw [List.countP_eq_length.mpr (fun a ha => by simpa using hall a ha),List.length_take]
    omega
  have hle := (List.take_sublist (k+1) l).countP_le (p := (· ≤ l[k]))
  omega

/-- Only those before position `k` are smaller. -/
theorem countP_lt_le (hs : l.Pairwise (· ≤ ·)) (hv : l[k]? = some v) : l.countP (· < v) ≤ k := by
  obtain ⟨hk,rfl⟩ := List.getElem?_eq_some_iff.mp hv
  have hnone : ∀ a ∈ l.drop k, ¬a < l[k] := by
    intro a ha
    obtain ⟨i,hi,rfl⟩ := List.getElem_of_mem ha
    rw [List.length_drop] at hi
    rw [List.getElem_drop,not_lt]
    rcases Nat.eq_zero_or_pos i with hz | hpos
    · subst hz
      exact le_rfl
    · exact List.pairwise_iff_getElem.mp hs k (k+i) hk (by omega) (by omega)
  have hsuffix : (l.drop k).countP (· < l[k]) = 0 :=
    List.countP_eq_zero.mpr (fun a ha => by simpa using hnone a ha)
  calc l.countP (· < l[k])
    _ = (l.take k ++ l.drop k).countP (· < l[k]) := by rw [List.take_append_drop]
    _ = (l.take k).countP (· < l[k]) := by rw [List.countP_append,hsuffix,add_zero]
    _ ≤ (l.take k).length := List.countP_le_length
    _ ≤ k := List.length_take_le k l

theorem getElem?_le (hs : l.Pairwise (· ≤ ·)) {i j : Nat} {u : α} (hij : i ≤ j)
    (hu : l[i]? = some u) (hv : l[j]? = some v) : u ≤ v := by
  obtain ⟨hi,rfl⟩ := List.getElem?_eq_some_iff.mp hu
  obtain ⟨hj,rfl⟩ := List.getElem?_eq_some_iff.mp hv
  rcases Nat.eq_or_lt_of_le hij with he | hlt
  · subst he
    exact le_rfl
  · exact List.pairwise_iff_getElem.mp hs i j hi hj hlt

theorem sort_sorted (l : List α) : (l.mergeSort (fun a b => a ≤ b)).Pairwise (· ≤ ·) := by
  have hle : (l.mergeSort (fun a b => a ≤ b)).Pairwise (fun a b => decide (a ≤ b) = true) :=
    List.pairwise_mergeSort (fun a b c => by simpa using le_trans) (fun a b => by
      simpa using le_total a b) l
  exact hle.imp (fun h => by simpa using h)

theorem sort_perm {l l' : List α} (h : l.Perm l') :
    l.mergeSort (fun a b => a ≤ b) = l'.mergeSort (fun a b => a ≤ b) :=
  List.Perm.eq_of_pairwise' (sort_sorted l) (sort_sorted l')
    ((List.mergeSort_perm l _).trans (h.trans (List.mergeSort_perm l' _).symm))

end Numeric.Sorted
