import Mathlib.Data.List.Nodup

namespace Assoc

universe u v

variable {κ : Type u} {ν : Type v} [DecidableEq κ]

/-- The entry of a key is replaced where it stands. -/
def set (key : κ) (value : ν) : List (κ × ν) → List (κ × ν)
  | [] => [(key,value)]
  | (k,v) :: entries => if k = key then (key,value) :: entries else (k,v) :: set key value entries

/-- Entries written over others in turn. -/
def setAll (new old : List (κ × ν)) : List (κ × ν) :=
  new.foldl (fun entries e => set e.1 e.2 entries) old

/-- The newest value of a key, the last list being the newest. -/
def latest (writes : List (List (κ × ν))) (key : κ) : Option ν :=
  writes.reverse.findSome? (fun w => w.lookup key)

theorem lookup_entry (e : κ × ν) (entries : List (κ × ν)) (k : κ) :
    (e :: entries).lookup k = if k = e.1 then some e.2 else entries.lookup k := by
  obtain ⟨key,value⟩ := e
  rw [List.lookup_cons]
  by_cases h : k = key
  · simp [h]
  · rw [beq_false_of_ne h,if_neg h]

theorem lookup_set (key : κ) (value : ν) (entries : List (κ × ν)) (k : κ) :
    (set key value entries).lookup k = if k = key then some value else entries.lookup k := by
  induction entries with
  | nil => rw [set,lookup_entry]
  | cons e entries ih =>
    obtain ⟨key',value'⟩ := e
    rw [set,lookup_entry]
    by_cases he : key' = key
    · rw [if_pos he,lookup_entry]
      by_cases h : k = key
      · simp [h]
      · simp [h,he]
    · rw [if_neg he,lookup_entry,ih]
      by_cases h : k = key
      · have hne : k ≠ key' := fun heq => he (heq.symm.trans h)
        simp only [if_pos h,if_neg hne]
      · simp only [if_neg h]

/-- Keys that come once are overwritten once. -/
theorem lookup_setAll {new : List (κ × ν)} (h : (new.map Prod.fst).Nodup)
    (old : List (κ × ν)) (k : κ) :
    (setAll new old).lookup k = (new.lookup k).or (old.lookup k) := by
  induction new generalizing old with
  | nil => simp [setAll]
  | cons e new ih =>
    obtain ⟨hnot,hnodup⟩ := List.nodup_cons.mp h
    have hstep : setAll (e :: new) old = setAll new (set e.1 e.2 old) := rfl
    rw [hstep,ih hnodup,lookup_set,lookup_entry]
    by_cases hk : k = e.1
    · have hnone : new.lookup k = none := by
        apply List.lookup_eq_none_iff.mpr
        intro p hp
        have hne : k ≠ p.1 := fun heq => hnot ((hk.symm.trans heq) ▸ List.mem_map_of_mem hp)
        exact bne_iff_ne.mpr hne
      rw [hnone,if_pos hk,if_pos hk]
      rfl
    · rw [if_neg hk,if_neg hk]

theorem lookup_without (entries : List (κ × ν)) (key k : κ) :
    (entries.filter (fun e => e.1 ≠ key)).lookup k = if k = key then none
      else entries.lookup k := by
  induction entries with
  | nil => simp
  | cons e entries ih =>
    rw [List.filter_cons,lookup_entry]
    by_cases he : e.1 = key
    · rw [if_neg (by simpa using he),ih]
      by_cases h : k = key
      · rw [if_pos h,if_pos h]
      · rw [if_neg h,if_neg h,if_neg (fun heq => h (heq.trans he))]
    · rw [if_pos (by simpa using he),lookup_entry,ih]
      by_cases h : k = key
      · rw [if_pos h,if_pos h,if_neg (fun heq => he (heq.symm.trans h))]
      · rw [if_neg h,if_neg h]

theorem nodup_without {entries : List (κ × ν)} (h : (entries.map Prod.fst).Nodup) (key : κ) :
    ((entries.filter (fun e => e.1 ≠ key)).map Prod.fst).Nodup :=
  (List.filter_sublist.map Prod.fst).nodup h

theorem latest_concat (writes : List (List (κ × ν))) (w : List (κ × ν)) (key : κ) :
    latest (writes ++ [w]) key = (w.lookup key).or (latest writes key) := by
  rw [latest,List.reverse_concat,List.findSome?_cons]
  cases w.lookup key with
  | none => rfl
  | some value => rfl

theorem latest_singleton (w : List (κ × ν)) (key : κ) : latest [w] key = w.lookup key := by
  rw [← List.nil_append [w],latest_concat]
  simp [latest]

/-- The same entries written twice. -/
theorem latest_twice (w : List (κ × ν)) (key : κ) : latest [w,w] key = latest [w] key := by
  have h := latest_concat [w] w key
  rw [latest_singleton,Option.or_self] at h
  rw [latest_singleton]
  exact h

end Assoc
