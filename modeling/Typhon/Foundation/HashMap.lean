import Mathlib

/-! Hash maps as finite maps: two maps are equal when they hold the same bindings. -/

namespace Foundation

abbrev HashMap (κ υ : Type) := Finmap fun _ : κ => υ

namespace HashMap
variable {κ υ : Type} [DecidableEq κ]

theorem lookup_insert (m : HashMap κ υ) (k k' : κ) (v : υ) :
    Finmap.lookup k' (m.insert k v) = if k' = k then some v else m.lookup k' := by
  split_ifs with h
  · subst h
    exact Finmap.lookup_insert m
  · exact Finmap.lookup_insert_of_ne m h

theorem lookup_erase (m : HashMap κ υ) (k k' : κ) :
    Finmap.lookup k' (m.erase k) = if k' = k then none else m.lookup k' := by
  split_ifs with h
  · subst h
    exact Finmap.lookup_erase k' m
  · exact Finmap.lookup_erase_ne h

theorem lookup_empty (k : κ) : Finmap.lookup k (∅ : HashMap κ υ) = none := Finmap.lookup_empty k

def len (m : HashMap κ υ) : ℕ := m.keys.card

def anyValue (p : υ → Bool) (m : HashMap κ υ) : Bool :=
  decide (∃ k ∈ m.keys, (m.lookup k).any p = true)

theorem anyValue_eq_true {p : υ → Bool} {m : HashMap κ υ} :
    anyValue p m = true ↔ ∃ k v, m.lookup k = some v ∧ p v = true := by
  simp only [anyValue, decide_eq_true_iff]
  constructor
  · rintro ⟨k, -, h⟩
    cases hv : m.lookup k with
    | none => simp [hv] at h
    | some v => exact ⟨k, v, hv, by simpa [hv] using h⟩
  · rintro ⟨k, v, hv, hp⟩
    exact ⟨k, Finmap.mem_keys.mpr (Finmap.mem_of_lookup_eq_some hv), by simp [hv, hp]⟩

def matching (p : υ → Bool) (m : HashMap κ υ) : Finset κ := m.keys.filter fun k => (m.lookup k).any p = true

variable {p : υ → Bool} {m : HashMap κ υ} {k k' : κ} {v w : υ}

theorem mem_matching : k ∈ matching p m ↔ (m.lookup k).any p = true := by
  rw [matching, Finset.mem_filter, Finmap.mem_keys, ← Finmap.lookup_isSome]
  refine ⟨And.right, fun h => ⟨?_, h⟩⟩
  cases hk : m.lookup k with
  | none => simp [hk] at h
  | some v => rfl

theorem erase_insert_self : (m.insert k v).erase k = m.erase k := by
  apply Finmap.ext_lookup
  intro k'
  simp only [lookup_insert, lookup_erase]
  split_ifs <;> rfl

theorem erase_erase_self : (m.erase k).erase k = m.erase k := by
  apply Finmap.ext_lookup
  intro k'
  simp only [lookup_erase]
  split_ifs <;> rfl

theorem erase_of_lookup_none (h : m.lookup k = none) : m.erase k = m := by
  apply Finmap.ext_lookup
  intro k'
  rw [lookup_erase]
  split_ifs with hk
  · rw [hk, h]
  · rfl

def sumValues (weight : υ → ℕ) (m : HashMap κ υ) : ℕ := ∑ k ∈ m.keys, (m.lookup k).elim 0 weight

def set (m : HashMap κ υ) (k : κ) : Option υ → HashMap κ υ
  | some v => m.insert k v
  | none => m.erase k

theorem lookup_set (m : HashMap κ υ) (k k' : κ) (v? : Option υ) :
    Finmap.lookup k' (m.set k v?) = if k' = k then v? else m.lookup k' := by
  cases v? with
  | some v => exact lookup_insert m k k' v
  | none => exact lookup_erase m k k'

theorem sumValues_erase_add (m : HashMap κ υ) (k : κ) (weight : υ → ℕ) :
    sumValues weight (m.erase k) + (m.lookup k).elim 0 weight = sumValues weight m := by
  have hkeys : (m.erase k).keys = m.keys.erase k := Finmap.keys_erase k m
  have hrest : sumValues weight (m.erase k) = ∑ k' ∈ m.keys.erase k, (m.lookup k').elim 0 weight := by
    rw [sumValues, hkeys]
    refine Finset.sum_congr rfl fun k' hk' => ?_
    rw [lookup_erase, if_neg (Finset.ne_of_mem_erase hk')]
  rw [hrest, sumValues]
  by_cases hk : k ∈ m.keys
  · exact Finset.sum_erase_add _ _ hk
  · have hnone : m.lookup k = none := Finmap.lookup_eq_none.mpr (fun h => hk (Finmap.mem_keys.mpr h))
    rw [hnone, Finset.erase_eq_of_notMem hk]
    rfl

theorem sumValues_set (m : HashMap κ υ) (k : κ) (v? : Option υ) (weight : υ → ℕ) :
    sumValues weight (m.set k v?) + (m.lookup k).elim 0 weight = sumValues weight m + v?.elim 0 weight := by
  have herased : (m.set k v?).erase k = m.erase k := by
    cases v? with
    | some v => exact erase_insert_self
    | none => exact erase_erase_self
  have hnew := sumValues_erase_add (m.set k v?) k weight
  have hold := sumValues_erase_add m k weight
  rw [herased, lookup_set, if_pos rfl] at hnew
  omega

theorem sumValues_pos {weight : υ → ℕ} : 0 < sumValues weight m ↔ ∃ k v, m.lookup k = some v ∧ 0 < weight v := by
  rw [sumValues, Finset.sum_pos_iff]
  constructor
  · rintro ⟨k, -, h⟩
    cases hv : m.lookup k with
    | none => simp [hv] at h
    | some v => exact ⟨k, v, hv, by simpa [hv] using h⟩
  · rintro ⟨k, v, hv, h⟩
    exact ⟨k, Finmap.mem_keys.mpr (Finmap.mem_of_lookup_eq_some hv), by simpa [hv] using h⟩

theorem le_sumValues (weight : υ → ℕ) (h : m.lookup k = some v) : weight v ≤ sumValues weight m := by
  have := sumValues_erase_add m k weight
  rw [h, Option.elim_some] at this
  omega

theorem mem_keys_of_lookup (h : m.lookup k = some v) : k ∈ m.keys :=
  Finmap.mem_keys.mpr (Finmap.mem_of_lookup_eq_some h)

def eraseAll (m : HashMap κ υ) (ks : List κ) : HashMap κ υ := ks.foldl (fun m k => m.erase k) m

theorem lookup_eraseAll (m : HashMap κ υ) (ks : List κ) (k : κ) :
    Finmap.lookup k (eraseAll m ks) = if k ∈ ks then none else m.lookup k := by
  induction ks generalizing m with
  | nil => rfl
  | cons k' ks ih =>
    rw [eraseAll, List.foldl_cons, ← eraseAll, ih, lookup_erase]
    by_cases hk : k = k' <;> by_cases hks : k ∈ ks <;> simp [hk, hks]

end HashMap
end Foundation
