import Typhon.Foundation.HashMap

/-! Maps collected from lists of entries, and walks over the keys of a map in an order that the map
chooses. -/

namespace Foundation.HashMap
variable {κ υ : Type} [DecidableEq κ]

def collect (entries : List (κ × υ)) : HashMap κ υ := entries.foldl (fun m e => m.insert e.1 e.2) ∅

theorem lookup_collect {entries : List (κ × υ)} (h : (entries.map Prod.fst).Nodup) {k : κ} {v : υ} :
    (collect entries).lookup k = some v ↔ (k, v) ∈ entries := by
  suffices hfold : ∀ (es : List (κ × υ)) (m : HashMap κ υ), (es.map Prod.fst).Nodup →
      ((es.foldl (fun m e => m.insert e.1 e.2) m).lookup k = some v ↔
        (k, v) ∈ es ∨ k ∉ es.map Prod.fst ∧ m.lookup k = some v) by
    rw [collect, hfold entries ∅ h, lookup_empty]
    simp
  intro es
  induction es with
  | nil => simp
  | cons e es ih =>
    intro m hnd
    obtain ⟨hnot, hnd⟩ := List.nodup_cons.mp hnd
    rw [List.foldl_cons, ih _ hnd, lookup_insert]
    by_cases hk : k = e.1
    · subst hk
      have hmem : (e.1, v) ∉ es := fun hm => hnot (List.mem_map.mpr ⟨_, hm, rfl⟩)
      rw [if_pos rfl]
      simp [hmem, hnot, Prod.ext_iff, eq_comm]
    · rw [if_neg hk]
      simp [hk, Prod.ext_iff]

structure Order (κ : Type) where
  visit : Finset κ → List κ
  mem_visit : ∀ keys k, k ∈ visit keys ↔ k ∈ keys
  nodup_visit : ∀ keys, (visit keys).Nodup

noncomputable def Order.listed (κ : Type) : Order κ :=
  ⟨Finset.toList, fun _ _ => Finset.mem_toList, Finset.nodup_toList⟩

end Foundation.HashMap
