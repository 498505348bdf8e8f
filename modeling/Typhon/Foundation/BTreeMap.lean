import Mathlib

/-! Ordered maps as lists of bindings with strictly increasing keys. -/

namespace Foundation

structure BTreeMap (κ υ : Type) [LinearOrder κ] where
  entries : List (κ × υ)
  sorted : entries.Pairwise fun a b => a.1 < b.1

namespace BTreeMap
variable {κ υ : Type} [LinearOrder κ]

def empty : BTreeMap κ υ := ⟨[], List.Pairwise.nil⟩

variable (m : BTreeMap κ υ)

def get (k : κ) : Option υ := (m.entries.find? fun e => e.1 = k).map Prod.snd

def firstKey : Option κ := m.entries.head?.map Prod.fst

def values : List υ := m.entries.map Prod.snd

def insertEntry (k : κ) (v : υ) : List (κ × υ) → List (κ × υ)
  | [] => [(k, v)]
  | (k', v') :: rest =>
    if k < k' then (k, v) :: (k', v') :: rest
    else if k = k' then (k, v) :: rest
    else (k', v') :: insertEntry k v rest

theorem mem_insertEntry {k : κ} {v : υ} {e : κ × υ} {l : List (κ × υ)} (hl : l.Pairwise fun a b => a.1 < b.1) :
    e ∈ insertEntry k v l ↔ e = (k, v) ∨ e ∈ l ∧ e.1 ≠ k := by
  induction l with
  | nil => simp [insertEntry]
  | cons head rest ih =>
    obtain ⟨hhead, hrest⟩ := List.pairwise_cons.mp hl
    rw [insertEntry]
    split_ifs with hlt heq
    · rw [List.mem_cons]
      refine or_congr_right (iff_self_and.mpr fun he => ?_)
      rcases List.mem_cons.mp he with rfl | he
      · exact hlt.ne'
      · exact (hlt.trans (hhead e he)).ne'
    · rw [List.mem_cons, List.mem_cons, heq]
      refine or_congr_right ⟨fun he => ⟨.inr he, (hhead e he).ne'⟩, ?_⟩
      rintro ⟨rfl | he, hne⟩
      · exact absurd rfl hne
      · exact he
    · rw [List.mem_cons, ih hrest, List.mem_cons]
      constructor
      · rintro (rfl | rfl | ⟨he, hne⟩)
        · exact .inr ⟨.inl rfl, Ne.symm heq⟩
        · exact .inl rfl
        · exact .inr ⟨.inr he, hne⟩
      · rintro (rfl | ⟨rfl | he, hne⟩)
        · exact .inr (.inl rfl)
        · exact .inl rfl
        · exact .inr (.inr ⟨he, hne⟩)

theorem sorted_insertEntry (k : κ) (v : υ) {l : List (κ × υ)} (h : l.Pairwise fun a b => a.1 < b.1) :
    (insertEntry k v l).Pairwise fun a b => a.1 < b.1 := by
  induction l with
  | nil => simp [insertEntry]
  | cons head rest ih =>
    obtain ⟨hhead, hrest⟩ := List.pairwise_cons.mp h
    rw [insertEntry]
    split_ifs with hlt heq
    · refine List.pairwise_cons.mpr ⟨fun e he => ?_, h⟩
      rcases List.mem_cons.mp he with rfl | he
      · exact hlt
      · exact hlt.trans (hhead e he)
    · exact List.pairwise_cons.mpr ⟨fun e he => heq ▸ hhead e he, hrest⟩
    · refine List.pairwise_cons.mpr ⟨fun e he => ?_, ih hrest⟩
      rcases (mem_insertEntry hrest).mp he with rfl | ⟨he, -⟩
      · exact lt_of_le_of_ne (not_lt.mp hlt) (Ne.symm heq)
      · exact hhead e he

def insert (k : κ) (v : υ) : BTreeMap κ υ := ⟨insertEntry k v m.entries, sorted_insertEntry k v m.sorted⟩

def erase (k : κ) : BTreeMap κ υ := ⟨m.entries.filter fun e => e.1 ≠ k, m.sorted.filter _⟩

def mapValues (f : υ → υ) : BTreeMap κ υ :=
  ⟨m.entries.map fun e => (e.1, f e.2), List.pairwise_map.mpr m.sorted⟩

theorem get_eq_some_iff {k : κ} {v : υ} : m.get k = some v ↔ (k, v) ∈ m.entries := by
  have key : ∀ l : List (κ × υ), l.Pairwise (fun a b => a.1 < b.1) →
      ((l.find? fun e => e.1 = k).map Prod.snd = some v ↔ (k, v) ∈ l) := by
    intro l hl
    induction l with
    | nil => simp
    | cons head rest ih =>
      obtain ⟨hhead, hrest⟩ := List.pairwise_cons.mp hl
      by_cases hk : head.1 = k
      · rw [List.find?_cons_of_pos (by simpa using hk), Option.map_some, Option.some.injEq, List.mem_cons]
        constructor
        · rintro rfl
          exact .inl (by rw [← hk])
        · rintro (rfl | hmem)
          · rfl
          · exact absurd (hhead _ hmem) (by simp [hk])
      · rw [List.find?_cons_of_neg (by simpa using hk), ih hrest, List.mem_cons]
        exact ⟨.inr, fun h => h.resolve_left fun he => hk (he ▸ rfl)⟩
  exact key m.entries m.sorted

theorem get_insert (k k' : κ) (v : υ) : (m.insert k v).get k' = if k' = k then some v else m.get k' := by
  ext v'
  rw [get_eq_some_iff, insert, mem_insertEntry m.sorted, ← get_eq_some_iff]
  split_ifs with h
  · simp [h, eq_comm]
  · simp [h]

theorem get_erase (k k' : κ) : (m.erase k).get k' = if k' = k then none else m.get k' := by
  ext v
  rw [get_eq_some_iff, erase, List.mem_filter, ← get_eq_some_iff]
  split_ifs with h
  · simp [h]
  · simp [h]

theorem get_mapValues (f : υ → υ) (k : κ) : (m.mapValues f).get k = (m.get k).map f := by
  rw [get, mapValues, List.find?_map, get, Option.map_map, Option.map_map]
  rfl

theorem mem_values_iff {v : υ} : v ∈ m.values ↔ ∃ k, m.get k = some v := by
  rw [values, List.mem_map]
  constructor
  · rintro ⟨⟨k, v⟩, hmem, rfl⟩
    exact ⟨k, m.get_eq_some_iff.mpr hmem⟩
  · rintro ⟨k, hk⟩
    exact ⟨(k, v), m.get_eq_some_iff.mp hk, rfl⟩

theorem get_firstKey {k : κ} (h : m.firstKey = some k) : ∃ v, m.get k = some v := by
  obtain ⟨e, he, rfl⟩ := Option.map_eq_some_iff.mp h
  exact ⟨e.2, m.get_eq_some_iff.mpr (List.mem_of_mem_head? he)⟩

end BTreeMap
end Foundation
