import Typhon.Foundation.Collect

/-! The smallest members of a finite set, kept by inserting a member and dropping the largest one. -/

namespace Foundation
variable {α : Type} [LinearOrder α] {n : ℕ} {s t t' : Finset α} {a : α}

structure IsSmallest (n : ℕ) (s t : Finset α) : Prop where
  subset : t ⊆ s
  below : ∀ a ∈ t, ∀ b ∈ s, b ∉ t → a < b
  card : t.card = min n s.card

theorem IsSmallest.unique (h : IsSmallest n s t) (h' : IsSmallest n s t') : t = t' := by
  have hcard : t.card = t'.card := h.card.trans h'.card.symm
  have hsub : t ⊆ t' := by
    intro a ha
    by_contra hna
    have hmore : ¬t' ⊆ t := fun hsub => hna (Finset.eq_of_subset_of_card_le hsub hcard.le ▸ ha)
    obtain ⟨b, hb, hnb⟩ := Finset.not_subset.mp hmore
    exact lt_asymm (h.below a ha b (h'.subset hb) hnb) (h'.below b hb a (h.subset ha) hna)
  exact Finset.eq_of_subset_of_card_le hsub hcard.ge

theorem isSmallest_empty (n : ℕ) : IsSmallest n (∅ : Finset α) ∅ :=
  ⟨Finset.Subset.refl _, fun a ha => absurd ha (Finset.notMem_empty a), by simp⟩

theorem IsSmallest.insert (h : IsSmallest n s t) (hroom : (insert a t).card ≤ n) :
    IsSmallest n (insert a s) (insert a t) := by
  by_cases hall : t = s
  · subst hall
    exact ⟨Finset.Subset.refl _, fun _ _ b hb hnb => absurd hb hnb, by omega⟩
  -- the list is full, so the member is in it already
  have hlt : t.card < s.card := Finset.card_lt_card (Finset.ssubset_iff_subset_ne.mpr ⟨h.subset, hall⟩)
  have hcard := h.card
  have ha : a ∈ t := by
    by_contra hna
    rw [Finset.card_insert_of_notMem hna] at hroom
    omega
  rw [Finset.insert_eq_of_mem ha, Finset.insert_eq_of_mem (h.subset ha)]
  exact h

theorem IsSmallest.insert_erase {m : α} (h : IsSmallest n s t) (hfull : n < (Insert.insert a t).card)
    (hm : m ∈ Insert.insert a t) (hmax : ∀ b ∈ Insert.insert a t, b ≤ m) :
    IsSmallest n (Insert.insert a s) ((Insert.insert a t).erase m) := by
  have hcard := h.card
  have hna : a ∉ t := by
    intro ha
    rw [Finset.insert_eq_of_mem ha] at hfull
    omega
  rw [Finset.card_insert_of_notMem hna] at hfull
  refine ⟨(Finset.erase_subset _ _).trans (Finset.insert_subset_insert _ h.subset), fun b hb c hc hnc => ?_, ?_⟩
  · obtain ⟨hbm, hb⟩ := Finset.mem_erase.mp hb
    have hbm : b < m := lt_of_le_of_ne (hmax b hb) hbm
    by_cases hct : c ∈ Insert.insert a t
    · obtain rfl : c = m := by
        by_contra hne
        exact hnc (Finset.mem_erase.mpr ⟨hne, hct⟩)
      exact hbm
    · have hcs : c ∈ s := (Finset.mem_insert.mp hc).resolve_left fun h => hct (h ▸ Finset.mem_insert_self a t)
      have hcn : c ∉ t := fun h => hct (Finset.mem_insert_of_mem h)
      rcases Finset.mem_insert.mp hb with rfl | hbt
      · -- the new member is below the largest, which is an old one
        have hmt : m ∈ t := (Finset.mem_insert.mp hm).resolve_left hbm.ne'
        exact hbm.trans (h.below m hmt c hcs hcn)
      · exact h.below b hbt c hcs hcn
  · rw [Finset.card_erase_of_mem hm, Finset.card_insert_of_notMem hna]
    have hle := Finset.card_le_card (Finset.subset_insert a s)
    omega

def ascending (s : Finset ℕ) : List ℕ := (List.range (s.sup id + 1)).filter (· ∈ s)

theorem mem_ascending {s : Finset ℕ} {a : ℕ} : a ∈ ascending s ↔ a ∈ s := by
  simp only [ascending, List.mem_filter, List.mem_range, decide_eq_true_eq, and_iff_right_iff_imp]
  exact fun ha => Nat.lt_succ_of_le (Finset.le_sup (f := id) ha)

theorem nodup_ascending (s : Finset ℕ) : (ascending s).Nodup := List.nodup_range.filter _

def ascendingOrder : HashMap.Order ℕ := ⟨ascending, fun _ _ => mem_ascending, nodup_ascending⟩

end Foundation
