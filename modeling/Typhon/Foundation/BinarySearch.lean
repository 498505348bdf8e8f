import Mathlib.Data.List.Basic
import Mathlib.Order.Basic

/-! `binary_search_by` of a slice. -/

namespace Foundation
variable {α : Type} {l : List α} {cmp : α → Ordering}

def narrowSearch (cmp : α → Ordering) (l : List α) : ℕ → ℕ → ℕ → ℕ
  | 0, base, _ => base
  | fuel + 1, base, size =>
    if size ≤ 1 then base
    else
      let mid := base + size / 2
      narrowSearch cmp l fuel (if l[mid]?.map cmp = some .gt then base else mid) (size - size / 2)

def binarySearchBy (cmp : α → Ordering) (l : List α) : Option ℕ :=
  let base := narrowSearch cmp l l.length 0 l.length
  if l[base]?.map cmp = some .eq then some base else none

def Increasing (cmp : α → Ordering) (l : List α) : Prop := l.Pairwise fun a b => cmp a ≠ .lt → cmp b = .gt

theorem narrowSearch_eq (h : Increasing cmp l) {i : ℕ} (hi : l[i]?.map cmp = some .eq) {fuel base size : ℕ}
    (hfuel : size ≤ fuel + 1) (hbase : base ≤ i) (hsize : i < base + size) (hlen : base + size ≤ l.length) :
    narrowSearch cmp l fuel base size = i := by
  induction fuel generalizing base size with
  | zero =>
    unfold narrowSearch
    omega
  | succ fuel ih =>
    unfold narrowSearch
    split_ifs with hone
    · omega
    dsimp only
    obtain ⟨x, hx, hcmp⟩ := Option.map_eq_some_iff.mp hi
    obtain ⟨hilt, rfl⟩ := List.getElem?_eq_some_iff.mp hx
    have hmid : base + size / 2 < l.length := by omega
    rw [List.getElem?_eq_getElem hmid, Option.map_some]
    by_cases hgt : cmp l[base + size / 2] = .gt
    · rw [if_pos (by rw [hgt])]
      -- the entry is before the middle
      have hlt : i < base + size / 2 := by
        by_contra hnot
        rcases Nat.lt_or_eq_of_le (Nat.le_of_not_lt hnot) with hlt | heq
        · have hafter := List.pairwise_iff_getElem.mp h _ _ hmid hilt hlt (by rw [hgt]; exact nofun)
          rw [hcmp] at hafter
          exact nomatch hafter
        · subst heq
          rw [hcmp] at hgt
          exact nomatch hgt
      exact ih (by omega) hbase (by omega) (by omega)
    · rw [if_neg fun heq => hgt (Option.some.inj heq)]
      have hle : base + size / 2 ≤ i := by
        by_contra hnot
        have hafter := List.pairwise_iff_getElem.mp h _ _ hilt hmid (Nat.lt_of_not_le hnot) (by rw [hcmp]; exact nofun)
        exact hgt hafter
      exact ih (by omega) hle (by omega) (by omega)

theorem binarySearchBy_eq_some (h : Increasing cmp l) {i : ℕ} :
    binarySearchBy cmp l = some i ↔ l[i]?.map cmp = some .eq := by
  unfold binarySearchBy
  dsimp only
  constructor
  · intro hsome
    split_ifs at hsome with hfound
    exact Option.some.inj hsome ▸ hfound
  · intro hi
    have hilt : i < l.length := by
      by_contra hnot
      rw [List.getElem?_eq_none (Nat.le_of_not_lt hnot)] at hi
      exact nomatch hi
    rw [narrowSearch_eq h hi (Nat.le_succ _) (Nat.zero_le _) (by omega) (by omega), if_pos hi]

theorem binarySearchBy_eq_none (h : Increasing cmp l) : binarySearchBy cmp l = none ↔ ∀ a ∈ l, cmp a ≠ .eq := by
  constructor
  · intro hnone a ha heq
    obtain ⟨i, hi⟩ := List.mem_iff_getElem?.mp ha
    have hsome := (binarySearchBy_eq_some h).mpr (by rw [hi, Option.map_some, heq] : l[i]?.map cmp = some .eq)
    rw [hnone] at hsome
    exact nomatch hsome
  · intro hall
    unfold binarySearchBy
    dsimp only
    refine if_neg fun hfound => ?_
    obtain ⟨a, ha, heq⟩ := Option.map_eq_some_iff.mp hfound
    exact hall a (List.mem_of_getElem? ha) heq

end Foundation
