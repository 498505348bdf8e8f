import Mathlib.Data.List.Perm.Basic
import Mathlib.Data.List.Nodup

/-! Removal from a vector that fills the gap with the last entry. -/

namespace Foundation
variable {α : Type} {l : List α}

def swapRemove (l : List α) (i : ℕ) : List α :=
  match l.getLast? with
  | none => []
  | some last => if i < l.length then (l.set i last).dropLast else l

theorem swapRemove_perm {i : ℕ} (hi : i < l.length) : (swapRemove l i).Perm (l.eraseIdx i) := by
  obtain ⟨front, last, rfl⟩ : ∃ front last, l = front ++ [last] :=
    ⟨l.dropLast, l.getLast (List.ne_nil_of_length_pos (by omega)), (List.dropLast_append_getLast _).symm⟩
  have hlast : (front ++ [last]).getLast? = some last := by simp
  simp only [swapRemove, hlast, if_pos hi]
  rcases Nat.lt_or_ge i front.length with hlt | hge
  · rw [List.set_append_left _ _ hlt, List.dropLast_concat, List.eraseIdx_append_of_lt_length hlt]
    have hset := (List.set_perm_cons_eraseIdx hlt last)
    exact hset.trans (List.perm_append_singleton last _).symm
  · obtain rfl : i = front.length := by
      rw [List.length_append, List.length_singleton] at hi
      omega
    rw [List.set_append_right _ _ (Nat.le_refl _), Nat.sub_self, List.set_cons_zero, List.dropLast_concat,
      List.eraseIdx_append_of_length_le (Nat.le_refl _), Nat.sub_self, List.eraseIdx_cons_zero, List.append_nil]

theorem swapRemove_middle (before after : List α) (x : α) :
    (swapRemove (before ++ x :: after) before.length).Perm (before ++ after) := by
  refine (swapRemove_perm (by simp)).trans ?_
  rw [List.eraseIdx_append_of_length_le (Nat.le_refl _), Nat.sub_self, List.eraseIdx_cons_zero]

end Foundation
