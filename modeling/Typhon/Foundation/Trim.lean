import Mathlib.Data.List.TakeWhile
import Mathlib.Data.List.Basic

/-! Two lists without their common ends. -/

namespace Foundation
variable {α : Type} [DecidableEq α]

def commonFront (l l' : List α) : ℕ := ((l.zip l').takeWhile fun e => e.1 = e.2).length

def commonBack (front : ℕ) (l l' : List α) : ℕ :=
  ((List.range (min (l.length - front) (l'.length - front))).takeWhile fun offset =>
    l[l.length - 1 - offset]? = l'[l'.length - 1 - offset]?).length

def between (front back : ℕ) (l : List α) : List α := (l.take (l.length - back)).drop front

theorem commonFront_le (l l' : List α) : commonFront l l' ≤ l.length ∧ commonFront l l' ≤ l'.length := by
  have h := (List.takeWhile_prefix (fun e : α × α => decide (e.1 = e.2)) (l := l.zip l')).length_le
  rw [List.length_zip] at h
  exact ⟨h.trans (min_le_left _ _), h.trans (min_le_right _ _)⟩

theorem take_commonFront (l l' : List α) : l.take (commonFront l l') = l'.take (commonFront l l') := by
  induction l generalizing l' with
  | nil => simp [commonFront]
  | cons a l ih =>
    cases l' with
    | nil => simp [commonFront]
    | cons b l' =>
      by_cases hab : a = b
      · have hstep : commonFront (a :: l) (b :: l') = commonFront l l' + 1 := by simp [commonFront, hab]
        rw [hstep, List.take_succ_cons, List.take_succ_cons, ih, hab]
      · have hstep : commonFront (a :: l) (b :: l') = 0 := by simp [commonFront, hab]
        rw [hstep, List.take_zero, List.take_zero]

theorem commonBack_le (front : ℕ) (l l' : List α) :
    commonBack front l l' ≤ l.length - front ∧ commonBack front l l' ≤ l'.length - front := by
  have h := (List.takeWhile_prefix (fun offset => decide (l[l.length - 1 - offset]? = l'[l'.length - 1 - offset]?))
    (l := List.range (min (l.length - front) (l'.length - front)))).length_le
  rw [List.length_range] at h
  exact ⟨h.trans (min_le_left _ _), h.trans (min_le_right _ _)⟩

theorem getElem?_commonBack {front : ℕ} {l l' : List α} {offset : ℕ} (h : offset < commonBack front l l') :
    l[l.length - 1 - offset]? = l'[l'.length - 1 - offset]? := by
  unfold commonBack at h
  have hmem := List.getElem_mem h
  have hval : ((List.range (min (l.length - front) (l'.length - front))).takeWhile fun offset =>
      l[l.length - 1 - offset]? = l'[l'.length - 1 - offset]?)[offset] = offset := by
    rw [(List.takeWhile_prefix _).getElem h, List.getElem_range]
  rw [hval] at hmem
  have htest := List.mem_takeWhile_imp hmem
  simpa using htest

theorem drop_commonBack (front : ℕ) (l l' : List α) :
    l.drop (l.length - commonBack front l l') = l'.drop (l'.length - commonBack front l l') := by
  obtain ⟨hle, hle'⟩ := commonBack_le front l l'
  have hall := fun offset => @getElem?_commonBack α _ front l l' offset
  generalize commonBack front l l' = back at *
  refine List.ext_getElem? fun i => ?_
  rw [List.getElem?_drop, List.getElem?_drop]
  by_cases hi : i < back
  · have h := hall (back - 1 - i) (by omega)
    rwa [show l.length - 1 - (back - 1 - i) = l.length - back + i by omega,
      show l'.length - 1 - (back - 1 - i) = l'.length - back + i by omega] at h
  · rw [List.getElem?_eq_none (by omega), List.getElem?_eq_none (by omega)]

theorem filter_eq_of_between {p : α → Bool} {l l' : List α}
    (h : ∀ a ∈ between (commonFront l l') (commonBack (commonFront l l') l l') l, p a = false)
    (h' : ∀ a ∈ between (commonFront l l') (commonBack (commonFront l l') l l') l', p a = false) :
    l.filter p = l'.filter p := by
  obtain ⟨hf, hf'⟩ := commonFront_le l l'
  obtain ⟨hb, hb'⟩ := commonBack_le (commonFront l l') l l'
  have htake := take_commonFront l l'
  have hdrop := drop_commonBack (commonFront l l') l l'
  generalize commonFront l l' = front at *
  generalize commonBack front l l' = back at *
  have hsplit : ∀ m : List α, front ≤ m.length → back ≤ m.length - front →
      m = m.take front ++ between front back m ++ m.drop (m.length - back) := fun m hm hm' => by
    have h₁ : m.take front = (m.take (m.length - back)).take front := by
      rw [List.take_take, min_eq_left (by omega)]
    rw [h₁, between, List.take_append_drop, List.take_append_drop]
  have hnone : ∀ m : List α, (∀ a ∈ between front back m, p a = false) →
      (between front back m).filter p = [] := fun m hm => by
    rw [List.filter_eq_nil_iff]
    intro a ha
    simp [hm a ha]
  rw [hsplit l hf hb, hsplit l' hf' hb', List.filter_append, List.filter_append, List.filter_append,
    List.filter_append, hnone l h, hnone l' h', htake, hdrop]

end Foundation
