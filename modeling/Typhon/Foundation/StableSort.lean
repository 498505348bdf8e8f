import Mathlib.Data.List.Sort

/-! Sorting by a key keeps the order of entries with the same key, so it makes no difference whether entries are
dropped before the sort or after it. -/

namespace Foundation
variable {α β κ : Type} [LinearOrder κ] {key : α → κ} {key' : β → κ} {f : α → Option β}

def sortByKey (key : α → κ) (l : List α) : List α := l.insertionSort fun a b => key a ≤ key b

theorem orderedInsert_of_least {b : β} {l : List β} (h : ∀ d ∈ l, key' b ≤ key' d) :
    l.orderedInsert (fun a b => key' a ≤ key' b) b = b :: l := by
  cases l with
  | nil => rfl
  | cons d l => rw [List.orderedInsert_cons, if_pos (h d List.mem_cons_self)]

theorem filterMap_orderedInsert (hf : ∀ a b, f a = some b → key' b = key a) (a : α) {l : List α}
    (hl : l.Pairwise fun a b => key a ≤ key b) : (l.orderedInsert (fun a b => key a ≤ key b) a).filterMap f =
      (f a).elim (l.filterMap f) ((l.filterMap f).orderedInsert fun a b => key' a ≤ key' b) := by
  induction l with
  | nil => cases ha : f a <;> simp [ha]
  | cons c l ih =>
    obtain ⟨hc, hl⟩ := List.pairwise_cons.mp hl
    rw [List.orderedInsert_cons]
    split_ifs with hle
    · cases ha : f a with
      | none => rw [List.filterMap_cons_none ha, Option.elim_none]
      | some b =>
        rw [List.filterMap_cons_some ha, Option.elim_some, orderedInsert_of_least]
        intro d hd
        obtain ⟨e, he, hed⟩ := List.mem_filterMap.mp hd
        rw [hf a b ha, hf e d hed]
        rcases List.mem_cons.mp he with rfl | he
        · exact hle
        · exact hle.trans (hc e he)
    · cases hfc : f c with
      | none => rw [List.filterMap_cons_none hfc, List.filterMap_cons_none hfc, ih hl]
      | some d =>
        rw [List.filterMap_cons_some hfc, List.filterMap_cons_some hfc, ih hl]
        cases ha : f a with
        | none => rfl
        | some b =>
          rw [Option.elim_some, Option.elim_some, List.orderedInsert_cons, if_neg]
          rwa [hf a b ha, hf c d hfc]

theorem filterMap_sortByKey (hf : ∀ a b, f a = some b → key' b = key a) (l : List α) :
    (sortByKey key l).filterMap f = sortByKey key' (l.filterMap f) := by
  induction l with
  | nil => rfl
  | cons a l ih =>
    rw [sortByKey, List.insertionSort_cons, filterMap_orderedInsert hf a (List.pairwise_insertionSort _ _),
      ← sortByKey, ih]
    cases ha : f a with
    | none => rw [List.filterMap_cons_none ha, Option.elim_none]
    | some b => rw [List.filterMap_cons_some ha]; rfl

end Foundation
