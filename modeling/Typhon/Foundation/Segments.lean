import Mathlib.Data.Int.Order.Basic
import Mathlib.Data.List.Sort
import Mathlib.Tactic.Linarith

/-! Lists of half-open segments of the integers, each with a value: the function they stand for, and the one list in
normal form for each such function. -/

namespace Foundation

structure Segment (V : Type) where
  lo : ℤ
  hi : ℤ
  lt : lo < hi
  value : V
  deriving DecidableEq

namespace Segment
variable {V : Type}

def valueAt : List (Segment V) → ℤ → Option V
  | [], _ => none
  | s :: rest, z => if s.lo ≤ z ∧ z < s.hi then some s.value else valueAt rest z

def Ascending : List (Segment V) → Prop
  | [] => True
  | [_] => True
  | s :: t :: rest => s.hi ≤ t.lo ∧ Ascending (t :: rest)

def Normal : List (Segment V) → Prop
  | [] => True
  | [_] => True
  | s :: t :: rest => s.hi ≤ t.lo ∧ (s.hi = t.lo → s.value ≠ t.value) ∧ Normal (t :: rest)

variable {s t : Segment V} {a b : List (Segment V)} {z : ℤ}

theorem Normal.tail (h : Normal (s :: a)) : Normal a := by
  cases a with
  | nil => trivial
  | cons t rest => exact h.2.2

theorem valueAt_lo (s : Segment V) (a : List (Segment V)) : valueAt (s :: a) s.lo = some s.value :=
  if_pos ⟨le_rfl, s.lt⟩

theorem valueAt_past (h : s.hi ≤ z) : valueAt (s :: a) z = valueAt a z :=
  if_neg fun hz => absurd hz.2 (not_lt.mpr h)

theorem Normal.valueAt_before (h : Normal (s :: a)) (hz : z < s.lo) : valueAt (s :: a) z = none := by
  induction a generalizing s with
  | nil => exact if_neg fun hs => absurd hs.1 (not_le.mpr hz)
  | cons t rest ih =>
    have ht : z < t.lo := hz.trans (s.lt.trans_le h.1)
    rw [valueAt, if_neg fun hs => absurd hs.1 (not_le.mpr hz), ih h.tail ht]

theorem Normal.valueAt_hi (h : Normal (s :: a)) : valueAt a s.hi ≠ some s.value := by
  cases a with
  | nil => nofun
  | cons t rest =>
    rcases h.1.lt_or_eq with hlt | heq
    · rw [h.tail.valueAt_before hlt]
      nofun
    · rw [heq, valueAt_lo]
      exact fun hv => h.2.1 heq (Option.some.inj hv).symm

theorem Normal.valueAt_tail_before (h : Normal (s :: a)) (hz : z < s.hi) : valueAt a z = none := by
  cases a with
  | nil => rfl
  | cons t rest => exact h.tail.valueAt_before (hz.trans_le h.1)

theorem Normal.pairwise (h : Normal a) : a.Pairwise fun s t => s.hi ≤ t.lo := by
  induction a with
  | nil => exact List.Pairwise.nil
  | cons s a ih =>
    refine List.pairwise_cons.mpr ⟨fun t ht => ?_, ih h.tail⟩
    cases a with
    | nil => exact absurd ht nofun
    | cons u a =>
      rcases List.mem_cons.mp ht with rfl | ht
      · exact h.1
      · exact h.1.trans (u.lt.le.trans ((List.pairwise_cons.mp (ih h.tail)).1 t ht))

theorem Normal.valueAt_of_mem (h : Normal a) (hs : s ∈ a) (hlo : s.lo ≤ z) (hhi : z < s.hi) :
    valueAt a z = some s.value := by
  induction a with
  | nil => exact absurd hs nofun
  | cons t a ih =>
    rcases List.mem_cons.mp hs with rfl | hs
    · exact if_pos ⟨hlo, hhi⟩
    · have hpast : t.hi ≤ z := ((List.pairwise_cons.mp h.pairwise).1 s hs).trans hlo
      rw [valueAt_past hpast]
      exact ih h.tail hs

theorem mem_of_valueAt {v : V} (h : valueAt a z = some v) : ∃ s ∈ a, s.lo ≤ z ∧ z < s.hi ∧ s.value = v := by
  induction a with
  | nil => exact absurd h nofun
  | cons t a ih =>
    rw [valueAt] at h
    split_ifs at h with hcovers
    · exact ⟨t, List.mem_cons_self, hcovers.1, hcovers.2, Option.some.inj h⟩
    · obtain ⟨s, hs, hrest⟩ := ih h
      exact ⟨s, List.mem_cons_of_mem t hs, hrest⟩

theorem Normal.head_le (ha : Normal (s :: a)) (h : ∀ z, valueAt (s :: a) z = valueAt (t :: b) z) : s.lo ≤ t.lo := by
  by_contra hlt
  have hnone := ha.valueAt_before (not_le.mp hlt)
  rw [h, valueAt_lo] at hnone
  exact absurd hnone nofun

theorem Normal.head_hi_le (ha : Normal (s :: a)) (hlo : s.lo = t.lo) (hvalue : s.value = t.value)
    (h : ∀ z, valueAt (s :: a) z = valueAt (t :: b) z) : t.hi ≤ s.hi := by
  by_contra hlt
  have hinside : valueAt (t :: b) s.hi = some s.value := by
    rw [hvalue]
    exact if_pos ⟨hlo ▸ s.lt.le, not_le.mp hlt⟩
  rw [← h, valueAt_past le_rfl] at hinside
  exact ha.valueAt_hi hinside

theorem Normal.ext (ha : Normal a) (hb : Normal b) (h : ∀ z, valueAt a z = valueAt b z) : a = b := by
  induction a generalizing b with
  | nil =>
    cases b with
    | nil => rfl
    | cons t b => exact absurd ((h t.lo).trans (valueAt_lo t b)) nofun
  | cons s a ih =>
    cases b with
    | nil => exact absurd ((h s.lo).symm.trans (valueAt_lo s a)) nofun
    | cons t b =>
      have hlo : s.lo = t.lo := le_antisymm (ha.head_le h) (hb.head_le fun z => (h z).symm)
      have hvalue : s.value = t.value := by
        have hat := h s.lo
        rw [valueAt_lo, hlo, valueAt_lo] at hat
        exact Option.some.inj hat
      have hhi : s.hi = t.hi := le_antisymm (hb.head_hi_le hlo.symm hvalue.symm fun z => (h z).symm)
        (ha.head_hi_le hlo hvalue h)
      obtain rfl : s = t := by
        cases s
        cases t
        cases hlo
        cases hhi
        cases hvalue
        rfl
      rw [ih ha.tail hb.tail fun z => ?_]
      rcases lt_or_ge z s.hi with hz | hz
      · rw [ha.valueAt_tail_before hz, hb.valueAt_tail_before hz]
      · have hat := h z
        rwa [valueAt_past hz, valueAt_past hz] at hat

/-! ### Joining neighbours -/

/-- Segments that touch and have the same value are joined; `previous` is the last one, which can still grow. -/
def coalesceFrom [DecidableEq V] (previous : Segment V) : List (Segment V) → List (Segment V)
  | [] => [previous]
  | s :: rest =>
    if h : previous.hi = s.lo ∧ previous.value = s.value then
      coalesceFrom ⟨previous.lo, s.hi, previous.lt.trans (h.1 ▸ s.lt), previous.value⟩ rest
    else previous :: coalesceFrom s rest

def coalesce [DecidableEq V] : List (Segment V) → List (Segment V)
  | [] => []
  | s :: rest => coalesceFrom s rest

section coalesce
variable [DecidableEq V]

theorem coalesceFrom_head (previous : Segment V) (a : List (Segment V)) :
    ∃ s rest, coalesceFrom previous a = s :: rest ∧ s.lo = previous.lo ∧ s.value = previous.value := by
  induction a generalizing previous with
  | nil => exact ⟨previous, [], rfl, rfl, rfl⟩
  | cons t a ih =>
    rw [coalesceFrom]
    split_ifs with h
    · exact ih _
    · exact ⟨previous, _, rfl, rfl, rfl⟩

theorem coalesceFrom_spec (h : Ascending (s :: a)) :
    Normal (coalesceFrom s a) ∧ ∀ z, valueAt (coalesceFrom s a) z = valueAt (s :: a) z := by
  induction a generalizing s with
  | nil => exact ⟨trivial, fun _ => rfl⟩
  | cons t a ih =>
    rw [coalesceFrom]
    split_ifs with hjoin
    · have hascending : Ascending (⟨s.lo, t.hi, s.lt.trans (hjoin.1 ▸ t.lt), s.value⟩ :: a) := by
        cases a with
        | nil => trivial
        | cons u a => exact h.2
      obtain ⟨hnormal, hvalue⟩ := ih hascending
      refine ⟨hnormal, fun z => ?_⟩
      rw [hvalue]
      simp only [valueAt]
      have hcover : (s.lo ≤ z ∧ z < t.hi) ↔ (s.lo ≤ z ∧ z < s.hi) ∨ (t.lo ≤ z ∧ z < t.hi) := by
        have hs := s.lt
        have ht := t.lt
        omega
      by_cases hs : s.lo ≤ z ∧ z < s.hi
      · rw [if_pos (hcover.mpr (.inl hs)), if_pos hs]
      · rw [if_neg hs]
        by_cases ht : t.lo ≤ z ∧ z < t.hi
        · rw [if_pos (hcover.mpr (.inr ht)), if_pos ht, hjoin.2]
        · rw [if_neg ht, if_neg fun hz => (hcover.mp hz).elim hs ht]
    · obtain ⟨hnormal, hvalue⟩ := ih h.2
      obtain ⟨u, rest, heq, hlo, hv⟩ := coalesceFrom_head t a
      rw [heq] at hnormal hvalue ⊢
      refine ⟨⟨hlo ▸ h.1, fun htouch hsame => hjoin ⟨hlo ▸ htouch, hv ▸ hsame⟩, hnormal⟩, fun z => ?_⟩
      rw [valueAt, hvalue]
      rfl

theorem coalesce_spec (h : Ascending a) : Normal (coalesce a) ∧ ∀ z, valueAt (coalesce a) z = valueAt a z := by
  cases a with
  | nil => exact ⟨trivial, fun _ => rfl⟩
  | cons s a => exact coalesceFrom_spec h

end coalesce

/-! ### Joining overlapping segments -/

def mergeFrom (previous : Segment Unit) : List (Segment Unit) → List (Segment Unit)
  | [] => [previous]
  | s :: rest =>
    if s.lo ≤ previous.hi then
      mergeFrom ⟨previous.lo, max previous.hi s.hi, previous.lt.trans_le (le_max_left _ _), ()⟩ rest
    else previous :: mergeFrom s rest

def merge : List (Segment Unit) → List (Segment Unit)
  | [] => []
  | s :: rest => mergeFrom s rest

def Covered (a : List (Segment V)) (z : ℤ) : Prop := ∃ s ∈ a, s.lo ≤ z ∧ z < s.hi

theorem isSome_valueAt : (valueAt a z).isSome = true ↔ Covered a z := by
  induction a with
  | nil => exact ⟨nofun, nofun⟩
  | cons s a ih =>
    simp only [valueAt, Covered, List.mem_cons, exists_eq_or_imp]
    split_ifs with h
    · exact ⟨fun _ => .inl h, fun _ => rfl⟩
    · rw [ih]
      exact ⟨.inr, fun h' => h'.resolve_left h⟩

theorem mergeFrom_head (previous : Segment Unit) (a : List (Segment Unit)) :
    ∃ s rest, mergeFrom previous a = s :: rest ∧ s.lo = previous.lo := by
  induction a generalizing previous with
  | nil => exact ⟨previous, [], rfl, rfl⟩
  | cons t a ih =>
    rw [mergeFrom]
    split_ifs with h
    · exact ih _
    · exact ⟨previous, _, rfl, rfl⟩

theorem covered_cons : Covered (s :: a) z ↔ (s.lo ≤ z ∧ z < s.hi) ∨ Covered a z := by
  simp only [Covered, List.mem_cons, exists_eq_or_imp]

theorem mergeFrom_spec {s : Segment Unit} {a : List (Segment Unit)} (h : (s :: a).Pairwise fun s t => s.lo ≤ t.lo) :
    Normal (mergeFrom s a) ∧ ∀ z, Covered (mergeFrom s a) z ↔ Covered (s :: a) z := by
  induction a generalizing s with
  | nil => exact ⟨trivial, fun _ => Iff.rfl⟩
  | cons t a ih =>
    obtain ⟨hs, hta⟩ := List.pairwise_cons.mp h
    have hst : s.lo ≤ t.lo := hs t List.mem_cons_self
    rw [mergeFrom]
    split_ifs with hmeet
    · have hpairwise : (⟨s.lo, max s.hi t.hi, s.lt.trans_le (le_max_left _ _), ()⟩ :: a).Pairwise
          fun s t : Segment Unit => s.lo ≤ t.lo :=
        List.pairwise_cons.mpr ⟨fun u hu => hs u (List.mem_cons_of_mem t hu), (List.pairwise_cons.mp hta).2⟩
      obtain ⟨hnormal, hcovered⟩ := ih hpairwise
      refine ⟨hnormal, fun z => ?_⟩
      rw [hcovered, covered_cons, covered_cons, covered_cons, ← or_assoc]
      have hcover : (s.lo ≤ z ∧ z < max s.hi t.hi) ↔ (s.lo ≤ z ∧ z < s.hi) ∨ (t.lo ≤ z ∧ z < t.hi) := by omega
      rw [hcover]
    · obtain ⟨hnormal, hcovered⟩ := ih hta
      obtain ⟨u, rest, heq, hlo⟩ := mergeFrom_head t a
      have hgap : s.hi < u.lo := hlo ▸ not_le.mp hmeet
      rw [heq] at hnormal hcovered ⊢
      refine ⟨⟨hgap.le, fun htouch => absurd htouch hgap.ne, hnormal⟩, fun z => ?_⟩
      rw [covered_cons, hcovered, covered_cons (s := s)]

theorem merge_spec {a : List (Segment Unit)} (h : a.Pairwise fun s t => s.lo ≤ t.lo) :
    Normal (merge a) ∧ ∀ z, Covered (merge a) z ↔ Covered a z := by
  cases a with
  | nil => exact ⟨trivial, fun _ => Iff.rfl⟩
  | cons s a => exact mergeFrom_spec h

theorem Normal.ext_covered {a b : List (Segment Unit)} (ha : Normal a) (hb : Normal b)
    (h : ∀ z, Covered a z ↔ Covered b z) : a = b := by
  refine ha.ext hb fun z => ?_
  have hsome : (valueAt a z).isSome = (valueAt b z).isSome := by
    rw [Bool.eq_iff_iff, isSome_valueAt, isSome_valueAt, h]
  cases hx : valueAt a z <;> cases hy : valueAt b z <;> simp_all

/-! ### Cells between edges -/

def cells (f : ℤ → ℤ → Option V) : List ℤ → List (Segment V)
  | a :: b :: edges =>
    if h : a < b then ((f a b).map (⟨a, b, h, ·⟩)).toList ++ cells f (b :: edges) else cells f (b :: edges)
  | _ => []

variable {edges : List ℤ} {f : ℤ → ℤ → Option V}

theorem cells_lo {x : ℤ} (h : (x :: edges).Pairwise (· < ·)) : ∀ s ∈ cells f (x :: edges), x ≤ s.lo := by
  induction edges generalizing x with
  | nil => nofun
  | cons y edges ih =>
    obtain ⟨hx, hy⟩ := List.pairwise_cons.mp h
    have hxy : x < y := hx y List.mem_cons_self
    intro s hs
    rw [cells, dif_pos hxy, List.mem_append] at hs
    rcases hs with hs | hs
    · cases hf : f x y with
      | none =>
        rw [hf] at hs
        exact absurd hs nofun
      | some v =>
        rw [hf] at hs
        obtain rfl := List.mem_singleton.mp hs
        exact le_rfl
    · exact hxy.le.trans (ih hy s hs)

theorem ascending_cons {s : Segment V} (h : Ascending a) (hs : ∀ t ∈ a, s.hi ≤ t.lo) : Ascending (s :: a) := by
  cases a with
  | nil => trivial
  | cons t a => exact ⟨hs t List.mem_cons_self, h⟩

theorem ascending_cells (h : edges.Pairwise (· < ·)) : Ascending (cells f edges) := by
  induction edges with
  | nil => trivial
  | cons x edges ih =>
    cases edges with
    | nil => trivial
    | cons y edges =>
      obtain ⟨hx, hy⟩ := List.pairwise_cons.mp h
      rw [cells, dif_pos (hx y List.mem_cons_self)]
      cases f x y with
      | none => exact ih hy
      | some v => exact ascending_cons (ih hy) (cells_lo hy)

theorem valueAt_of_lt (h : ∀ s ∈ a, z < s.lo) : valueAt a z = none := by
  rw [← Option.not_isSome_iff_eq_none, isSome_valueAt]
  rintro ⟨s, hs, hlo, -⟩
  exact absurd hlo (not_le.mpr (h s hs))

theorem valueAt_cells {g : ℤ → Option V} {x : ℤ} (h : (x :: edges).Pairwise (· < ·))
    (hcell : ∀ a b z, a ∈ x :: edges → b ∈ x :: edges → (∀ e ∈ x :: edges, e ≤ a ∨ b ≤ e) → a ≤ z → z < b → f a b = g z)
    (hafter : ∀ z, (∀ e ∈ x :: edges, e ≤ z) → g z = none) (hz : x ≤ z) :
    valueAt (cells f (x :: edges)) z = g z := by
  induction edges generalizing x with
  | nil => exact (hafter z fun e he => List.mem_singleton.mp he ▸ hz).symm
  | cons y edges ih =>
    obtain ⟨hx, hy⟩ := List.pairwise_cons.mp h
    have hxy : x < y := hx y List.mem_cons_self
    rw [cells, dif_pos hxy]
    rcases lt_or_ge z y with hzy | hzy
    · have hvalue : f x y = g z := by
        refine hcell x y z List.mem_cons_self (List.mem_cons_of_mem x List.mem_cons_self) (fun e he => ?_) hz hzy
        rcases List.mem_cons.mp he with rfl | he
        · exact .inl le_rfl
        · rcases List.mem_cons.mp he with rfl | he
          · exact .inr le_rfl
          · exact .inr ((List.pairwise_cons.mp hy).1 e he).le
      rw [← hvalue]
      cases f x y with
      | none => exact valueAt_of_lt fun s hs => hzy.trans_le (cells_lo hy s hs)
      | some v => exact if_pos ⟨hz, hzy⟩
    · have htail : valueAt (cells f (y :: edges)) z = g z := by
        refine ih hy (fun a b z' ha hb hbetween => ?_) (fun z' hall => ?_) hzy
        · refine hcell a b z' (List.mem_cons_of_mem x ha) (List.mem_cons_of_mem x hb) fun e he => ?_
          rcases List.mem_cons.mp he with rfl | he
          · rcases List.mem_cons.mp ha with rfl | ha
            · exact .inl hxy.le
            · exact .inl (hxy.le.trans ((List.pairwise_cons.mp hy).1 a ha).le)
          · exact hbetween e he
        · refine hafter z' fun e he => ?_
          rcases List.mem_cons.mp he with rfl | he
          · exact hxy.le.trans (hall y List.mem_cons_self)
          · exact hall e he
      cases f x y with
      | none => exact htail
      | some v => exact (valueAt_past hzy).trans htail

end Segment
end Foundation
