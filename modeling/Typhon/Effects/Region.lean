import Typhon.Effects.Conservative
import Typhon.Foundation.Machine

/-! The bounded regions as sets of pixels: each operation covers the set it stands for, and is that set while the list
has room. The pieces of a difference do not overlap; their sides are `i32` differences, which a long rectangle
exceeds. -/

namespace Typhon.Effects
open Foundation

def CutFits (source excluded : EffectRect) : Prop :=
  (source.intersect excluded).isSome = true →
    (excluded.x.val - source.x.val ≤ 2147483647 ∧ source.right - excluded.right ≤ 2147483647) ∧
    excluded.y.val - source.y.val ≤ 2147483647 ∧ source.bottom - excluded.bottom ≤ 2147483647

theorem subAsU32_of_le {a b : I32} (hle : b.val ≤ a.val) :
    subAsU32 a b = if a.val - b.val ≤ 2147483647 then .ok ⟨(a.val - b.val).toNat, by have := a.2; have := b.2; omega⟩
      else .error (.panic "attempt to subtract with overflow") := by
  have ha := a.2
  have hb := b.2
  unfold subAsU32 I32.checkedSub
  split_ifs with hfits hle' hle'
  · refine congrArg Except.ok (Subtype.ext ?_)
    dsimp only
    omega
  · omega
  · omega
  · rfl

namespace EffectRect
variable {r r' s : EffectRect} {p : ℤ × ℤ}

structure Inside (r s : EffectRect) : Prop where
  left : s.x.val ≤ r.x.val
  right : r.right ≤ s.right
  top : s.y.val ≤ r.y.val
  bottom : r.bottom ≤ s.bottom

def Apart (r r' : EffectRect) : Prop := ∀ p, r.containsPoint p → ¬r'.containsPoint p

theorem intersect_edges {o : EffectRect} (h : r.intersect r' = some o) :
    (o.x.val = max r.x.val r'.x.val ∧ o.right = min r.right r'.right) ∧
      o.y.val = max r.y.val r'.y.val ∧ o.bottom = min r.bottom r'.bottom := by
  unfold intersect at h
  split_ifs at h
  cases h
  unfold ofEdges right bottom at *
  dsimp only
  omega

theorem Inside.of_intersect {o : EffectRect} (h : r.intersect r' = some o) : o.Inside r := by
  obtain ⟨⟨hx, hr⟩, hy, hb⟩ := intersect_edges h
  constructor <;> omega

theorem not_containsPoint_of_intersect (h : r.intersect r' = none) (hp : r.containsPoint p) : ¬r'.containsPoint p := by
  intro hp'
  obtain ⟨i, hi, -⟩ := intersect_covers hp hp'
  exact absurd (h.symm.trans hi) nofun

theorem bounds_of_expanded {e bounds : EffectRect} {radiusX radiusY : U32}
    (h : r.expanded radiusX radiusY bounds = some e) (hp : e.containsPoint p) : bounds.containsPoint p := by
  unfold expanded at h
  split_ifs at h
  cases h
  rw [containsPoint_ofEdges] at hp
  unfold containsPoint
  omega

theorem Inside.union {u : EffectRect} (h : r.Inside s) (h' : r'.Inside s) (hu : r.union r' = some u) : u.Inside s := by
  obtain ⟨hleft, hright, htop, hbottom⟩ := h
  obtain ⟨hleft', hright', htop', hbottom'⟩ := h'
  have hx := r.x_lt_right
  have hy := r.y_lt_bottom
  have hxmin := I32.min_val r.x r'.x
  have hymin := I32.min_val r.y r'.y
  unfold EffectRect.union EffectRect.new at hu
  dsimp only at hu
  split_ifs at hu
  cases hu
  constructor <;> dsimp only [EffectRect.right, EffectRect.bottom] at * <;> omega

end EffectRect

section pieces
variable {present : Bool} {x y : I32} {width height : Run Empty U32} {left top right bottom : ℤ}
  {rects : List EffectRect}

structure Holds (present : Prop) (left top right bottom : ℤ) (rects : List EffectRect) : Prop where
  edges : ∀ r ∈ rects, present ∧ (r.x.val = left ∧ r.right = right) ∧ r.y.val = top ∧ r.bottom = bottom
  found : present → ∃ r, r ∈ rects
  single : rects.length ≤ 1

theorem Holds.containsPoint (h : Holds (present = true) left top right bottom rects) (p : ℤ × ℤ) :
    (∃ r ∈ rects, r.containsPoint p) ↔ present = true ∧ (left ≤ p.1 ∧ p.1 < right) ∧ top ≤ p.2 ∧ p.2 < bottom := by
  unfold EffectRect.containsPoint
  constructor
  · rintro ⟨r, hr, hp⟩
    obtain ⟨hpresent, hedges⟩ := h.edges r hr
    exact ⟨hpresent, by omega⟩
  · rintro ⟨hpresent, hp⟩
    obtain ⟨r, hr⟩ := h.found hpresent
    obtain ⟨-, hedges⟩ := h.edges r hr
    exact ⟨r, hr, by omega⟩

theorem Holds.pairwise {P : Prop} (h : Holds P left top right bottom rects) : rects.Pairwise EffectRect.Apart := by
  have hsingle := h.single
  rcases rects with _ | ⟨r, _ | ⟨r', rects⟩⟩
  · exact List.Pairwise.nil
  · exact List.pairwise_singleton _ r
  · simp only [List.length_cons] at hsingle
    omega

theorem Holds.apart {P Q : Prop} {left' top' right' bottom' : ℤ} {rects' : List EffectRect}
    (h : Holds P left top right bottom rects) (h' : Holds Q left' top' right' bottom' rects')
    (hsep : bottom ≤ top' ∨ bottom' ≤ top ∨ right ≤ left') : ∀ r ∈ rects, ∀ r' ∈ rects', r.Apart r' := by
  intro r hr r' hr' p hp hp'
  obtain ⟨-, hedges⟩ := h.edges r hr
  obtain ⟨-, hedges'⟩ := h'.edges r' hr'
  unfold EffectRect.containsPoint at hp hp'
  omega

theorem piece_holds (h : present = true → ∃ w h : U32, (width = .ok w ∧ height = .ok h) ∧ (0 < w.val ∧ 0 < h.val) ∧
      (x.val + w.val = right ∧ y.val + h.val = bottom) ∧ right ≤ 2147483647 ∧ bottom ≤ 2147483647) :
    ∃ rects, piece present x y width height = .ok rects ∧ Holds (present = true) x.val y.val right bottom rects := by
  unfold piece
  split_ifs with hpresent
  · obtain ⟨w, h, ⟨rfl, rfl⟩, hpos, ⟨rfl, rfl⟩, hle⟩ := h hpresent
    simp only [Run.ok_bind, EffectRect.new, dif_pos (And.intro hpos hle), Run.expect_some]
    refine ⟨_, rfl, fun r hr => ?_, fun _ => ⟨_, List.mem_cons_self⟩, Nat.le_refl _⟩
    obtain rfl := List.mem_singleton.mp hr
    exact ⟨hpresent, ⟨rfl, rfl⟩, rfl, rfl⟩
  · exact ⟨[], rfl, fun r hr => absurd hr List.not_mem_nil, fun hp => absurd hp hpresent, Nat.zero_le _⟩

theorem piece_rows (r : EffectRect) (a b : I32) (hfits : b.val - a.val ≤ 2147483647) :
    ∃ rects, piece (a.val < b.val) r.x a (.ok r.width) (subAsU32 b a) = .ok rects ∧
      Holds (decide (a.val < b.val) = true) r.x.val a.val r.right b.val rects := by
  refine piece_holds fun hpresent => ?_
  have hlt := of_decide_eq_true hpresent
  have hb := b.2
  rw [subAsU32_of_le hlt.le, if_pos hfits]
  exact ⟨r.width, _, ⟨rfl, rfl⟩, ⟨r.width_pos, by dsimp only; omega⟩, ⟨rfl, by dsimp only; omega⟩, r.right_le, by omega⟩

theorem piece_columns (r : EffectRect) (a b : I32) (hfits : b.val - a.val ≤ 2147483647) :
    ∃ rects, piece (a.val < b.val) a r.y (subAsU32 b a) (.ok r.height) = .ok rects ∧
      Holds (decide (a.val < b.val) = true) a.val r.y.val b.val r.bottom rects := by
  refine piece_holds fun hpresent => ?_
  have hlt := of_decide_eq_true hpresent
  have hb := b.2
  rw [subAsU32_of_le hlt.le, if_pos hfits]
  exact ⟨_, r.height, ⟨rfl, rfl⟩, ⟨by dsimp only; omega, r.height_pos⟩,
    ⟨by dsimp only; omega, rfl⟩, by omega, r.bottom_le⟩

theorem piece_sides (h : piece present x y width height = .ok rects) (hpresent : present = true) :
    (∃ w, width = .ok w) ∧ ∃ h, height = .ok h := by
  rw [piece, if_pos hpresent] at h
  obtain ⟨w, hw, h⟩ := Run.bind_eq_ok.mp h
  obtain ⟨h', hh, -⟩ := Run.bind_eq_ok.mp h
  exact ⟨⟨w, hw⟩, h', hh⟩

theorem sub_le_of_subAsU32 {a b : I32} {n : U32} (hle : b.val ≤ a.val) (h : subAsU32 a b = .ok n) :
    a.val - b.val ≤ 2147483647 := by
  rw [subAsU32_of_le hle] at h
  split_ifs at h with hfits
  exact hfits

end pieces

section cut
variable {source excluded : EffectRect}

theorem subtractEffectRect_spec (hfits : CutFits source excluded) :
    ∃ pieces, subtractEffectRect source excluded = .ok pieces ∧ pieces.length ≤ 4 ∧
      pieces.Pairwise EffectRect.Apart ∧ (∀ r ∈ pieces, r.Inside source) ∧
      ∀ p, (∃ r ∈ pieces, r.containsPoint p) ↔ source.containsPoint p ∧ ¬excluded.containsPoint p := by
  unfold subtractEffectRect
  cases ho : source.intersect excluded with
  | none =>
    refine ⟨[source], rfl, Nat.le_add_left 1 3, List.pairwise_singleton _ _, fun r hr => ?_, fun p => ?_⟩
    · obtain rfl := List.mem_singleton.mp hr
      exact ⟨Int.le_refl _, Int.le_refl _, Int.le_refl _, Int.le_refl _⟩
    · simp only [List.mem_singleton, exists_eq_left]
      exact ⟨fun hp => ⟨hp, EffectRect.not_containsPoint_of_intersect ho hp⟩, And.left⟩
  | some o =>
    -- an edge of the overlap is one of `excluded` or of the source itself
    have hoffsets : (o.x.val - source.x.val ≤ 2147483647 ∧ source.right - o.right ≤ 2147483647) ∧
        o.y.val - source.y.val ≤ 2147483647 ∧ source.bottom - o.bottom ≤ 2147483647 := by
      obtain ⟨⟨hox, hor⟩, hoy, hob⟩ := EffectRect.intersect_edges ho
      obtain ⟨⟨hx, hr⟩, hy, hb⟩ := hfits (by rw [ho]; rfl)
      omega
    obtain ⟨hleft, hright, htop, hbottom⟩ := EffectRect.Inside.of_intersect ho
    have hwide := o.x_lt_right
    have hhigh := o.y_lt_bottom
    obtain ⟨above, habove, hA⟩ := piece_rows source source.y o.y hoffsets.2.1
    obtain ⟨below, hbelow, hB⟩ : ∃ rects, piece (o.bottom < source.bottom) source.x o.bottomEdge (.ok source.width)
        (subAsU32 source.bottomEdge o.bottomEdge) = .ok rects ∧
          Holds (decide (o.bottom < source.bottom) = true) source.x.val o.bottom source.right source.bottom rects :=
      piece_rows source o.bottomEdge source.bottomEdge hoffsets.2.2
    obtain ⟨left, hleft', hL⟩ := piece_columns o source.x o.x hoffsets.1.1
    obtain ⟨right, hright', hR⟩ : ∃ rects, piece (o.right < source.right) o.rightEdge o.y
        (subAsU32 source.rightEdge o.rightEdge) (.ok o.height) = .ok rects ∧
          Holds (decide (o.right < source.right) = true) o.right o.y.val source.right o.bottom rects :=
      piece_columns o o.rightEdge source.rightEdge hoffsets.1.2
    refine ⟨above ++ below ++ left ++ right, ?_, ?_, ?_, fun r hr => ?_, fun p => ?_⟩
    · simp only [habove, hbelow, hleft', hright', Run.ok_bind]
      rfl
    · have := hA.single
      have := hB.single
      have := hL.single
      have := hR.single
      simp only [List.length_append]
      omega
    · simp only [List.pairwise_append, List.mem_append]
      refine ⟨⟨⟨hA.pairwise, hB.pairwise, hA.apart hB (by omega)⟩, hL.pairwise, ?_⟩, hR.pairwise, ?_⟩
      · rintro r (hr | hr)
        · exact hA.apart hL (by omega) r hr
        · exact hB.apart hL (by omega) r hr
      · rintro r ((hr | hr) | hr)
        · exact hA.apart hR (by omega) r hr
        · exact hB.apart hR (by omega) r hr
        · exact hL.apart hR (by omega) r hr
    · simp only [List.mem_append] at hr
      rcases hr with ((hr | hr) | hr) | hr
      · obtain ⟨-, hedges⟩ := hA.edges r hr
        constructor <;> omega
      · obtain ⟨-, hedges⟩ := hB.edges r hr
        constructor <;> omega
      · obtain ⟨-, hedges⟩ := hL.edges r hr
        constructor <;> omega
      · obtain ⟨-, hedges⟩ := hR.edges r hr
        constructor <;> omega
    · have hcut : source.containsPoint p ∧ ¬excluded.containsPoint p ↔ source.containsPoint p ∧ ¬o.containsPoint p := by
        refine and_congr_right fun hp => not_congr
          ⟨fun hp' => ?_, fun ho' => (EffectRect.containsPoint_intersect ho ho').2⟩
        obtain ⟨i, hi, hi'⟩ := EffectRect.intersect_covers hp hp'
        obtain rfl := Option.some.inj (ho.symm.trans hi)
        exact hi'
      rw [hcut]
      simp only [List.mem_append, or_and_right, exists_or, hA.containsPoint p, hB.containsPoint p, hL.containsPoint p,
        hR.containsPoint p, decide_eq_true_eq]
      unfold EffectRect.containsPoint
      omega

theorem cutFits_of_subtractEffectRect {pieces : List EffectRect} (h : subtractEffectRect source excluded = .ok pieces) :
    CutFits source excluded := by
  intro hsome
  obtain ⟨o, ho⟩ := Option.isSome_iff_exists.mp hsome
  obtain ⟨⟨hox, hor⟩, hoy, hob⟩ := EffectRect.intersect_edges ho
  rw [subtractEffectRect, ho] at h
  obtain ⟨above, habove, h⟩ := Run.bind_eq_ok.mp h
  obtain ⟨below, hbelow, h⟩ := Run.bind_eq_ok.mp h
  obtain ⟨left, hleft, h⟩ := Run.bind_eq_ok.mp h
  obtain ⟨right, hright, -⟩ := Run.bind_eq_ok.mp h
  have hredge : source.rightEdge.val - o.rightEdge.val = source.right - o.right := rfl
  have hbedge : source.bottomEdge.val - o.bottomEdge.val = source.bottom - o.bottom := rfl
  refine ⟨⟨?_, ?_⟩, ?_, ?_⟩
  · by_cases hlt : source.x.val < o.x.val
    · obtain ⟨⟨w, hw⟩, -⟩ := piece_sides hleft (decide_eq_true hlt)
      have := sub_le_of_subAsU32 (by omega) hw
      omega
    · omega
  · by_cases hlt : o.right < source.right
    · obtain ⟨⟨w, hw⟩, -⟩ := piece_sides hright (decide_eq_true hlt)
      have := sub_le_of_subAsU32 (by omega) hw
      omega
    · omega
  · by_cases hlt : source.y.val < o.y.val
    · obtain ⟨-, n, hn⟩ := piece_sides habove (decide_eq_true hlt)
      have := sub_le_of_subAsU32 (by omega) hn
      omega
    · omega
  · by_cases hlt : o.bottom < source.bottom
    · obtain ⟨-, n, hn⟩ := piece_sides hbelow (decide_eq_true hlt)
      have := sub_le_of_subAsU32 (by omega) hn
      omega
    · omega

theorem CutFits.of_sides (hwidth : source.width.val ≤ 2147483648) (hheight : source.height.val ≤ 2147483648) :
    CutFits source excluded := by
  intro hsome
  obtain ⟨o, ho⟩ := Option.isSome_iff_exists.mp hsome
  obtain ⟨⟨hox, hor⟩, hoy, hob⟩ := EffectRect.intersect_edges ho
  have hwide := o.x_lt_right
  have hhigh := o.y_lt_bottom
  unfold EffectRect.right EffectRect.bottom at *
  omega

end cut

namespace EffectRegion
variable {region other : EffectRegion} {rect source : EffectRect} {rects : List EffectRect} {p : ℤ × ℤ}

def Fits (region : EffectRegion) (rect : EffectRect) : Prop :=
  region.conservativeFull = true ∨ rect ∈ region.rects ∨ region.rects.length < maxEffectRegionRects

theorem containsPoint_push_iff (h : region.Fits rect) :
    (region.push rect).containsPoint p ↔ region.containsPoint p ∨ rect.containsPoint p := by
  refine ⟨fun hp => ?_, containsPoint_push⟩
  by_cases hfull : region.conservativeFull = true
  · exact .inl (.inl hfull)
  rcases h.resolve_left hfull with hmem | hroom
  · rw [push, if_neg hfull, if_pos hmem] at hp
    exact .inl hp
  · exact (push_of_room rect p (Bool.eq_false_of_not_eq_true hfull) hroom).2.2 hp

theorem containsPoint_foldl_push (h : region.containsPoint p ∨ ∃ r ∈ rects, r.containsPoint p) :
    (rects.foldl push region).containsPoint p := by
  induction rects generalizing region with
  | nil => exact h.resolve_right (by simp)
  | cons rect rects ih =>
    refine ih ?_
    rcases h with h | ⟨r, hr, hp⟩
    · exact .inl (containsPoint_push (.inl h))
    · rcases List.mem_cons.mp hr with rfl | hr
      · exact .inl (containsPoint_push (.inr hp))
      · exact .inr ⟨r, hr, hp⟩

theorem containsPoint_foldl_push_iff (h : Along push Fits rects region) :
    (rects.foldl push region).containsPoint p ↔ region.containsPoint p ∨ ∃ r ∈ rects, r.containsPoint p := by
  induction rects generalizing region with
  | nil => simp
  | cons rect rects ih =>
    rw [List.foldl_cons, ih h.2, containsPoint_push_iff h.1]
    simp only [List.mem_cons, or_and_right, exists_or, exists_eq_left, or_assoc]

theorem along_fits (hroom : region.rects.length + rects.length ≤ maxEffectRegionRects)
    (hfull : region.conservativeFull = false) : Along push Fits rects region := by
  induction rects generalizing region with
  | nil => trivial
  | cons rect rects ih =>
    rw [List.length_cons] at hroom
    obtain ⟨hfull', hlength, -⟩ := push_of_room rect (0, 0) hfull (by omega)
    exact ⟨.inr (.inr (by omega)), ih (by omega) hfull'⟩

def overlaps (region other : EffectRegion) : List EffectRect :=
  (region.rects ×ˢ other.rects).filterMap fun pair => pair.1.intersect pair.2

theorem foldl_push_filterMap {α : Type} (f : α → Option EffectRect) (l : List α) (region : EffectRegion) :
    (l.foldl (fun result a => match f a with
      | some rect => result.push rect
      | none => result) region) = (l.filterMap f).foldl push region := by
  rw [List.foldl_filterMap]
  refine congrArg (fun g => l.foldl g region) ?_
  funext result a
  cases f a <;> rfl

theorem mem_overlaps : (∃ r ∈ overlaps region other, r.containsPoint p) ↔
    (∃ r ∈ region.rects, r.containsPoint p) ∧ ∃ r ∈ other.rects, r.containsPoint p := by
  constructor
  · rintro ⟨r, hr, hp⟩
    obtain ⟨⟨left, right⟩, hpair, hr⟩ := List.mem_filterMap.mp hr
    obtain ⟨hleft, hright⟩ := List.mem_product.mp hpair
    obtain ⟨hp₁, hp₂⟩ := EffectRect.containsPoint_intersect hr hp
    exact ⟨⟨left, hleft, hp₁⟩, right, hright, hp₂⟩
  · rintro ⟨⟨left, hleft, hp₁⟩, right, hright, hp₂⟩
    obtain ⟨i, hi, hp⟩ := EffectRect.intersect_covers hp₁ hp₂
    exact ⟨i, List.mem_filterMap.mpr ⟨(left, right), List.mem_product.mpr ⟨hleft, hright⟩, hi⟩, hp⟩

theorem intersect_eq_foldl (hfull : ¬region.conservativeFull = true) (hfull' : ¬other.conservativeFull = true) :
    region.intersect other = (overlaps region other).foldl push empty := by
  rw [intersect, if_neg hfull, if_neg hfull']
  exact foldl_push_filterMap (fun pair : EffectRect × EffectRect => pair.1.intersect pair.2) _ _

theorem expandClampedXy_eq_foldl {radiusX radiusY : U32} {bounds : EffectRect}
    (hfull : ¬region.conservativeFull = true) : region.expandClampedXy radiusX radiusY bounds =
      (region.rects.filterMap fun rect => rect.expanded radiusX radiusY bounds).foldl push empty := by
  rw [expandClampedXy, if_neg hfull]
  exact foldl_push_filterMap (fun rect : EffectRect => rect.expanded radiusX radiusY bounds) _ _

theorem not_containsPoint_empty : ¬empty.containsPoint p := by
  rintro (h | ⟨_, h, -⟩)
  · cases h
  · cases h

theorem containsPoint_union (h : region.containsPoint p ∨ other.containsPoint p) :
    (region.union other).containsPoint p := by
  unfold union
  split
  · exact .inl rfl
  · rename_i hfull
    rw [Bool.or_eq_true] at hfull
    push Not at hfull
    exact containsPoint_foldl_push (h.imp_right fun h => h.resolve_left hfull.2)

theorem containsPoint_union_iff (hfits : Along push Fits other.rects region) :
    (region.union other).containsPoint p ↔ region.containsPoint p ∨ other.containsPoint p := by
  refine ⟨fun h => ?_, containsPoint_union⟩
  unfold union at h
  split at h
  · rename_i hfull
    rw [Bool.or_eq_true] at hfull
    exact hfull.imp .inl .inl
  · exact ((containsPoint_foldl_push_iff hfits).mp h).imp_right .inr

theorem containsPoint_inter (h : region.containsPoint p) (h' : other.containsPoint p) :
    (region.intersect other).containsPoint p := by
  by_cases hfull : region.conservativeFull = true
  · rw [intersect, if_pos hfull]
    exact h'
  by_cases hfull' : other.conservativeFull = true
  · rw [intersect, if_neg hfull, if_pos hfull']
    exact h
  rw [intersect_eq_foldl hfull hfull']
  exact containsPoint_foldl_push (.inr (mem_overlaps.mpr ⟨h.resolve_left hfull, h'.resolve_left hfull'⟩))

theorem containsPoint_inter_iff (hfits : Along push Fits (overlaps region other) empty) :
    (region.intersect other).containsPoint p ↔ region.containsPoint p ∧ other.containsPoint p := by
  refine ⟨fun h => ?_, fun h => containsPoint_inter h.1 h.2⟩
  by_cases hfull : region.conservativeFull = true
  · rw [intersect, if_pos hfull] at h
    exact ⟨.inl hfull, h⟩
  by_cases hfull' : other.conservativeFull = true
  · rw [intersect, if_neg hfull, if_pos hfull'] at h
    exact ⟨h, .inl hfull'⟩
  rw [intersect_eq_foldl hfull hfull', containsPoint_foldl_push_iff hfits] at h
  exact (mem_overlaps.mp (h.resolve_left not_containsPoint_empty)).imp .inr .inr

theorem containsPoint_expand_iff {radiusX radiusY : U32} {bounds : EffectRect} :
    (region.expandClampedXy radiusX radiusY bounds).containsPoint p ↔
      bounds.containsPoint p ∧ ∃ q, region.containsPoint q ∧ Within radiusX radiusY p q := by
  refine ⟨fun h => ?_, fun ⟨hp, q, hq, hwithin⟩ => containsPoint_expandClampedXy hp hq hwithin⟩
  by_cases hfull : region.conservativeFull = true
  · rw [expandClampedXy, if_pos hfull] at h
    rcases h with h | ⟨r, hr, hp⟩
    · cases h
    · exact ⟨List.mem_singleton.mp hr ▸ hp, p, .inl hfull, within_self p⟩
  · have hroom : (region.rects.filterMap fun rect => rect.expanded radiusX radiusY bounds).length ≤
        maxEffectRegionRects := (List.length_filterMap_le _ _).trans region.rects_le
    rw [expandClampedXy_eq_foldl hfull, containsPoint_foldl_push_iff (along_fits (by simpa [empty] using hroom) rfl)]
      at h
    obtain ⟨r, hr, hp⟩ := h.resolve_left not_containsPoint_empty
    obtain ⟨rect, hrect, hexpanded⟩ := List.mem_filterMap.mp hr
    obtain ⟨q, hq, hwithin⟩ := EffectRect.within_of_expanded hexpanded hp
    exact ⟨EffectRect.bounds_of_expanded hexpanded hp, q, .inr ⟨rect, hrect, hq⟩, hwithin⟩

section subtraction
variable {s : EffectRect}

structure Confined (s : EffectRect) (region : EffectRegion) : Prop where
  listed : region.conservativeFull = false
  inside : ∀ r ∈ region.rects, r.Inside s

theorem foldlM_union_inside {u : EffectRect} (hrects : ∀ r ∈ rects, r.Inside s) (hrect : rect.Inside s)
    (hu : rects.foldlM (fun bounds existing => bounds.union existing) rect = some u) : u.Inside s := by
  induction rects generalizing rect with
  | nil =>
    cases hu
    exact hrect
  | cons r rects ih =>
    rw [List.foldlM_cons] at hu
    obtain ⟨v, hv, hu⟩ := Option.bind_eq_some_iff.mp hu
    exact ih (fun r hr => hrects r (List.mem_cons_of_mem _ hr)) (hrect.union (hrects r List.mem_cons_self) hv) hu

theorem Confined.push (h : Confined s region) (hrect : rect.Inside s) : Confined s (region.push rect) := by
  unfold EffectRegion.push
  rw [if_neg (by rw [h.listed]; nofun)]
  split
  · exact h
  split
  · refine ⟨h.listed, fun r hr => ?_⟩
    rcases List.mem_append.mp hr with hold | hnew
    · exact h.inside r hold
    · exact List.mem_singleton.mp hnew ▸ hrect
  · obtain ⟨u, hu, -⟩ := foldlM_union_covers region.rects rect
    rw [hu]
    refine ⟨rfl, fun r hr => ?_⟩
    obtain rfl := List.mem_singleton.mp hr
    exact foldlM_union_inside h.inside hrect hu

theorem Confined.foldl_push (h : Confined s region) (hrects : ∀ r ∈ rects, r.Inside s) :
    Confined s (rects.foldl EffectRegion.push region) := by
  induction rects generalizing region with
  | nil => exact h
  | cons r rects ih =>
    exact ih (h.push (hrects r List.mem_cons_self)) fun r hr => hrects r (List.mem_cons_of_mem _ hr)

theorem cut_spec (excluded : EffectRect) (hwidth : s.width.val ≤ 2147483648) (hheight : s.height.val ≤ 2147483648)
    {next : EffectRegion} (hnext : Confined s next) (hrects : ∀ r ∈ rects, r.Inside s) :
    ∃ result, rects.foldlM (fun next candidate => do
        return (← subtractEffectRect candidate excluded).foldl push next) next = (.ok result : Run Empty EffectRegion) ∧
      Confined s result ∧ ∀ p, next.containsPoint p ∨ (∃ r ∈ rects, r.containsPoint p) ∧ ¬excluded.containsPoint p →
        result.containsPoint p := by
  induction rects generalizing next with
  | nil => exact ⟨next, rfl, hnext, fun p hp => hp.resolve_right (by simp)⟩
  | cons candidate rects ih =>
    have hinside := hrects candidate List.mem_cons_self
    have hsides : candidate.width.val ≤ s.width.val ∧ candidate.height.val ≤ s.height.val := by
      obtain ⟨hleft, hright, htop, hbottom⟩ := hinside
      unfold EffectRect.right EffectRect.bottom at *
      omega
    have hfits : CutFits candidate excluded := .of_sides (hsides.1.trans hwidth) (hsides.2.trans hheight)
    obtain ⟨pieces, hpieces, -, -, hin, hcovers⟩ := subtractEffectRect_spec hfits
    have hconfined : Confined s (pieces.foldl EffectRegion.push next) := by
      refine hnext.foldl_push fun r hr => ?_
      obtain ⟨hleft, hright, htop, hbottom⟩ := hin r hr
      exact ⟨hinside.left.trans hleft, hright.trans hinside.right, hinside.top.trans htop, hbottom.trans hinside.bottom⟩
    obtain ⟨result, hresult, hresult', hkeeps⟩ := ih hconfined fun r hr => hrects r (List.mem_cons_of_mem _ hr)
    refine ⟨result, by rw [List.foldlM_cons, hpieces]; exact hresult, hresult', fun p hp => hkeeps p ?_⟩
    rcases hp with hp | ⟨⟨r, hr, hp⟩, hout⟩
    · exact .inl (containsPoint_foldl_push (.inl hp))
    · rcases List.mem_cons.mp hr with rfl | hr
      · exact .inl (containsPoint_foldl_push (.inr ((hcovers p).mpr ⟨hp, hout⟩)))
      · exact .inr ⟨⟨r, hr, hp⟩, hout⟩

theorem subtractRects_spec (others : List EffectRect) (hwidth : s.width.val ≤ 2147483648)
    (hheight : s.height.val ≤ 2147483648) (h : Confined s region) :
    ∃ result, region.subtractRects others = .ok result ∧ Confined s result ∧
      ∀ p, region.containsPoint p → (∀ r ∈ others, ¬r.containsPoint p) → result.containsPoint p := by
  induction others generalizing region with
  | nil => exact ⟨region, rfl, h, fun p hp _ => hp⟩
  | cons excluded others ih =>
    unfold subtractRects
    split
    · exact ⟨region, rfl, h, fun p hp _ => hp⟩
    · have hempty : Confined s empty := ⟨rfl, fun r hr => absurd hr List.not_mem_nil⟩
      obtain ⟨next, hnext, hconfined, hkeeps⟩ := cut_spec excluded hwidth hheight hempty h.inside
      obtain ⟨result, hresult, hresult', hkeeps'⟩ := ih hconfined
      refine ⟨result, by rw [hnext]; exact hresult, hresult', fun p hp hout => hkeeps' p (hkeeps p (.inr ⟨?_, ?_⟩)) ?_⟩
      · exact hp.resolve_left (by rw [h.listed]; nofun)
      · exact hout excluded List.mem_cons_self
      · exact fun r hr => hout r (List.mem_cons_of_mem _ hr)

def Subtracts (region excluded : EffectRegion) : Prop :=
  ∃ result, region.subtract excluded = .ok result ∧
    ∀ p, region.containsPoint p → ¬excluded.containsPoint p → result.containsPoint p

def Moderate (region : EffectRegion) : Prop :=
  region.conservativeFull = true ∨
    ∀ r ∈ region.rects, r.width.val ≤ 2147483648 ∧ r.height.val ≤ 2147483648

theorem subtract_sources (hrects : ∀ r ∈ rects, r.width.val ≤ 2147483648 ∧ r.height.val ≤ 2147483648)
    (excluded : List EffectRect) (result : EffectRegion) : ∃ result', rects.foldlM (fun result source => do
        return (← subtractRects (fromRect source) excluded).rects.foldl push result) result =
          (.ok result' : Run Empty EffectRegion) ∧
      ∀ p, result.containsPoint p ∨ (∃ r ∈ rects, r.containsPoint p) ∧ (∀ r ∈ excluded, ¬r.containsPoint p) →
        result'.containsPoint p := by
  induction rects generalizing result with
  | nil => exact ⟨result, rfl, fun p hp => hp.resolve_right (by simp)⟩
  | cons source rects ih =>
    obtain ⟨hwidth, hheight⟩ := hrects source List.mem_cons_self
    have hsource : Confined source (fromRect source) := by
      refine ⟨rfl, fun r hr => ?_⟩
      obtain rfl := List.mem_singleton.mp hr
      exact ⟨Int.le_refl _, Int.le_refl _, Int.le_refl _, Int.le_refl _⟩
    obtain ⟨remaining, hremaining, hconfined, hkeeps⟩ := subtractRects_spec excluded hwidth hheight hsource
    obtain ⟨result', hresult', hkeeps'⟩ :=
      ih (fun r hr => hrects r (List.mem_cons_of_mem _ hr)) (remaining.rects.foldl push result)
    refine ⟨result', by rw [List.foldlM_cons, hremaining]; exact hresult', fun p hp => hkeeps' p ?_⟩
    rcases hp with hp | ⟨⟨r, hr, hp⟩, hout⟩
    · exact .inl (containsPoint_foldl_push (.inl hp))
    · rcases List.mem_cons.mp hr with rfl | hr
      · have hleft := hkeeps p (.inr ⟨r, List.mem_cons_self, hp⟩) hout
        exact .inl (containsPoint_foldl_push (.inr (hleft.resolve_left (by rw [hconfined.listed]; nofun))))
      · exact .inr ⟨⟨r, hr, hp⟩, hout⟩

theorem subtracts_of_moderate (h : region.Moderate) (excluded : EffectRegion) : region.Subtracts excluded := by
  unfold Subtracts subtract
  split
  · rename_i hempty
    refine ⟨empty, rfl, fun p hp hout => absurd hp ?_⟩
    rcases Bool.or_eq_true_iff.mp hempty with hempty | hfull
    · simp only [isEmpty, Bool.and_eq_true, List.isEmpty_iff, Bool.not_eq_true'] at hempty
      rintro (hfull | ⟨r, hr, -⟩)
      · exact absurd (hempty.2.symm.trans hfull) nofun
      · rw [hempty.1] at hr
        cases hr
    · exact absurd (.inl hfull) hout
  split
  · exact ⟨region, rfl, fun p hp _ => hp⟩
  · rename_i hfull
    have hlisted : ¬region.conservativeFull = true := fun h => hfull (by rw [h, Bool.or_true])
    obtain ⟨result, hresult, hkeeps⟩ := subtract_sources (h.resolve_left hlisted) excluded.rects empty
    refine ⟨result, hresult, fun p hp hout => hkeeps p (.inr ⟨hp.resolve_left hlisted, fun r hr hp => ?_⟩)⟩
    exact hout (.inr ⟨r, hr, hp⟩)

theorem exists_cut_of_long (r : EffectRect) (h : 2147483648 < r.width.val ∨ 2147483648 < r.height.val) :
    ∃ cut, ¬CutFits r cut := by
  have hx := r.x.2
  have hy := r.y.2
  have hwidth := r.width_pos
  have hheight := r.height_pos
  have hright := r.right_le
  have hbottom := r.bottom_le
  have hcolumn : -2147483648 ≤ r.right - 1 ∧ r.right - 1 < r.right ∧ r.right ≤ 2147483647 := by
    unfold EffectRect.right
    omega
  have hrow : -2147483648 ≤ r.bottom - 1 ∧ r.bottom - 1 < r.bottom ∧ r.bottom ≤ 2147483647 := by
    unfold EffectRect.bottom
    omega
  have hcut : (EffectRect.ofEdges _ _ _ _ hcolumn hrow).containsPoint (r.right - 1, r.bottom - 1) :=
    EffectRect.containsPoint_ofEdges.mpr (by dsimp only; omega)
  have hlast : r.containsPoint (r.right - 1, r.bottom - 1) := by
    unfold EffectRect.containsPoint EffectRect.right EffectRect.bottom
    dsimp only
    omega
  obtain ⟨i, hi, -⟩ := EffectRect.intersect_covers hlast hcut
  refine ⟨EffectRect.ofEdges _ _ _ _ hcolumn hrow, fun hfits => ?_⟩
  obtain ⟨⟨hx', -⟩, hy', -⟩ := hfits (by rw [hi]; rfl)
  unfold EffectRect.ofEdges EffectRect.right EffectRect.bottom at hx' hy'
  dsimp only at hx' hy'
  omega

theorem cutFits_of_sources {cut : EffectRect} {result result' : EffectRegion}
    (h : rects.foldlM (fun result source => do
        return (← subtractRects (fromRect source) [cut]).rects.foldl push result) result =
          (.ok result' : Run Empty EffectRegion)) : ∀ r ∈ rects, CutFits r cut := by
  induction rects generalizing result with
  | nil => exact fun r hr => absurd hr List.not_mem_nil
  | cons source rects ih =>
    rw [List.foldlM_cons] at h
    obtain ⟨mid, hmid, h⟩ := Run.bind_eq_ok.mp h
    obtain ⟨remaining, hremaining, -⟩ := Run.bind_eq_ok.mp hmid
    intro r hr
    rcases List.mem_cons.mp hr with rfl | hr
    · obtain ⟨next, hnext, -⟩ := Run.bind_eq_ok.mp hremaining
      obtain ⟨first, hfirst, -⟩ := Run.bind_eq_ok.mp hnext
      obtain ⟨pieces, hpieces, -⟩ := Run.bind_eq_ok.mp hfirst
      exact cutFits_of_subtractEffectRect hpieces
    · exact ih h r hr

theorem moderate_of_subtracts (h : ∀ excluded, region.Subtracts excluded) : region.Moderate := by
  by_contra hlong
  unfold Moderate at hlong
  push Not at hlong
  obtain ⟨hlisted, r, hr, hsides⟩ := hlong
  obtain ⟨cut, hcut⟩ := exists_cut_of_long r (by omega)
  obtain ⟨result, hresult, -⟩ := h (fromRect cut)
  have hempty : region.isEmpty = false := by
    rw [isEmpty, List.isEmpty_eq_false_iff_exists_mem.mpr ⟨r, hr⟩]
    rfl
  rw [subtract, hempty, if_neg (by nofun), if_neg (by simpa [fromRect, isEmpty] using hlisted)] at hresult
  exact hcut (cutFits_of_sources hresult r hr)

end subtraction

end EffectRegion

def Cuts (source cut : EffectRect) : Prop :=
  ∃ pieces, subtractEffectRect source cut = .ok pieces ∧ pieces.Pairwise EffectRect.Apart ∧
    ∀ p, (∃ r ∈ pieces, r.containsPoint p) ↔ source.containsPoint p ∧ ¬cut.containsPoint p

open EffectRegion in
theorem region_algebra_sound (region : EffectRegion) : region.rects.length ≤ maxEffectRegionRects ∧
    (∀ (rect : EffectRect) (p : ℤ × ℤ),
      (region.containsPoint p ∨ rect.containsPoint p → (region.push rect).containsPoint p) ∧
      (region.Fits rect → (region.push rect).containsPoint p → region.containsPoint p ∨ rect.containsPoint p)) ∧
    (∀ (other : EffectRegion) (p : ℤ × ℤ),
      (region.containsPoint p ∨ other.containsPoint p → (region.union other).containsPoint p) ∧
      (Along push Fits other.rects region → (region.union other).containsPoint p →
        region.containsPoint p ∨ other.containsPoint p)) ∧
    (∀ (other : EffectRegion) (p : ℤ × ℤ),
      (region.containsPoint p ∧ other.containsPoint p → (region.intersect other).containsPoint p) ∧
      (Along push Fits (overlaps region other) empty → (region.intersect other).containsPoint p →
        region.containsPoint p ∧ other.containsPoint p)) ∧
    (∀ (radiusX radiusY : U32) (bounds : EffectRect) (p : ℤ × ℤ),
      (region.expandClampedXy radiusX radiusY bounds).containsPoint p ↔
        bounds.containsPoint p ∧ ∃ q, region.containsPoint q ∧ Within radiusX radiusY p q) ∧
    ((∀ excluded, region.Subtracts excluded) ↔ region.Moderate) ∧
    ∀ source cut : EffectRect, Cuts source cut ↔ CutFits source cut := by
  refine ⟨region.rects_le, fun rect p => ⟨containsPoint_push, fun h => (containsPoint_push_iff h).mp⟩,
    fun other p => ⟨containsPoint_union, fun h => (containsPoint_union_iff h).mp⟩,
    fun other p => ⟨fun h => containsPoint_inter h.1 h.2, fun h => (containsPoint_inter_iff h).mp⟩,
    fun radiusX radiusY bounds p => containsPoint_expand_iff,
    ⟨moderate_of_subtracts, subtracts_of_moderate⟩, fun source cut => ⟨?_, fun hfits => ?_⟩⟩
  · rintro ⟨pieces, hpieces, -⟩
    exact cutFits_of_subtractEffectRect hpieces
  · obtain ⟨pieces, hpieces, -, hapart, -, hcovers⟩ := subtractEffectRect_spec hfits
    exact ⟨pieces, hpieces, hapart, hcovers⟩

def column : EffectRect :=
  ⟨⟨0, by decide⟩, ⟨-2147483648, by decide⟩, ⟨1, by decide⟩, ⟨4294967294, by decide⟩, by decide, by decide, by decide,
    by decide⟩

def lastPixel : EffectRect :=
  ⟨⟨0, by decide⟩, ⟨2147483645, by decide⟩, ⟨1, by decide⟩, ⟨1, by decide⟩, by decide, by decide, by decide, by decide⟩

theorem column_difference_overflows : (EffectRegion.fromRect column).subtract (EffectRegion.fromRect lastPixel) =
      .error (.panic "attempt to subtract with overflow") ∧
    subtractEffectRect column lastPixel = .error (.panic "attempt to subtract with overflow") := by
  decide +kernel

end Typhon.Effects
