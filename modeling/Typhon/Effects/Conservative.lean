import Typhon.Effects.Damage

/-! Planned damage is conservative: no pixel that a change of the source reaches is left out, and the capture holds
every pixel that the redrawn ones sample. -/

namespace Typhon.Effects
open Foundation

namespace EffectRect
variable {r r' bounds : EffectRect} {p q : ℤ × ℤ} {radiusX radiusY : U32}

theorem union_covers (r r' : EffectRect) :
    ∃ u, r.union r' = some u ∧ ∀ p, r.containsPoint p ∨ r'.containsPoint p → u.containsPoint p := by
  have hx := r.x_lt_right
  have hy := r.y_lt_bottom
  have hleft := I32.min_val r.x r'.x
  have htop := I32.min_val r.y r'.y
  have hright : max r.right r'.right ≤ 2147483647 := max_le r.right_le r'.right_le
  have hbottom : max r.bottom r'.bottom ≤ 2147483647 := max_le r.bottom_le r'.bottom_le
  have hxmin := (I32.min r.x r'.x).2.1
  have hymin := (I32.min r.y r'.y).2.1
  unfold union EffectRect.new
  dsimp only
  rw [dif_pos (by omega), dif_pos (by omega)]
  refine ⟨_, rfl, fun p hp => ?_⟩
  unfold containsPoint right bottom at *
  dsimp only
  omega

theorem intersect_covers (h : r.containsPoint p) (h' : r'.containsPoint p) :
    ∃ i, r.intersect r' = some i ∧ i.containsPoint p := by
  unfold intersect containsPoint at *
  rw [dif_pos (by omega)]
  exact ⟨_, rfl, containsPoint_ofEdges.mpr (by omega)⟩

theorem containsPoint_intersect {i : EffectRect} (h : r.intersect r' = some i) (hp : i.containsPoint p) :
    r.containsPoint p ∧ r'.containsPoint p := by
  unfold intersect at h
  split_ifs at h
  cases h
  rw [containsPoint_ofEdges] at hp
  unfold containsPoint
  omega

theorem expanded_covers (hp : bounds.containsPoint p) (hq : r.containsPoint q) (h : Within radiusX radiusY p q) :
    ∃ e, r.expanded radiusX radiusY bounds = some e ∧ e.containsPoint p := by
  unfold Within at h
  rw [abs_le, abs_le] at h
  unfold expanded containsPoint at *
  rw [dif_pos (by omega)]
  exact ⟨_, rfl, containsPoint_ofEdges.mpr (by omega)⟩

theorem within_of_expanded {e : EffectRect} (h : r.expanded radiusX radiusY bounds = some e) (hp : e.containsPoint p) :
    ∃ q, r.containsPoint q ∧ Within radiusX radiusY p q := by
  have hx := r.x_lt_right
  have hy := r.y_lt_bottom
  unfold expanded at h
  split_ifs at h
  cases h
  rw [containsPoint_ofEdges] at hp
  refine ⟨(max r.x.val (min p.1 (r.right - 1)), max r.y.val (min p.2 (r.bottom - 1))), ?_, ?_⟩
  · unfold containsPoint
    dsimp only
    omega
  · unfold Within
    rw [abs_le, abs_le]
    dsimp only
    omega

end EffectRect

namespace EffectRegion
variable {region clip : EffectRegion} {rect bounds : EffectRect} {p q : ℤ × ℤ} {radiusX radiusY : U32}

theorem foldlM_union_covers (rects : List EffectRect) (rect : EffectRect) :
    ∃ u, rects.foldlM (fun bounds existing => bounds.union existing) rect = some u ∧
      ∀ p, rect.containsPoint p ∨ (∃ existing ∈ rects, existing.containsPoint p) → u.containsPoint p := by
  induction rects generalizing rect with
  | nil => exact ⟨rect, rfl, fun p hp => by simpa using hp⟩
  | cons existing rects ih =>
    obtain ⟨u, hu, hcovers⟩ := EffectRect.union_covers rect existing
    obtain ⟨v, hv, hcovers'⟩ := ih u
    refine ⟨v, by rw [List.foldlM_cons, hu]; exact hv, fun p hp => hcovers' p ?_⟩
    rcases hp with hp | ⟨other, hother, hp⟩
    · exact .inl (hcovers p (.inl hp))
    · rcases List.mem_cons.mp hother with rfl | hother
      · exact .inl (hcovers p (.inr hp))
      · exact .inr ⟨other, hother, hp⟩

theorem containsPoint_push (h : region.containsPoint p ∨ rect.containsPoint p) :
    (region.push rect).containsPoint p := by
  unfold push
  split
  · exact .inl ‹_›
  rename_i hfull
  have hp : rect.containsPoint p ∨ ∃ existing ∈ region.rects, existing.containsPoint p :=
    h.elim (fun h => .inr (h.resolve_left hfull)) .inl
  split
  · rename_i hmem
    exact .inr (hp.elim (fun hp => ⟨rect, hmem, hp⟩) id)
  split
  · refine .inr ?_
    rcases hp with hp | ⟨existing, hexisting, hp⟩
    · exact ⟨rect, List.mem_append_right _ List.mem_cons_self, hp⟩
    · exact ⟨existing, List.mem_append_left _ hexisting, hp⟩
  · obtain ⟨u, hu, hcovers⟩ := foldlM_union_covers region.rects rect
    rw [hu]
    exact .inr ⟨u, List.mem_cons_self, hcovers p hp⟩

def expandStep (radiusX radiusY : U32) (bounds : EffectRect) (result : EffectRegion) (rect : EffectRect) :
    EffectRegion :=
  match rect.expanded radiusX radiusY bounds with
  | some expanded => result.push expanded
  | none => result

theorem containsPoint_expandStep (h : region.containsPoint p) :
    (expandStep radiusX radiusY bounds region rect).containsPoint p := by
  unfold expandStep
  split
  · exact containsPoint_push (.inl h)
  · exact h

theorem containsPoint_foldl_expandStep {rects : List EffectRect} (hp : bounds.containsPoint p)
    (h : region.containsPoint p ∨ ∃ rect ∈ rects, ∃ q, rect.containsPoint q ∧ Within radiusX radiusY p q) :
    (rects.foldl (expandStep radiusX radiusY bounds) region).containsPoint p := by
  induction rects generalizing region with
  | nil => exact h.resolve_right (by simp)
  | cons rect rects ih =>
    refine ih ?_
    rcases h with h | ⟨near, hnear, q, hq, hwithin⟩
    · exact .inl (containsPoint_expandStep h)
    · rcases List.mem_cons.mp hnear with rfl | hnear
      · refine .inl ?_
        obtain ⟨e, he, hcovers⟩ := EffectRect.expanded_covers hp hq hwithin
        rw [expandStep, he]
        exact containsPoint_push (.inr hcovers)
      · exact .inr ⟨near, hnear, q, hq, hwithin⟩

theorem containsPoint_expandClampedXy (hp : bounds.containsPoint p) (hq : region.containsPoint q)
    (h : Within radiusX radiusY p q) : (region.expandClampedXy radiusX radiusY bounds).containsPoint p := by
  unfold expandClampedXy
  split
  · exact .inr ⟨bounds, List.mem_cons_self, hp⟩
  · rename_i hfull
    obtain ⟨rect, hrect, hq⟩ := hq.resolve_left hfull
    exact containsPoint_foldl_expandStep hp (.inr ⟨rect, hrect, q, hq, h⟩)

theorem push_of_room (rect : EffectRect) (p : ℤ × ℤ) (hfull : region.conservativeFull = false)
    (hroom : region.rects.length < maxEffectRegionRects) :
    (region.push rect).conservativeFull = false ∧ (region.push rect).rects.length ≤ region.rects.length + 1 ∧
      ((region.push rect).containsPoint p → region.containsPoint p ∨ rect.containsPoint p) := by
  unfold push
  rw [if_neg (by rw [hfull]; nofun)]
  split
  · exact ⟨hfull, Nat.le_succ _, .inl⟩
  · refine ⟨hfull, by rw [List.length_append]; rfl, ?_⟩
    rintro (h | ⟨existing, hexisting, hp⟩)
    · exact .inl (.inl h)
    · rcases List.mem_append.mp hexisting with hold | hnew
      · exact .inl (.inr ⟨existing, hold, hp⟩)
      · exact .inr (List.mem_singleton.mp hnew ▸ hp)

theorem of_containsPoint_foldl_expandStep {rects : List EffectRect} (hfull : region.conservativeFull = false)
    (hroom : region.rects.length + rects.length ≤ maxEffectRegionRects)
    (h : (rects.foldl (expandStep radiusX radiusY bounds) region).containsPoint p) :
    region.containsPoint p ∨ ∃ rect ∈ rects, ∃ q, rect.containsPoint q ∧ Within radiusX radiusY p q := by
  induction rects generalizing region with
  | nil => exact .inl h
  | cons rect rects ih =>
    have hlater : (∃ rect ∈ rects, ∃ q, rect.containsPoint q ∧ Within radiusX radiusY p q) →
        ∃ near ∈ rect :: rects, ∃ q, near.containsPoint q ∧ Within radiusX radiusY p q :=
      fun ⟨near, hnear, hq⟩ => ⟨near, List.mem_cons_of_mem _ hnear, hq⟩
    rw [List.length_cons] at hroom
    rw [List.foldl_cons, expandStep] at h
    split at h
    · rename_i e he
      obtain ⟨hfull', hlength, hpush⟩ := push_of_room e p hfull (by omega)
      rcases ih hfull' (by omega) h with h | h
      · refine (hpush h).imp_right fun hp => ⟨rect, List.mem_cons_self, ?_⟩
        exact EffectRect.within_of_expanded he hp
      · exact .inr (hlater h)
    · exact (ih hfull (by omega) h).imp_right hlater

theorem of_containsPoint_expandClampedXy (h : (region.expandClampedXy radiusX radiusY bounds).containsPoint p) :
    region.conservativeFull = true ∨ ∃ rect ∈ region.rects, ∃ q, rect.containsPoint q ∧ Within radiusX radiusY p q := by
  unfold expandClampedXy at h
  split at h
  · exact .inl ‹_›
  · rcases of_containsPoint_foldl_expandStep rfl (by rw [Nat.add_comm]; exact region.rects_le) h with h | h
    · rcases h with h | ⟨_, h, -⟩
      · cases h
      · cases h
    · exact .inr h

section intersection
variable {collected : EffectRegion} {pairs : List (EffectRect × EffectRect)} {count duplicates : ℕ}

theorem intersectPairs_covers (hclip : clip.containsPoint p)
    (h : collected.containsPoint p ∨ ∃ pair ∈ pairs, pair.1.containsPoint p ∧ pair.2.containsPoint p) :
    (intersectPairs clip count pairs collected duplicates).region.containsPoint p := by
  induction pairs generalizing collected duplicates with
  | nil => exact h.resolve_right (by simp)
  | cons pair pairs ih =>
    obtain ⟨left, right⟩ := pair
    -- a pixel of this pair lies in its intersection
    have hnext : collected.containsPoint p ∨ (∃ i, left.intersect right = some i ∧ i.containsPoint p) ∨
        ∃ pair ∈ pairs, pair.1.containsPoint p ∧ pair.2.containsPoint p := by
      rcases h with h | ⟨pair, hpair, h₁, h₂⟩
      · exact .inl h
      · rcases List.mem_cons.mp hpair with rfl | hpair
        · exact .inr (.inl (EffectRect.intersect_covers h₁ h₂))
        · exact .inr (.inr ⟨pair, hpair, h₁, h₂⟩)
    unfold intersectPairs
    split
    · rename_i hnone
      rw [hnone] at hnext
      exact ih (hnext.imp_right fun h => h.resolve_left (by rintro ⟨_, ⟨⟩, _⟩))
    · rename_i i hi
      rw [hi] at hnext
      have hsplit : (collected.containsPoint p ∨ i.containsPoint p) ∨
          ∃ pair ∈ pairs, pair.1.containsPoint p ∧ pair.2.containsPoint p := by
        rcases hnext with h | ⟨j, hj, h⟩ | h
        · exact .inl (.inl h)
        · cases hj
          exact .inl (.inr h)
        · exact .inr h
      split
      · rename_i hmem
        exact ih (hsplit.imp_left fun h => h.elim id fun h => .inr ⟨i, hmem, h⟩)
      split
      · exact hclip
      · refine ih (hsplit.imp_left ?_)
        rintro ((h | ⟨rect, hrect, h⟩) | h)
        · exact .inl h
        · exact .inr ⟨rect, List.mem_append_left _ hrect, h⟩
        · exact .inr ⟨i, List.mem_append_right _ List.mem_cons_self, h⟩

theorem intersectPairs_within (hcollected : collected.containsPoint p → clip.containsPoint p)
    (hpairs : ∀ pair ∈ pairs, pair.2 ∈ clip.rects)
    (h : (intersectPairs clip count pairs collected duplicates).region.containsPoint p) : clip.containsPoint p := by
  induction pairs generalizing collected duplicates with
  | nil => exact hcollected h
  | cons pair pairs ih =>
    obtain ⟨left, right⟩ := pair
    have hlater : ∀ pair ∈ pairs, pair.2 ∈ clip.rects := fun pair hpair => hpairs pair (List.mem_cons_of_mem _ hpair)
    unfold intersectPairs at h
    split at h
    · exact ih hcollected hlater h
    rename_i i hi
    split at h
    · exact ih hcollected hlater h
    split at h
    · exact h
    · refine ih ?_ hlater h
      rintro (h | ⟨rect, hrect, hp⟩)
      · exact hcollected (.inl h)
      · rcases List.mem_append.mp hrect with hold | hnew
        · exact hcollected (.inr ⟨rect, hold, hp⟩)
        · rw [List.mem_singleton] at hnew
          subst hnew
          exact .inr ⟨right, hpairs _ List.mem_cons_self, (EffectRect.containsPoint_intersect hi hp).2⟩

end intersection

theorem intersectBoundedWithin_covers (h : region.containsPoint p) (hclip : clip.containsPoint p) :
    (region.intersectBoundedWithinResult clip).region.containsPoint p := by
  unfold intersectBoundedWithinResult
  split
  · exact hclip
  split
  · exact h
  · rename_i hfull hclipFull
    obtain ⟨left, hleft, h⟩ := h.resolve_left hfull
    obtain ⟨right, hright, h'⟩ := hclip.resolve_left hclipFull
    exact intersectPairs_covers hclip (.inr ⟨(left, right), List.mem_product.mpr ⟨hleft, hright⟩, h, h'⟩)

theorem intersectBoundedWithin_within (h : (region.intersectBoundedWithinResult clip).region.containsPoint p) :
    clip.containsPoint p := by
  unfold intersectBoundedWithinResult at h
  split at h
  · exact h
  split at h
  · exact .inl ‹_›
  · refine intersectPairs_within ?_ (fun pair hpair => (List.mem_product.mp hpair).2) h
    rintro (h | ⟨_, h, -⟩)
    · cases h
    · cases h

end EffectRegion

theorem within_self {radiusX radiusY : U32} (p : ℤ × ℤ) : Within radiusX radiusY p p := by
  simp [Within]

theorem within_saturatingAdd {bounds r : EffectRect} {p u v : ℤ × ℤ} {radiusX radiusY outsetX outsetY : U32}
    (hp : bounds.containsPoint p) (hv : r.containsPoint v) (h : Within radiusX radiusY p u)
    (h' : Within outsetX outsetY u v) :
    Within (radiusX.saturatingAdd outsetX) (radiusY.saturatingAdd outsetY) p v := by
  have hbounds := And.intro bounds.x.2.1 bounds.y.2.1
  have hr := And.intro r.x.2.1 r.y.2.1
  have hright := And.intro bounds.right_le r.right_le
  have hbottom := And.intro bounds.bottom_le r.bottom_le
  simp only [EffectRect.containsPoint, EffectRect.right, EffectRect.bottom] at hp hv
  simp only [Within, abs_le, U32.saturatingAdd] at h h' ⊢
  push_cast
  omega

theorem plan_damage_conservative (footprint : EffectFootprint) (visibleRegion sourceDamage : EffectRegion)
    (outputBounds : EffectRect) : let influence := effectOutputInfluenceRegion footprint visibleRegion outputBounds
    let plan := planEffectDamage footprint visibleRegion sourceDamage outputBounds
    (∀ p q, outputBounds.containsPoint p → influence.containsPoint p → sourceDamage.containsPoint q →
      Within footprint.sampleRadiusX footprint.sampleRadiusY p q → plan.outputDamage.containsPoint p) ∧
    (∀ p, plan.outputDamage.containsPoint p → influence.containsPoint p) ∧
    ∀ p u, outputBounds.containsPoint p → influence.containsPoint u →
      Within footprint.sampleRadiusX footprint.sampleRadiusY p u → plan.captureRegion.containsPoint p := by
  refine ⟨fun p q hp hinfluence hq hwithin => ?_, fun p hp => ?_, fun p u hp hu hwithin => ?_⟩
  · exact EffectRegion.intersectBoundedWithin_covers
      (EffectRegion.containsPoint_expandClampedXy hp hq hwithin) hinfluence
  · exact EffectRegion.intersectBoundedWithin_within hp
  · rcases EffectRegion.of_containsPoint_expandClampedXy hu with hfull | ⟨rect, hrect, v, hv, houtset⟩
    · exact EffectRegion.containsPoint_expandClampedXy hp (.inl hfull) (within_self p)
    · exact EffectRegion.containsPoint_expandClampedXy hp (.inr ⟨rect, hrect, hv⟩)
        (within_saturatingAdd hp hv hwithin houtset)

end Typhon.Effects
