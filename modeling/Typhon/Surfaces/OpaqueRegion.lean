import Typhon.Foundation.Word
import Typhon.Pointer.ConstraintRegion

/-! The opaque region of a surface. The client's region operations are folded into rectangles clipped to the surface;
the renderer skips what lies below their union. The `i64` arithmetic is on sums of 32-bit numbers and is exact. -/

namespace Typhon.Surfaces
open Foundation Typhon.Pointer

structure SurfaceOpaqueRect where
  x : I32
  y : I32
  width : U32
  height : U32
  deriving DecidableEq

inductive SurfaceOpaqueRegion where
  | none
  | full
  | partialRects (rects : List SurfaceOpaqueRect)
  deriving DecidableEq

namespace SurfaceOpaqueRect

def new (x y : I32) (width height : U32) : Option SurfaceOpaqueRect :=
  if width.val = 0 ∨ height.val = 0 then none else some ⟨x, y, width, height⟩

def right (r : SurfaceOpaqueRect) : ℤ := r.x.val + r.width.val

def bottom (r : SurfaceOpaqueRect) : ℤ := r.y.val + r.height.val

def tryI32 (z : ℤ) : Option I32 :=
  if h : -2147483648 ≤ z ∧ z ≤ 2147483647 then some ⟨z, h⟩ else none

def tryU32 (z : ℤ) : Option U32 :=
  if h : 0 ≤ z ∧ z.toNat ≤ 4294967295 then some ⟨z.toNat, h.2⟩ else none

def ofEdges (left top right bottom : ℤ) : Option SurfaceOpaqueRect := do
  let width ← tryU32 (right - left)
  let height ← tryU32 (bottom - top)
  new (← tryI32 left) (← tryI32 top) width height

end SurfaceOpaqueRect

open SurfaceOpaqueRect

def clipOpaqueRegionRect (rect : InputRegionRect) (surfaceWidth surfaceHeight : U32) : Option SurfaceOpaqueRect :=
  ofEdges (max rect.x 0) (max rect.y 0) (min (rect.x + rect.width) surfaceWidth.val)
    (min (rect.y + rect.height) surfaceHeight.val)

def pushOpaqueRect (pieces : List SurfaceOpaqueRect) (left top right bottom : ℤ) : List SurfaceOpaqueRect :=
  if right ≤ left ∨ bottom ≤ top then pieces else pieces ++ (ofEdges left top right bottom).toList

def subtractOpaqueRect (source excluded : SurfaceOpaqueRect) : List SurfaceOpaqueRect :=
  let left := max source.x.val excluded.x.val
  let top := max source.y.val excluded.y.val
  let right := min source.right excluded.right
  let bottom := min source.bottom excluded.bottom
  if right ≤ left ∨ bottom ≤ top then [source]
  else
    let pieces := pushOpaqueRect [] source.x.val source.y.val source.right top
    let pieces := pushOpaqueRect pieces source.x.val bottom source.right source.bottom
    let pieces := pushOpaqueRect pieces source.x.val top left bottom
    pushOpaqueRect pieces right top source.right bottom

def applyOpaqueOp (width height : U32) (rects : List SurfaceOpaqueRect) (op : InputRegionOp) : List SurfaceOpaqueRect :=
  match clipOpaqueRegionRect op.rect width height with
  | none => rects
  | some rect =>
    match op with
    | .add _ => rects ++ [rect]
    | .subtract _ => rects.flatMap fun existing => subtractOpaqueRect existing rect

def SurfaceOpaqueRegion.fromRects (rects : List SurfaceOpaqueRect) (surfaceWidth surfaceHeight : U32) :
    SurfaceOpaqueRegion :=
  match rects.filter fun rect => 0 < rect.width.val ∧ 0 < rect.height.val with
  | [] => .none
  | [rect] =>
    if rect.x.val ≤ 0 ∧ rect.y.val ≤ 0 ∧ (surfaceWidth.val : ℤ) ≤ rect.right ∧
      (surfaceHeight.val : ℤ) ≤ rect.bottom then .full
    else .partialRects [rect]
  | rects => .partialRects rects

def opaqueRegionForSurfaceSize (committed : SurfaceInputRegion) (width height : U32) : SurfaceOpaqueRegion :=
  match committed with
  | .default => .none
  | .custom ops => .fromRects (ops.foldl (applyOpaqueOp width height) []) width height

/-! ### What the operations mean -/

variable {p : ℤ × ℤ} {width height : U32} {rects : List SurfaceOpaqueRect} {ops : List InputRegionOp}

def Inside (left top right bottom : ℤ) (p : ℤ × ℤ) : Prop := left ≤ p.1 ∧ p.1 < right ∧ top ≤ p.2 ∧ p.2 < bottom

instance (left top right bottom : ℤ) (p : ℤ × ℤ) : Decidable (Inside left top right bottom p) :=
  inferInstanceAs (Decidable (_ ∧ _ ∧ _ ∧ _))

def OnSurface (width height : U32) : ℤ × ℤ → Prop := Inside 0 0 width.val height.val

def Covers (op : InputRegionOp) : ℤ × ℤ → Prop :=
  Inside op.rect.x op.rect.y (op.rect.x + op.rect.width) (op.rect.y + op.rect.height)

instance (op : InputRegionOp) (p : ℤ × ℤ) : Decidable (Covers op p) := inferInstanceAs (Decidable (Inside ..))

def Opaque (ops : List InputRegionOp) (p : ℤ × ℤ) : Prop :=
  ∃ rect, (ops.filter fun op => Covers op p).getLast? = some (.add rect)

def SurfaceOpaqueRect.Contains (r : SurfaceOpaqueRect) : ℤ × ℤ → Prop := Inside r.x.val r.y.val r.right r.bottom

def Union (rects : List SurfaceOpaqueRect) (p : ℤ × ℤ) : Prop := ∃ r ∈ rects, r.Contains p

def SurfaceOpaqueRegion.Contains (width height : U32) : SurfaceOpaqueRegion → ℤ × ℤ → Prop
  | .none, _ => False
  | .full, p => OnSurface width height p
  | .partialRects rects, p => Union rects p

def InRange (op : InputRegionOp) : Prop :=
  (-2147483648 ≤ op.rect.x ∧ op.rect.x ≤ 2147483647) ∧ (-2147483648 ≤ op.rect.y ∧ op.rect.y ≤ 2147483647) ∧
    op.rect.width ≤ 2147483647 ∧ op.rect.height ≤ 2147483647

instance (op : InputRegionOp) : Decidable (InRange op) := inferInstanceAs (Decidable (_ ∧ _))

def Small (width height : U32) : Prop := width.val ≤ 2147483647 ∧ height.val ≤ 2147483647

theorem opaque_snoc (op : InputRegionOp) :
    Opaque (ops ++ [op]) p ↔ if Covers op p then ∃ rect, op = .add rect else Opaque ops p := by
  unfold Opaque
  rw [List.filter_append]
  split_ifs with h
  · simp [h]
  · simp [h]

/-! ### Clipping and subtracting -/

variable {left top right bottom : ℤ}

theorem ofEdges_edges {r : SurfaceOpaqueRect} (h : ofEdges left top right bottom = some r) :
    r.x.val = left ∧ r.y.val = top ∧ r.right = right ∧ r.bottom = bottom := by
  simp only [ofEdges, Option.bind_eq_bind, Option.bind_eq_some_iff, tryU32, tryI32, Option.dite_none_right_eq_some, new,
    Option.ite_none_left_eq_some, Option.some.injEq] at h
  obtain ⟨w, ⟨hw, rfl⟩, v, ⟨hv, rfl⟩, x, ⟨hx, rfl⟩, y, ⟨hy, rfl⟩, -, rfl⟩ := h
  refine ⟨rfl, rfl, ?_, ?_⟩
  · simp only [SurfaceOpaqueRect.right]
    omega
  · simp only [SurfaceOpaqueRect.bottom]
    omega

theorem exists_ofEdges (left top right bottom : ℤ) (hx : left < right) (hy : top < bottom)
    (hw : right - left ≤ 4294967295) (hh : bottom - top ≤ 4294967295) (hleft : 0 ≤ left ∧ left ≤ 2147483647)
    (htop : 0 ≤ top ∧ top ≤ 2147483647) : ∃ r, ofEdges left top right bottom = some r := by
  have hempty : ¬((right - left).toNat = 0 ∨ (bottom - top).toNat = 0) := by omega
  simp only [ofEdges, tryU32, tryI32, new, Option.bind_eq_bind]
  rw [dif_pos (by omega), dif_pos (by omega), dif_pos (by omega), dif_pos (by omega)]
  simp only [Option.bind_some]
  rw [if_neg hempty]
  exact ⟨_, rfl⟩

theorem mem_push {pieces : List SurfaceOpaqueRect} {piece : SurfaceOpaqueRect}
    (h : piece ∈ pushOpaqueRect pieces left top right bottom) :
    piece ∈ pieces ∨ piece.x.val = left ∧ piece.y.val = top ∧ piece.right = right ∧ piece.bottom = bottom := by
  unfold pushOpaqueRect at h
  split_ifs at h
  · exact .inl h
  · exact (List.mem_append.mp h).imp_right fun h => ofEdges_edges (Option.mem_toList.mp h)

theorem union_push {pieces : List SurfaceOpaqueRect} (hx : 0 ≤ left ∧ right ≤ 2147483647)
    (hy : 0 ≤ top ∧ bottom ≤ 2147483647) (h : Union pieces p ∨ Inside left top right bottom p) :
    Union (pushOpaqueRect pieces left top right bottom) p := by
  unfold pushOpaqueRect
  rcases h with ⟨r, hr, hp⟩ | hp
  · split_ifs
    · exact ⟨r, hr, hp⟩
    · exact ⟨r, List.mem_append_left _ hr, hp⟩
  · have hp' := hp
    unfold Inside at hp'
    rw [if_neg (by omega)]
    obtain ⟨r, hr⟩ := exists_ofEdges left top right bottom (by omega) (by omega) (by omega)
      (by omega) (by omega) (by omega)
    refine ⟨r, List.mem_append_right _ (Option.mem_toList.mpr hr), ?_⟩
    obtain ⟨rfl, rfl, rfl, rfl⟩ := ofEdges_edges hr
    exact hp

theorem union_nil : ¬Union [] p := by
  rintro ⟨r, hr, -⟩
  cases hr

theorem mem_subtract {source excluded piece : SurfaceOpaqueRect} (h : piece ∈ subtractOpaqueRect source excluded) :
    (source.x.val ≤ piece.x.val ∧ piece.right ≤ source.right ∧ source.y.val ≤ piece.y.val ∧
      piece.bottom ≤ source.bottom) ∧ ∀ p, piece.Contains p → ¬excluded.Contains p := by
  unfold subtractOpaqueRect at h
  unfold SurfaceOpaqueRect.Contains Inside
  dsimp only at h
  split_ifs at h with hapart
  · rw [List.mem_singleton.mp h]
    exact ⟨by omega, fun p hp => by omega⟩
  · have h := (mem_push h).imp_left fun h => (mem_push h).imp_left fun h => (mem_push h).imp_left mem_push
    rcases h with (((h | h) | h) | h) | h
    · cases h
    all_goals exact ⟨by omega, fun p hp => by omega⟩

theorem union_subtract {source excluded : SurfaceOpaqueRect} (hx : 0 ≤ source.x.val ∧ source.right ≤ 2147483647)
    (hy : 0 ≤ source.y.val ∧ source.bottom ≤ 2147483647) (h : source.Contains p) (hnot : ¬excluded.Contains p) :
    Union (subtractOpaqueRect source excluded) p := by
  unfold subtractOpaqueRect
  dsimp only
  have h' := h
  unfold SurfaceOpaqueRect.Contains Inside at h' hnot
  split_ifs with hapart
  · exact ⟨source, List.mem_singleton_self _, h⟩
  -- the pixel is above, below, left or right of the excluded part
  refine union_push (by omega) (by omega) ?_
  rw [or_iff_not_imp_right]
  intro hright
  refine union_push (by omega) (by omega) ?_
  rw [or_iff_not_imp_right]
  intro hleft
  refine union_push (by omega) (by omega) ?_
  rw [or_iff_not_imp_right]
  intro hbelow
  refine union_push (by omega) (by omega) (.inr ?_)
  unfold Inside at hright hleft hbelow ⊢
  omega

theorem clip_some {rect : InputRegionRect} {r : SurfaceOpaqueRect}
    (h : clipOpaqueRegionRect rect width height = some r) :
    r.Contains p ↔ OnSurface width height p ∧ Inside rect.x rect.y (rect.x + rect.width) (rect.y + rect.height) p := by
  obtain ⟨hx, hy, hright, hbottom⟩ := ofEdges_edges h
  unfold SurfaceOpaqueRect.Contains OnSurface Inside
  omega

theorem clip_none {op : InputRegionOp} (hop : InRange op) (h : clipOpaqueRegionRect op.rect width height = none)
    (hp : OnSurface width height p) : ¬Covers op p := by
  intro hcovers
  unfold Covers OnSurface Inside at *
  have hw := width.property
  have hh := height.property
  obtain ⟨r, hr⟩ := exists_ofEdges (max op.rect.x 0) (max op.rect.y 0)
    (min (op.rect.x + op.rect.width) width.val) (min (op.rect.y + op.rect.height) height.val)
    (by omega) (by omega) (by omega) (by omega) (by have := hop.1; omega) (by have := hop.2.1; omega)
  exact Option.some_ne_none r (hr.symm.trans h)

/-! ### The fold -/

structure Folded (width height : U32) (ops : List InputRegionOp) (rects : List SurfaceOpaqueRect) : Prop where
  within : ∀ r ∈ rects, 0 ≤ r.x.val ∧ r.right ≤ width.val ∧ 0 ≤ r.y.val ∧ r.bottom ≤ height.val
  sound : ∀ p, Union rects p → OnSurface width height p ∧ Opaque ops p
  complete : Small width height → ∀ p, OnSurface width height p → Opaque ops p → Union rects p

theorem Folded.nil : Folded width height [] [] :=
  ⟨fun r hr => absurd hr List.not_mem_nil, fun p h => absurd h union_nil, fun _ p _ h => absurd h (by simp [Opaque])⟩

theorem Folded.step {op : InputRegionOp} (h : Folded width height ops rects) (hop : InRange op) :
    Folded width height (ops ++ [op]) (applyOpaqueOp width height rects op) := by
  unfold applyOpaqueOp
  cases hclip : clipOpaqueRegionRect op.rect width height with
  | none =>
    -- an operation outside the surface changes no pixel of it
    refine ⟨h.within, fun p hp => ?_, fun hsmall p hp hlast => ?_⟩
    · have hon := h.sound p hp
      rw [opaque_snoc, if_neg (clip_none hop hclip hon.1)]
      exact hon
    · rw [opaque_snoc, if_neg (clip_none hop hclip hp)] at hlast
      exact h.complete hsmall p hp hlast
  | some r =>
    have hr : ∀ p, r.Contains p ↔ OnSurface width height p ∧ Covers op p := fun p => clip_some hclip
    obtain ⟨hx, hy, hright, hbottom⟩ := ofEdges_edges hclip
    cases op with
    | add rect =>
      have hunion : ∀ p, Union (rects ++ [r]) p ↔ Union rects p ∨ r.Contains p := by
        intro p
        simp [Union, or_and_right, exists_or]
      refine ⟨fun s hs => ?_, fun p hp => ?_, fun hsmall p hp hlast => ?_⟩
      · rcases List.mem_append.mp hs with hs | hs
        · exact h.within s hs
        · rw [List.mem_singleton.mp hs]
          omega
      · rw [opaque_snoc]
        rcases (hunion p).mp hp with hp | hp
        · obtain ⟨hon, hlast⟩ := h.sound p hp
          refine ⟨hon, ?_⟩
          split_ifs
          · exact ⟨rect, rfl⟩
          · exact hlast
        · rw [if_pos ((hr p).mp hp).2]
          exact ⟨((hr p).mp hp).1, rect, rfl⟩
      · refine (hunion p).mpr ?_
        rw [opaque_snoc] at hlast
        split_ifs at hlast with hcovers
        · exact .inr ((hr p).mpr ⟨hp, hcovers⟩)
        · exact .inl (h.complete hsmall p hp hlast)
    | subtract rect =>
      have hunion : ∀ p, Union (rects.flatMap fun s => subtractOpaqueRect s r) p ↔
          ∃ s ∈ rects, Union (subtractOpaqueRect s r) p := by
        intro p
        simp only [Union, List.mem_flatMap]
        constructor
        · rintro ⟨piece, ⟨s, hs, hpiece⟩, hp⟩
          exact ⟨s, hs, piece, hpiece, hp⟩
        · rintro ⟨s, hs, piece, hpiece, hp⟩
          exact ⟨piece, ⟨s, hs, hpiece⟩, hp⟩
      refine ⟨fun piece hpiece => ?_, fun p hp => ?_, fun hsmall p hp hlast => ?_⟩
      · obtain ⟨s, hs, hpiece⟩ := List.mem_flatMap.mp hpiece
        have hs := h.within s hs
        have hpiece := (mem_subtract hpiece).1
        omega
      · obtain ⟨s, hs, piece, hpiece, hp⟩ := (hunion p).mp hp
        obtain ⟨hwithin, hnot⟩ := mem_subtract hpiece
        have hp' : s.Contains p := by
          unfold SurfaceOpaqueRect.Contains Inside at hp ⊢
          omega
        obtain ⟨hon, hlast⟩ := h.sound p ⟨s, hs, hp'⟩
        rw [opaque_snoc, if_neg fun hcovers => hnot p hp ((hr p).mpr ⟨hon, hcovers⟩)]
        exact ⟨hon, hlast⟩
      · refine (hunion p).mpr ?_
        rw [opaque_snoc] at hlast
        split_ifs at hlast with hcovers
        · obtain ⟨rect', heq⟩ := hlast
          cases heq
        · obtain ⟨s, hs, hp'⟩ := h.complete hsmall p hp hlast
          have hwithin := h.within s hs
          unfold Small at hsmall
          exact ⟨s, hs, union_subtract (by omega) (by omega) hp' fun hc => hcovers ((hr p).mp hc).2⟩

theorem Folded.foldl (hops : ∀ op ∈ ops, InRange op) :
    Folded width height ops (ops.foldl (applyOpaqueOp width height) []) := by
  induction ops using List.reverseRecOn with
  | nil => exact .nil
  | append_singleton ops op ih =>
    rw [List.foldl_append]
    exact (ih fun op hop => hops op (List.mem_append_left _ hop)).step (hops op (by simp))

theorem union_filter : Union (rects.filter fun r => 0 < r.width.val ∧ 0 < r.height.val) p ↔ Union rects p := by
  constructor
  · rintro ⟨r, hr, hp⟩
    exact ⟨r, (List.mem_filter.mp hr).1, hp⟩
  · rintro ⟨r, hr, hp⟩
    refine ⟨r, List.mem_filter.mpr ⟨hr, ?_⟩, hp⟩
    unfold SurfaceOpaqueRect.Contains Inside SurfaceOpaqueRect.right SurfaceOpaqueRect.bottom at hp
    exact decide_eq_true ⟨by omega, by omega⟩

theorem contains_fromRects (hon : ∀ p, Union rects p → OnSurface width height p) :
    (SurfaceOpaqueRegion.fromRects rects width height).Contains width height p ↔ Union rects p := by
  rw [← union_filter]
  have hon' := fun p hp => hon p (union_filter.mp hp)
  unfold SurfaceOpaqueRegion.fromRects
  generalize (rects.filter fun r => 0 < r.width.val ∧ 0 < r.height.val) = kept at hon' ⊢
  rcases kept with - | ⟨r, - | ⟨s, kept⟩⟩
  · exact ⟨False.elim, union_nil⟩
  · dsimp only
    split_ifs with hfull
    · refine ⟨fun hp => ⟨r, List.mem_singleton_self r, ?_⟩, hon' p⟩
      unfold SurfaceOpaqueRegion.Contains OnSurface Inside at hp
      unfold SurfaceOpaqueRect.Contains Inside
      omega
    · exact Iff.rfl
  · exact Iff.rfl

/-- What the renderer is given is opaque; on a surface no larger than `i32::MAX` it is all that is opaque. -/
theorem opaque_region_exact (ops : List InputRegionOp) (width height : U32) (hops : ∀ op ∈ ops, InRange op) :
    (∀ p, (opaqueRegionForSurfaceSize (.custom ops) width height).Contains width height p →
      OnSurface width height p ∧ Opaque ops p) ∧
    (opaqueRegionForSurfaceSize (.custom ops) width height = .full → ∀ p, OnSurface width height p → Opaque ops p) ∧
    (width.val ≤ 2147483647 → height.val ≤ 2147483647 →
      (∀ p, (opaqueRegionForSurfaceSize (.custom ops) width height).Contains width height p ↔
        OnSurface width height p ∧ Opaque ops p) ∧
      (opaqueRegionForSurfaceSize (.custom ops) width height = .none →
        ∀ p, ¬(OnSurface width height p ∧ Opaque ops p))) := by
  have hfold : Folded width height ops (ops.foldl (applyOpaqueOp width height) []) := .foldl hops
  have hmeans : ∀ p, (opaqueRegionForSurfaceSize (.custom ops) width height).Contains width height p ↔
      Union (ops.foldl (applyOpaqueOp width height) []) p := fun p => contains_fromRects fun p hp =>
        (hfold.sound p hp).1
  refine ⟨fun p hp => hfold.sound p ((hmeans p).mp hp), fun hfull p hp => ?_, fun hw hh => ?_⟩
  · refine (hfold.sound p ((hmeans p).mp ?_)).2
    rw [hfull]
    exact hp
  · have hiff : ∀ p, (opaqueRegionForSurfaceSize (.custom ops) width height).Contains width height p ↔
        OnSurface width height p ∧ Opaque ops p := fun p => (hmeans p).trans
      ⟨hfold.sound p, fun h => hfold.complete ⟨hw, hh⟩ p h.1 h.2⟩
    refine ⟨hiff, fun hnone p hp => ?_⟩
    have := (hiff p).mpr hp
    rw [hnone] at this
    exact this

def ringOps : List InputRegionOp :=
  [.add ⟨-1, -1, 5, 5, by decide, by decide⟩, .subtract ⟨1, 1, 1, 1, by decide, by decide⟩]

theorem opaque_region_exact_ring :
    (opaqueRegionForSurfaceSize (.custom ringOps) ⟨3, by decide⟩ ⟨3, by decide⟩).Contains ⟨3, by decide⟩ ⟨3, by decide⟩
      (0, 0) ∧
    ¬(opaqueRegionForSurfaceSize (.custom ringOps) ⟨3, by decide⟩ ⟨3, by decide⟩).Contains ⟨3, by decide⟩ ⟨3, by decide⟩
      (1, 1) := by
  have hiff := ((opaque_region_exact ringOps ⟨3, by decide⟩ ⟨3, by decide⟩ (by decide)).2.2 (by decide) (by decide)).1
  rw [hiff, hiff]
  simp [ringOps, OnSurface, Opaque, Covers, Inside, InputRegionOp.rect]

end Typhon.Surfaces
