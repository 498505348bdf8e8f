import Mathlib
import Typhon.Foundation.Segments

/-! The region of a pointer constraint: rectangles of a surface, built from the operations of the constraint and of
the input region, in a canonical form. All coordinates are sums of 32-bit numbers, which `i64` and `f64` hold. -/

namespace Typhon.Pointer
open Foundation

structure InputRegionRect where
  x : ℤ
  y : ℤ
  width : ℤ
  height : ℤ
  width_pos : 0 < width
  height_pos : 0 < height
  deriving DecidableEq

inductive InputRegionOp where
  | add (rect : InputRegionRect)
  | subtract (rect : InputRegionRect)
  deriving DecidableEq

def InputRegionOp.rect : InputRegionOp → InputRegionRect
  | add rect | subtract rect => rect

inductive SurfaceInputRegion where
  | default
  | custom (ops : List InputRegionOp)
  deriving DecidableEq

@[ext]
structure SurfaceRect where
  left : ℤ
  top : ℤ
  right : ℤ
  bottom : ℤ
  horizontal : left < right
  vertical : top < bottom

instance : DecidableEq SurfaceRect := fun _ _ => decidable_of_iff' _ SurfaceRect.ext_iff

namespace SurfaceRect

def new (left top right bottom : ℤ) : Option SurfaceRect :=
  if h : left < right ∧ top < bottom then some ⟨left, top, right, bottom, h.1, h.2⟩ else none

def fromInputRect (rect : InputRegionRect) : SurfaceRect where
  left := rect.x
  top := rect.y
  right := rect.x + rect.width
  bottom := rect.y + rect.height
  horizontal := Int.lt_add_of_pos_right _ rect.width_pos
  vertical := Int.lt_add_of_pos_right _ rect.height_pos

def full (width height : ℕ) : Option SurfaceRect := new 0 0 width height

def intersect (r other : SurfaceRect) : Option SurfaceRect :=
  new (max r.left other.left) (max r.top other.top) (min r.right other.right) (min r.bottom other.bottom)

def subtract (r excluded : SurfaceRect) : List SurfaceRect :=
  match r.intersect excluded with
  | none => [r]
  | some i =>
    (new r.left r.top r.right i.top).toList ++ (new r.left i.bottom r.right r.bottom).toList ++
      (new r.left i.top i.left i.bottom).toList ++ (new i.right i.top r.right i.bottom).toList

def keyLe (r s : SurfaceRect) : Prop :=
  toLex (r.top, toLex (r.left, toLex (r.bottom, r.right))) ≤ toLex (s.top, toLex (s.left, toLex (s.bottom, s.right)))

instance : DecidableRel keyLe := fun _ _ => inferInstanceAs (Decidable (_ ≤ _))

end SurfaceRect

structure SurfaceRectRegion where
  rects : List SurfaceRect
  deriving DecidableEq

abbrev SurfaceRectBand := Segment (List (Segment Unit))

def dedup : List ℤ → List ℤ
  | a :: b :: rest => if a = b then dedup (b :: rest) else a :: dedup (b :: rest)
  | rest => rest

namespace SurfaceRectRegion

def empty : SurfaceRectRegion := ⟨[]⟩

def full (width height : ℕ) : SurfaceRectRegion := ⟨(SurfaceRect.full width height).toList⟩

variable (region : SurfaceRectRegion)

def sortDeterministically : SurfaceRectRegion :=
  ⟨region.rects.insertionSort SurfaceRect.keyLe⟩

def add (rect : SurfaceRect) : SurfaceRectRegion :=
  let pieces := region.rects.foldl (fun pieces existing => pieces.flatMap (·.subtract existing)) [rect]
  sortDeterministically ⟨region.rects ++ pieces⟩

def subtractRect (excluded : SurfaceRect) : SurfaceRectRegion :=
  sortDeterministically ⟨region.rects.flatMap (·.subtract excluded)⟩

def apply (bounds : Option SurfaceRect) (region : SurfaceRectRegion) (op : InputRegionOp) : SurfaceRectRegion :=
  match bounds.bind fun bounds => (SurfaceRect.fromInputRect op.rect).intersect bounds with
  | none => region
  | some rect =>
    match op with
    | .add _ => region.add rect
    | .subtract _ => region.subtractRect rect

def fromSurfaceInputRegion (input : SurfaceInputRegion) (width height : ℕ) : SurfaceRectRegion :=
  match input with
  | .default => full width height
  | .custom ops => ops.foldl (apply (SurfaceRect.full width height)) empty

def intersection (region other : SurfaceRectRegion) : SurfaceRectRegion :=
  sortDeterministically ⟨region.rects.flatMap fun left => other.rects.flatMap fun right =>
    (left.intersect right).toList⟩

variable (rects : List SurfaceRect)

def intervals (top bottom : ℤ) : List (Segment Unit) :=
  (rects.filterMap fun rect => if rect.top ≤ top ∧ bottom ≤ rect.bottom then
      some ⟨rect.left, rect.right, rect.horizontal, ()⟩ else none).insertionSort
    fun a b => toLex (a.lo, a.hi) ≤ toLex (b.lo, b.hi)

def bandValue (top bottom : ℤ) : Option (List (Segment Unit)) :=
  if (intervals rects top bottom).isEmpty then none else some (Segment.merge (intervals rects top bottom))

def yEdges : List ℤ :=
  dedup ((rects.flatMap fun rect => [rect.top, rect.bottom]).insertionSort (· ≤ ·))

def bands : List SurfaceRectBand :=
  Segment.coalesce (Segment.cells (bandValue rects) (yEdges rects))

def bandRects (band : SurfaceRectBand) : List SurfaceRect :=
  band.value.map fun interval => ⟨interval.lo, band.lo, interval.hi, band.hi, interval.lt, band.lt⟩

def canonicalized : SurfaceRectRegion :=
  if region.rects.length ≤ 1 then region else ⟨(bands region.rects).flatMap bandRects⟩

end SurfaceRectRegion

structure OutputRect where
  x : ℤ
  y : ℤ
  width : ℤ
  height : ℤ
  deriving DecidableEq

def OutputRect.new (x y width height : ℤ) : Option OutputRect :=
  if width ≤ 0 ∨ height ≤ 0 then none else some ⟨x, y, width, height⟩

structure OutputRegion where
  rects : List OutputRect
  deriving DecidableEq

def SurfaceRectRegion.intoOutputRegion (region : SurfaceRectRegion) (origin : ℤ × ℤ) : Option OutputRegion :=
  let canonical := region.canonicalized
  if canonical.rects.isEmpty then none
  else
    some ⟨canonical.rects.filterMap fun rect =>
      OutputRect.new (origin.1 + rect.left) (origin.2 + rect.top) (rect.right - rect.left) (rect.bottom - rect.top)⟩

def resolvePointerConstraintOutputRegion (constraint input : SurfaceInputRegion) (width height : ℕ) (origin : ℤ × ℤ) :
    Option OutputRegion :=
  let constraint := SurfaceRectRegion.fromSurfaceInputRegion constraint width height
  let input := SurfaceRectRegion.fromSurfaceInputRegion input width height
  (constraint.intersection input).intoOutputRegion origin

/-! ### The pixels of a region -/

namespace SurfaceRect

structure Contains (r : SurfaceRect) (x y : ℤ) : Prop where
  left : r.left ≤ x
  right : x < r.right
  top : r.top ≤ y
  bottom : y < r.bottom

theorem contains_iff {r : SurfaceRect} {x y : ℤ} :
    r.Contains x y ↔ r.left ≤ x ∧ x < r.right ∧ r.top ≤ y ∧ y < r.bottom :=
  ⟨fun h => ⟨h.left, h.right, h.top, h.bottom⟩, fun h => ⟨h.1, h.2.1, h.2.2.1, h.2.2.2⟩⟩

def Apart (r s : SurfaceRect) : Prop := ∀ x y, r.Contains x y → ¬s.Contains x y

theorem Apart.symm {r s : SurfaceRect} (h : r.Apart s) : s.Apart r := fun x y hs hr => h x y hr hs

end SurfaceRect

def ContainedIn (rects : List SurfaceRect) (x y : ℤ) : Prop := ∃ r ∈ rects, r.Contains x y

section pixels
variable {r s : SurfaceRect} {rects rects' : List SurfaceRect} {x y : ℤ}

@[simp] theorem containedIn_nil : ¬ContainedIn [] x y := nofun

@[simp] theorem containedIn_singleton : ContainedIn [r] x y ↔ r.Contains x y := by
  simp [ContainedIn]

@[simp] theorem containedIn_append :
    ContainedIn (rects ++ rects') x y ↔ ContainedIn rects x y ∨ ContainedIn rects' x y := by
  simp only [ContainedIn, List.mem_append, or_and_right, exists_or]

theorem containedIn_flatMap {α : Type} {l : List α} {f : α → List SurfaceRect} :
    ContainedIn (l.flatMap f) x y ↔ ∃ a ∈ l, ContainedIn (f a) x y := by
  simp only [ContainedIn, List.mem_flatMap]
  constructor
  · rintro ⟨r, ⟨a, ha, hr⟩, hcontains⟩
    exact ⟨a, ha, r, hr, hcontains⟩
  · rintro ⟨a, ha, r, hr, hcontains⟩
    exact ⟨r, ⟨a, ha, hr⟩, hcontains⟩

theorem containedIn_new {left top right bottom : ℤ} :
    ContainedIn (SurfaceRect.new left top right bottom).toList x y ↔ left ≤ x ∧ x < right ∧ top ≤ y ∧ y < bottom := by
  unfold SurfaceRect.new
  split_ifs with h
  · rw [Option.toList_some, containedIn_singleton, SurfaceRect.contains_iff]
  · rw [Option.toList_none]
    refine ⟨nofun, fun hxy => absurd ⟨?_, ?_⟩ h⟩
    · omega
    · omega

theorem containedIn_intersect : ContainedIn (r.intersect s).toList x y ↔ r.Contains x y ∧ s.Contains x y := by
  rw [SurfaceRect.intersect, containedIn_new, SurfaceRect.contains_iff, SurfaceRect.contains_iff]
  omega

theorem eq_new {left top right bottom : ℤ} (h : SurfaceRect.new left top right bottom = some r) :
    r.left = left ∧ r.top = top ∧ r.right = right ∧ r.bottom = bottom := by
  unfold SurfaceRect.new at h
  split_ifs at h
  cases h
  exact ⟨rfl, rfl, rfl, rfl⟩

theorem pairwise_append_apart (h : rects.Pairwise SurfaceRect.Apart) (h' : rects'.Pairwise SurfaceRect.Apart)
    (hcross : ∀ x y, ContainedIn rects x y → ¬ContainedIn rects' x y) :
    (rects ++ rects').Pairwise SurfaceRect.Apart := by
  refine List.pairwise_append.mpr ⟨h, h', fun r hr s hs x y hrc hsc => ?_⟩
  exact hcross x y ⟨r, hr, hrc⟩ ⟨s, hs, hsc⟩

theorem pairwise_toList (o : Option SurfaceRect) : o.toList.Pairwise SurfaceRect.Apart := by
  cases o with
  | none => exact List.Pairwise.nil
  | some r => exact List.pairwise_singleton _ _

theorem subtract_spec (r excluded : SurfaceRect) :
    (∀ x y, ContainedIn (r.subtract excluded) x y ↔ r.Contains x y ∧ ¬excluded.Contains x y) ∧
      (r.subtract excluded).Pairwise SurfaceRect.Apart := by
  unfold SurfaceRect.subtract
  cases hi : r.intersect excluded with
  | none =>
    refine ⟨fun x y => ?_, List.pairwise_singleton _ _⟩
    have hnone : ¬(r.Contains x y ∧ excluded.Contains x y) := by
      rw [← containedIn_intersect, hi]
      exact containedIn_nil
    rw [containedIn_singleton]
    exact ⟨fun h => ⟨h, fun he => hnone ⟨h, he⟩⟩, And.left⟩
  | some i =>
    obtain ⟨hleft, htop, hright, hbottom⟩ := eq_new hi
    have hh := i.horizontal
    have hv := i.vertical
    dsimp only
    refine ⟨fun x y => ?_, ?_⟩
    · rw [containedIn_append, containedIn_append, containedIn_append, containedIn_new, containedIn_new,
        containedIn_new, containedIn_new, SurfaceRect.contains_iff, SurfaceRect.contains_iff]
      omega
    · refine pairwise_append_apart (pairwise_append_apart (pairwise_append_apart (pairwise_toList _)
        (pairwise_toList _) fun x y => ?_) (pairwise_toList _) fun x y => ?_) (pairwise_toList _) fun x y => ?_
      · rw [containedIn_new, containedIn_new]
        omega
      · rw [containedIn_append, containedIn_new, containedIn_new, containedIn_new]
        omega
      · rw [containedIn_append, containedIn_append, containedIn_new, containedIn_new, containedIn_new, containedIn_new]
        omega

theorem pairwise_flatMap_apart {f : SurfaceRect → List SurfaceRect} (h : rects.Pairwise SurfaceRect.Apart)
    (hf : ∀ r, (f r).Pairwise SurfaceRect.Apart) (hinside : ∀ r x y, ContainedIn (f r) x y → r.Contains x y) :
    (rects.flatMap f).Pairwise SurfaceRect.Apart := by
  induction rects with
  | nil => exact List.Pairwise.nil
  | cons r rects ih =>
    obtain ⟨hr, hrects⟩ := List.pairwise_cons.mp h
    rw [List.flatMap_cons]
    refine pairwise_append_apart (hf r) (ih hrects) fun x y hx hrest => ?_
    obtain ⟨s, hs, hsx⟩ := containedIn_flatMap.mp hrest
    exact hr s hs x y (hinside r x y hx) (hinside s x y hsx)

theorem containedIn_perm (h : rects.Perm rects') : ContainedIn rects x y ↔ ContainedIn rects' x y := by
  simp only [ContainedIn, h.mem_iff]

end pixels

/-! ### The operations -/

namespace SurfaceRectRegion
variable {region other : SurfaceRectRegion} {x y : ℤ}

structure Holds (region : SurfaceRectRegion) (P : ℤ → ℤ → Prop) : Prop where
  apart : region.rects.Pairwise SurfaceRect.Apart
  pixels : ∀ x y, ContainedIn region.rects x y ↔ P x y

theorem Holds.congr {P Q : ℤ → ℤ → Prop} (h : region.Holds P) (hPQ : ∀ x y, P x y ↔ Q x y) : region.Holds Q :=
  ⟨h.apart, fun x y => (h.pixels x y).trans (hPQ x y)⟩

variable {P : ℤ → ℤ → Prop}

theorem Holds.sort (h : region.Holds P) : region.sortDeterministically.Holds P := by
  have hperm : (region.rects.insertionSort SurfaceRect.keyLe).Perm region.rects := List.perm_insertionSort _ _
  refine ⟨?_, fun x y => (containedIn_perm hperm).trans (h.pixels x y)⟩
  exact (hperm.pairwise_iff fun {r s} hrs => SurfaceRect.Apart.symm hrs).mpr h.apart

theorem foldl_subtract_spec {pieces : List SurfaceRect} (hpieces : pieces.Pairwise SurfaceRect.Apart)
    (existing : List SurfaceRect) :
    (∀ x y, ContainedIn (existing.foldl (fun pieces r => pieces.flatMap (·.subtract r)) pieces) x y ↔
      ContainedIn pieces x y ∧ ¬ContainedIn existing x y) ∧
      (existing.foldl (fun pieces r => pieces.flatMap (·.subtract r)) pieces).Pairwise SurfaceRect.Apart := by
  induction existing generalizing pieces with
  | nil => exact ⟨fun x y => by simp, hpieces⟩
  | cons r existing ih =>
    have hcut : (pieces.flatMap (·.subtract r)).Pairwise SurfaceRect.Apart :=
      pairwise_flatMap_apart hpieces (fun p => (subtract_spec p r).2) fun p x y h =>
        ((subtract_spec p r).1 x y).mp h |>.1
    obtain ⟨hpixels, hapart⟩ := ih hcut
    refine ⟨fun x y => ?_, hapart⟩
    rw [List.foldl_cons, hpixels, containedIn_flatMap]
    have hone : (∃ p ∈ pieces, ContainedIn (p.subtract r) x y) ↔ ContainedIn pieces x y ∧ ¬r.Contains x y := by
      constructor
      · rintro ⟨p, hp, hx⟩
        obtain ⟨hpx, hrx⟩ := ((subtract_spec p r).1 x y).mp hx
        exact ⟨⟨p, hp, hpx⟩, hrx⟩
      · rintro ⟨⟨p, hp, hpx⟩, hrx⟩
        exact ⟨p, hp, ((subtract_spec p r).1 x y).mpr ⟨hpx, hrx⟩⟩
    have hcons : ContainedIn (r :: existing) x y ↔ r.Contains x y ∨ ContainedIn existing x y := by
      simp only [ContainedIn, List.mem_cons, exists_eq_or_imp]
    rw [hone, hcons, not_or, and_assoc]

theorem Holds.add (h : region.Holds P) (rect : SurfaceRect) :
    (region.add rect).Holds fun x y => P x y ∨ rect.Contains x y := by
  obtain ⟨hpixels, hapart⟩ := foldl_subtract_spec (List.pairwise_singleton SurfaceRect.Apart rect) region.rects
  refine Holds.sort ⟨pairwise_append_apart h.apart hapart fun x y hx hpiece => ?_, fun x y => ?_⟩
  · exact ((hpixels x y).mp hpiece).2 hx
  · rw [containedIn_append, hpixels, containedIn_singleton, ← h.pixels]
    tauto

theorem Holds.subtractRect (h : region.Holds P) (excluded : SurfaceRect) :
    (region.subtractRect excluded).Holds fun x y => P x y ∧ ¬excluded.Contains x y := by
  refine Holds.sort ⟨pairwise_flatMap_apart h.apart (fun r => (subtract_spec r excluded).2) fun r x y hx => ?_,
    fun x y => ?_⟩
  · exact (((subtract_spec r excluded).1 x y).mp hx).1
  · rw [containedIn_flatMap, ← h.pixels]
    constructor
    · rintro ⟨r, hr, hx⟩
      obtain ⟨hrx, hex⟩ := ((subtract_spec r excluded).1 x y).mp hx
      exact ⟨⟨r, hr, hrx⟩, hex⟩
    · rintro ⟨⟨r, hr, hrx⟩, hex⟩
      exact ⟨r, hr, ((subtract_spec r excluded).1 x y).mpr ⟨hrx, hex⟩⟩

theorem Holds.intersection {P Q : ℤ → ℤ → Prop} (h : region.Holds P) (h' : other.Holds Q) :
    (region.intersection other).Holds fun x y => P x y ∧ Q x y := by
  have hinner : ∀ (r : SurfaceRect) x y, ContainedIn (other.rects.flatMap fun s => (r.intersect s).toList) x y ↔
      r.Contains x y ∧ ContainedIn other.rects x y := by
    intro r x y
    rw [containedIn_flatMap]
    constructor
    · rintro ⟨s, hs, hx⟩
      obtain ⟨hrx, hsx⟩ := containedIn_intersect.mp hx
      exact ⟨hrx, s, hs, hsx⟩
    · rintro ⟨hrx, s, hs, hsx⟩
      exact ⟨s, hs, containedIn_intersect.mpr ⟨hrx, hsx⟩⟩
  have hparts : ∀ r : SurfaceRect, (other.rects.flatMap fun s => (r.intersect s).toList).Pairwise SurfaceRect.Apart :=
    fun r => pairwise_flatMap_apart h'.apart (fun _ => pairwise_toList _) fun s x y hx =>
      (containedIn_intersect.mp hx).2
  refine Holds.sort ⟨pairwise_flatMap_apart h.apart hparts fun r x y hx => ((hinner r x y).mp hx).1, fun x y => ?_⟩
  rw [containedIn_flatMap, ← h.pixels, ← h'.pixels]
  constructor
  · rintro ⟨r, hr, hx⟩
    obtain ⟨hrx, hox⟩ := (hinner r x y).mp hx
    exact ⟨⟨r, hr, hrx⟩, hox⟩
  · rintro ⟨⟨r, hr, hrx⟩, hox⟩
    exact ⟨r, hr, (hinner r x y).mpr ⟨hrx, hox⟩⟩

end SurfaceRectRegion

/-! ### What the operations mean -/

namespace InputRegionOp

def Covers (op : InputRegionOp) (x y : ℤ) : Prop :=
  op.rect.x ≤ x ∧ x < op.rect.x + op.rect.width ∧ op.rect.y ≤ y ∧ y < op.rect.y + op.rect.height

instance (op : InputRegionOp) (x y : ℤ) : Decidable (op.Covers x y) := inferInstanceAs (Decidable (_ ∧ _))

def isAdd : InputRegionOp → Bool
  | add _ => true
  | subtract _ => false

end InputRegionOp

namespace SurfaceInputRegion

/-- The last operation that covers the pixel decides; the default region has every pixel. -/
def Contains : SurfaceInputRegion → ℤ → ℤ → Prop
  | default, _, _ => True
  | custom ops, x, y => (ops.reverse.find? fun op => decide (op.Covers x y)).any InputRegionOp.isAdd = true

end SurfaceInputRegion

def OnSurface (width height : ℕ) (x y : ℤ) : Prop := 0 ≤ x ∧ x < width ∧ 0 ≤ y ∧ y < height

namespace SurfaceRectRegion

variable {width height : ℕ}

theorem containedIn_full {x y : ℤ} :
    ContainedIn (SurfaceRect.full width height).toList x y ↔ OnSurface width height x y := containedIn_new

theorem holds_full (width height : ℕ) : (full width height).Holds (OnSurface width height) :=
  ⟨pairwise_toList _, fun _ _ => containedIn_full⟩

theorem clipped_contains {op : InputRegionOp} {x y : ℤ} :
    ContainedIn ((SurfaceRect.full width height).bind fun bounds =>
      (SurfaceRect.fromInputRect op.rect).intersect bounds).toList x y ↔ op.Covers x y ∧
        OnSurface width height x y := by
  cases hfull : SurfaceRect.full width height with
  | none =>
    have hnone : ¬OnSurface width height x y := by
      rw [← containedIn_full, hfull]
      exact containedIn_nil
    exact ⟨nofun, fun h => absurd h.2 hnone⟩
  | some bounds =>
    have hsome : bounds.Contains x y ↔ OnSurface width height x y := by
      rw [← containedIn_full, hfull]
      exact containedIn_singleton.symm
    rw [Option.bind_some, containedIn_intersect, hsome, SurfaceRect.contains_iff]
    rfl

theorem Holds.apply {P : ℤ → ℤ → Prop} {region : SurfaceRectRegion} (op : InputRegionOp)
    (h : region.Holds fun x y => P x y ∧ OnSurface width height x y) :
    (apply (SurfaceRect.full width height) region op).Holds fun x y =>
      (if op.Covers x y then op.isAdd = true else P x y) ∧ OnSurface width height x y := by
  have hclip : ∀ x y, ContainedIn ((SurfaceRect.full width height).bind fun bounds =>
      (SurfaceRect.fromInputRect op.rect).intersect bounds).toList x y ↔ op.Covers x y ∧ OnSurface width height x y :=
    fun x y => clipped_contains
  unfold SurfaceRectRegion.apply
  generalize ((SurfaceRect.full width height).bind fun bounds =>
    (SurfaceRect.fromInputRect op.rect).intersect bounds) = clipped at hclip
  cases clipped with
  | none =>
    refine h.congr fun x y => and_congr_left fun hon => ?_
    have hnot : ¬op.Covers x y := fun hc => (hclip x y).mpr ⟨hc, hon⟩ |> containedIn_nil
    rw [if_neg hnot]
  | some rect =>
    have hrect : ∀ x y, rect.Contains x y ↔ op.Covers x y ∧ OnSurface width height x y :=
      fun x y => containedIn_singleton.symm.trans (hclip x y)
    cases op with
    | add r =>
      refine (h.add rect).congr fun x y => ?_
      rw [hrect]
      by_cases hc : (InputRegionOp.add r).Covers x y
      · rw [if_pos hc]
        exact ⟨fun hx => ⟨rfl, hx.elim And.right And.right⟩, fun hx => .inr ⟨hc, hx.2⟩⟩
      · rw [if_neg hc]
        exact ⟨fun hx => hx.elim id fun hx => absurd hx.1 hc, .inl⟩
    | subtract r =>
      refine (h.subtractRect rect).congr fun x y => ?_
      rw [hrect]
      by_cases hc : (InputRegionOp.subtract r).Covers x y
      · rw [if_pos hc]
        exact ⟨fun hx => absurd ⟨hc, hx.1.2⟩ hx.2, fun hx => absurd hx.1 nofun⟩
      · rw [if_neg hc]
        exact ⟨And.left, fun hx => ⟨hx, fun hx' => hc hx'.1⟩⟩

theorem holds_fromSurfaceInputRegion (input : SurfaceInputRegion) (width height : ℕ) :
    (fromSurfaceInputRegion input width height).Holds fun x y => input.Contains x y ∧ OnSurface width height x y := by
  cases input with
  | default => exact (holds_full width height).congr fun x y => ⟨fun h => ⟨trivial, h⟩, And.right⟩
  | custom ops =>
    unfold fromSurfaceInputRegion
    -- the last operation is the last step of the loop
    induction ops using List.reverseRecOn with
    | nil => exact ⟨List.Pairwise.nil, fun x y => ⟨nofun, fun h => absurd h.1 nofun⟩⟩
    | append_singleton ops op ih =>
      dsimp only at ih ⊢
      rw [List.foldl_append]
      refine (Holds.apply op ih).congr fun x y => and_congr_left fun _ => ?_
      unfold SurfaceInputRegion.Contains
      dsimp only
      rw [List.reverse_append, List.reverse_singleton, List.singleton_append, List.find?_cons]
      by_cases hc : op.Covers x y
      · simp [hc]
      · simp [hc]

end SurfaceRectRegion

end Typhon.Pointer
