import Typhon.Pointer.ConstraintRegion

/-! The canonical form of a region: the bands of rows with the same intervals, which the set of its pixels
determines. -/

namespace Typhon.Pointer
open Foundation

/-! ### The edges -/

theorem mem_dedup {z : ℤ} {l : List ℤ} : z ∈ dedup l ↔ z ∈ l := by
  induction l with
  | nil => exact Iff.rfl
  | cons a l ih =>
    cases l with
    | nil => exact Iff.rfl
    | cons b l =>
      rw [dedup]
      split_ifs with h
      · rw [ih, h, List.mem_cons, List.mem_cons, List.mem_cons]
        tauto
      · rw [List.mem_cons, ih]
        exact List.mem_cons.symm

theorem pairwise_dedup {l : List ℤ} (h : l.Pairwise (· ≤ ·)) : (dedup l).Pairwise (· < ·) := by
  induction l with
  | nil => exact List.Pairwise.nil
  | cons a l ih =>
    cases l with
    | nil => exact List.pairwise_singleton _ _
    | cons b l =>
      obtain ⟨ha, hb⟩ := List.pairwise_cons.mp h
      rw [dedup]
      split_ifs with heq
      · exact ih hb
      · have hab : a < b := lt_of_le_of_ne (ha b List.mem_cons_self) heq
        refine List.pairwise_cons.mpr ⟨fun z hz => ?_, ih hb⟩
        rcases List.mem_cons.mp (mem_dedup.mp hz) with rfl | hz
        · exact hab
        · exact hab.trans_le ((List.pairwise_cons.mp hb).1 z hz)

namespace SurfaceRectRegion
variable {rects : List SurfaceRect} {x y : ℤ}

theorem pairwise_yEdges (rects : List SurfaceRect) : (yEdges rects).Pairwise (· < ·) :=
  pairwise_dedup (List.pairwise_insertionSort _ _)

theorem mem_yEdges {z : ℤ} : z ∈ yEdges rects ↔ ∃ r ∈ rects, z = r.top ∨ z = r.bottom := by
  rw [yEdges, mem_dedup, List.mem_insertionSort, List.mem_flatMap]
  simp only [List.mem_cons, List.not_mem_nil, or_false]

/-! ### One row -/

theorem mem_intervals {top bottom : ℤ} {interval : Segment Unit} : interval ∈ intervals rects top bottom ↔
      ∃ r ∈ rects, (r.top ≤ top ∧ bottom ≤ r.bottom) ∧ interval.lo = r.left ∧ interval.hi = r.right := by
  rw [intervals, List.mem_insertionSort, List.mem_filterMap]
  refine exists_congr fun r => and_congr_right fun _ => ?_
  split_ifs with h
  · rw [Option.some.injEq]
    constructor
    · rintro rfl
      exact ⟨h, rfl, rfl⟩
    · rintro ⟨-, hlo, hhi⟩
      cases interval
      cases hlo
      cases hhi
      rfl
  · refine ⟨fun h' => ?_, fun h' => absurd h'.1 h⟩
    cases h'

theorem covered_intervals : Segment.Covered (intervals rects y (y + 1)) x ↔ ContainedIn rects x y := by
  constructor
  · rintro ⟨interval, hmem, hlo, hhi⟩
    obtain ⟨r, hr, hrows, hleft, hright⟩ := mem_intervals.mp hmem
    exact ⟨r, hr, hleft ▸ hlo, hright ▸ hhi, hrows.1, Int.lt_of_add_one_le hrows.2⟩
  · rintro ⟨r, hr, h⟩
    exact ⟨⟨r.left, r.right, r.horizontal, ()⟩, mem_intervals.mpr ⟨r, hr, ⟨h.top, h.bottom⟩, rfl, rfl⟩, h.left, h.right⟩

theorem pairwise_intervals (rects : List SurfaceRect) (top bottom : ℤ) :
    (intervals rects top bottom).Pairwise fun a b => a.lo ≤ b.lo := by
  have htotal : Std.Total fun a b : Segment Unit => toLex (a.lo, a.hi) ≤ toLex (b.lo, b.hi) :=
    ⟨fun a b => le_total (toLex (a.lo, a.hi)) (toLex (b.lo, b.hi))⟩
  have htrans : IsTrans (Segment Unit) fun a b => toLex (a.lo, a.hi) ≤ toLex (b.lo, b.hi) :=
    ⟨fun _ _ _ => le_trans⟩
  refine (List.pairwise_insertionSort _ _).imp fun {a b} h => ?_
  rcases Prod.Lex.toLex_le_toLex.mp h with hlt | ⟨heq, -⟩
  · exact hlt.le
  · exact heq.le

def RowIs (S : ℤ → ℤ → Prop) (y : ℤ) : Option (List (Segment Unit)) → Prop
  | none => ∀ x, ¬S x y
  | some row => row ≠ [] ∧ Segment.Normal row ∧ ∀ x, Segment.Covered row x ↔ S x y

theorem merge_ne_nil {a : List (Segment Unit)} (h : a ≠ []) : Segment.merge a ≠ [] := by
  cases a with
  | nil => exact absurd rfl h
  | cons s a =>
    obtain ⟨t, rest, heq, -⟩ := Segment.mergeFrom_head s a
    rw [Segment.merge, heq]
    exact List.cons_ne_nil t rest

theorem rowIs_bandValue (rects : List SurfaceRect) (y : ℤ) :
    RowIs (ContainedIn rects) y (bandValue rects y (y + 1)) := by
  unfold bandValue
  split_ifs with hempty
  · intro x hx
    obtain ⟨interval, hmem, -⟩ := covered_intervals.mpr hx
    rw [List.isEmpty_iff.mp hempty] at hmem
    exact absurd hmem nofun
  · obtain ⟨hnormal, hcovered⟩ := Segment.merge_spec (pairwise_intervals rects y (y + 1))
    exact ⟨merge_ne_nil fun h => hempty (List.isEmpty_iff.mpr h), hnormal,
      fun x => (hcovered x).trans covered_intervals⟩

/-! ### All rows -/

theorem bandValue_congr {top bottom top' bottom' : ℤ}
    (h : ∀ r ∈ rects, (r.top ≤ top ∧ bottom ≤ r.bottom) ↔ (r.top ≤ top' ∧ bottom' ≤ r.bottom)) :
    bandValue rects top bottom = bandValue rects top' bottom' := by
  have hintervals : intervals rects top bottom = intervals rects top' bottom' := by
    unfold intervals
    congr 1
    refine List.filterMap_congr fun r hr => ?_
    simp only [h r hr]
  rw [bandValue, bandValue, hintervals]

theorem bandValue_eq_none {y : ℤ} (h : ∀ r ∈ rects, ¬(r.top ≤ y ∧ y + 1 ≤ r.bottom)) :
    bandValue rects y (y + 1) = none := by
  have hnone : intervals rects y (y + 1) = [] := by
    rw [List.eq_nil_iff_forall_not_mem]
    intro interval hmem
    obtain ⟨r, hr, hrows, -⟩ := mem_intervals.mp hmem
    exact h r hr hrows
  rw [bandValue, hnone]
  rfl

theorem valueAt_cells_bandValue (rects : List SurfaceRect) (y : ℤ) :
    Segment.valueAt (Segment.cells (bandValue rects) (yEdges rects)) y = bandValue rects y (y + 1) := by
  have hedge : ∀ r ∈ rects, r.top ∈ yEdges rects ∧ r.bottom ∈ yEdges rects := fun r hr =>
    ⟨mem_yEdges.mpr ⟨r, hr, .inl rfl⟩, mem_yEdges.mpr ⟨r, hr, .inr rfl⟩⟩
  have hascending := pairwise_yEdges rects
  generalize yEdges rects = edges at hedge hascending
  cases edges with
  | nil => exact (bandValue_eq_none fun r hr => absurd (hedge r hr).1 nofun).symm
  | cons e edges =>
    rcases lt_or_ge y e with hy | hy
    · -- no rectangle begins before the first edge
      have hafter : ∀ r ∈ rects, e ≤ r.top := by
        intro r hr
        rcases List.mem_cons.mp (hedge r hr).1 with heq | hmem
        · exact heq.ge
        · exact ((List.pairwise_cons.mp hascending).1 _ hmem).le
      rw [bandValue_eq_none fun r hr hrows => absurd hrows.1 (not_le.mpr (hy.trans_le (hafter r hr)))]
      exact Segment.valueAt_of_lt fun s hs => hy.trans_le (Segment.cells_lo hascending s hs)
    · refine Segment.valueAt_cells (g := fun z => bandValue rects z (z + 1)) hascending
        (fun a b z _ _ hbetween ha hb => ?_) (fun z hall => ?_) hy
      · refine bandValue_congr fun r hr => ?_
        obtain ⟨htop, hbottom⟩ := hedge r hr
        rcases hbetween _ htop with h | h <;> rcases hbetween _ hbottom with h' | h' <;> omega
      · refine bandValue_eq_none fun r hr hrows => ?_
        have hle := hall _ (hedge r hr).2
        omega

structure Rows (S : ℤ → ℤ → Prop) (bands : List SurfaceRectBand) : Prop where
  normal : Segment.Normal bands
  row : ∀ y, RowIs S y (Segment.valueAt bands y)

theorem rows_bands (rects : List SurfaceRect) : Rows (ContainedIn rects) (bands rects) := by
  obtain ⟨hnormal, hvalue⟩ := Segment.coalesce_spec
    (Segment.ascending_cells (pairwise_yEdges rects) : Segment.Ascending (Segment.cells (bandValue rects) _))
  refine ⟨hnormal, fun y => ?_⟩
  rw [bands, hvalue, valueAt_cells_bandValue]
  exact rowIs_bandValue rects y

theorem RowIs.unique {S S' : ℤ → ℤ → Prop} {o o' : Option (List (Segment Unit))} (hS : ∀ x, S x y ↔ S' x y)
    (h : RowIs S y o) (h' : RowIs S' y o') : o = o' := by
  have hpixel : ∀ {row : List (Segment Unit)}, row ≠ [] → ∃ x, Segment.Covered row x := by
    intro row hne
    obtain ⟨s, rest, rfl⟩ := List.exists_cons_of_ne_nil hne
    exact ⟨s.lo, s, List.mem_cons_self, le_rfl, s.lt⟩
  cases o with
  | none =>
    cases o' with
    | none => rfl
    | some row =>
      obtain ⟨x, hx⟩ := hpixel h'.1
      exact absurd ((hS x).mpr ((h'.2.2 x).mp hx)) (h x)
  | some row =>
    cases o' with
    | none =>
      obtain ⟨x, hx⟩ := hpixel h.1
      exact absurd ((hS x).mp ((h.2.2 x).mp hx)) (h' x)
    | some row' =>
      rw [h.2.1.ext_covered h'.2.1 fun x => ((h.2.2 x).trans (hS x)).trans (h'.2.2 x).symm]

theorem Rows.unique {S S' : ℤ → ℤ → Prop} {b b' : List SurfaceRectBand} (hS : ∀ x y, S x y ↔ S' x y)
    (h : Rows S b) (h' : Rows S' b') : b = b' :=
  h.normal.ext h'.normal fun y => (h.row y).unique (fun x => hS x y) (h'.row y)

/-! ### The rectangles of the bands -/

theorem mem_bandRects {band : SurfaceRectBand} {r : SurfaceRect} : r ∈ bandRects band ↔
      ∃ s ∈ band.value, r = ⟨s.lo, band.lo, s.hi, band.hi, s.lt, band.lt⟩ := by
  rw [bandRects, List.mem_map]
  exact exists_congr fun s => and_congr_right fun _ => eq_comm

theorem Rows.containedIn {S : ℤ → ℤ → Prop} {b : List SurfaceRectBand} (h : Rows S b) :
    ContainedIn (b.flatMap bandRects) x y ↔ S x y := by
  have hrow := h.row y
  rw [containedIn_flatMap]
  constructor
  · rintro ⟨band, hband, r, hr, hx⟩
    obtain ⟨s, hs, rfl⟩ := mem_bandRects.mp hr
    rw [h.normal.valueAt_of_mem hband hx.top hx.bottom] at hrow
    exact (hrow.2.2 x).mp ⟨s, hs, hx.left, hx.right⟩
  · intro hx
    cases hvalue : Segment.valueAt b y with
    | none =>
      rw [hvalue] at hrow
      exact absurd hx (hrow x)
    | some row =>
      rw [hvalue] at hrow
      obtain ⟨band, hband, hlo, hhi, rfl⟩ := Segment.mem_of_valueAt hvalue
      obtain ⟨s, hs, hleft, hright⟩ := (hrow.2.2 x).mpr hx
      exact ⟨band, hband, _, mem_bandRects.mpr ⟨s, hs, rfl⟩, hleft, hright, hlo, hhi⟩

theorem Rows.apart {S : ℤ → ℤ → Prop} {b : List SurfaceRectBand} (h : Rows S b) :
    (b.flatMap bandRects).Pairwise SurfaceRect.Apart := by
  refine List.pairwise_flatMap.mpr ⟨fun band hband => ?_, h.normal.pairwise.imp fun {band band'} hbelow r hr s hs => ?_⟩
  · have hrow := h.row band.lo
    rw [h.normal.valueAt_of_mem hband le_rfl band.lt] at hrow
    refine List.pairwise_map.mpr (hrow.2.1.pairwise.imp fun {s t} hst x y hs ht => ?_)
    exact absurd (hs.right.trans_le (hst.trans ht.left)) (lt_irrefl x)
  · obtain ⟨s', -, rfl⟩ := mem_bandRects.mp hr
    obtain ⟨t', -, rfl⟩ := mem_bandRects.mp hs
    intro x y hr hs
    exact absurd (hr.bottom.trans_le (hbelow.trans hs.top)) (lt_irrefl y)

theorem canonicalized_rows (region : SurfaceRectRegion) :
    ∃ b, Rows (ContainedIn region.rects) b ∧ region.canonicalized.rects = b.flatMap bandRects := by
  unfold canonicalized
  split_ifs with hlength
  · obtain ⟨rects⟩ := region
    rcases rects with - | ⟨r, - | ⟨r', rest⟩⟩
    · exact ⟨[], ⟨trivial, fun y x => containedIn_nil⟩, rfl⟩
    · refine ⟨[⟨r.top, r.bottom, r.vertical, [⟨r.left, r.right, r.horizontal, ()⟩]⟩], ⟨trivial, fun y => ?_⟩, rfl⟩
      rw [Segment.valueAt]
      split_ifs with hy
      · refine ⟨List.cons_ne_nil _ _, trivial, fun x => ?_⟩
        rw [containedIn_singleton, SurfaceRect.contains_iff, Segment.covered_cons]
        rw [or_iff_left (show ¬Segment.Covered [] x by simp [Segment.Covered])]
        exact ⟨fun h => ⟨h.1, h.2, hy⟩, fun h => ⟨h.1, h.2.1⟩⟩
      · intro x hx
        exact hy ⟨(containedIn_singleton.mp hx).top, (containedIn_singleton.mp hx).bottom⟩
    · exact absurd hlength (by simp)
  · exact ⟨_, rows_bands region.rects, rfl⟩

theorem containedIn_canonicalized (region : SurfaceRectRegion) :
    ContainedIn region.canonicalized.rects x y ↔ ContainedIn region.rects x y := by
  obtain ⟨b, hrows, heq⟩ := region.canonicalized_rows
  rw [heq, hrows.containedIn]

/-- Two regions have the same canonical form exactly when they have the same pixels, and a canonical form is its own. -/
theorem canonicalized_eq_iff (region other : SurfaceRectRegion) : (region.canonicalized = other.canonicalized ↔
      ∀ x y, ContainedIn region.rects x y ↔ ContainedIn other.rects x y) ∧
    region.canonicalized.canonicalized = region.canonicalized := by
  have hcanonical : ∀ region other : SurfaceRectRegion,
      (∀ x y, ContainedIn region.rects x y ↔ ContainedIn other.rects x y) →
        region.canonicalized = other.canonicalized := by
    intro region other hsame
    obtain ⟨b, hb, heq⟩ := region.canonicalized_rows
    obtain ⟨b', hb', heq'⟩ := other.canonicalized_rows
    have hrects : region.canonicalized.rects = other.canonicalized.rects := by
      rw [heq, heq', hb.unique hsame hb']
    exact congrArg SurfaceRectRegion.mk hrects
  refine ⟨⟨fun h x y => ?_, hcanonical region other⟩, ?_⟩
  · rw [← containedIn_canonicalized region, h, containedIn_canonicalized]
  · exact hcanonical _ _ fun x y => containedIn_canonicalized region

end SurfaceRectRegion

/-! ### The resolved region -/

namespace OutputRect

def Contains (r : OutputRect) (x y : ℤ) : Prop := r.x ≤ x ∧ x < r.x + r.width ∧ r.y ≤ y ∧ y < r.y + r.height

def Apart (r s : OutputRect) : Prop := ∀ x y, r.Contains x y → ¬s.Contains x y

end OutputRect

def SurfaceRect.placed (origin : ℤ × ℤ) (r : SurfaceRect) : OutputRect :=
  ⟨origin.1 + r.left, origin.2 + r.top, r.right - r.left, r.bottom - r.top⟩

theorem SurfaceRect.contains_placed {origin : ℤ × ℤ} {r : SurfaceRect} {x y : ℤ} :
    (r.placed origin).Contains (origin.1 + x) (origin.2 + y) ↔ r.Contains x y := by
  rw [SurfaceRect.contains_iff, OutputRect.Contains, SurfaceRect.placed]
  dsimp only
  omega

theorem intoOutputRegion_eq (region : SurfaceRectRegion) (origin : ℤ × ℤ) :
    region.intoOutputRegion origin = if region.canonicalized.rects.isEmpty then none
      else some ⟨region.canonicalized.rects.map (·.placed origin)⟩ := by
  have hplaced : ∀ rect : SurfaceRect, OutputRect.new (origin.1 + rect.left) (origin.2 + rect.top)
      (rect.right - rect.left) (rect.bottom - rect.top) = some (rect.placed origin) := by
    intro rect
    have hh := rect.horizontal
    have hv := rect.vertical
    exact if_neg (by omega)
  rw [SurfaceRectRegion.intoOutputRegion]
  simp only [hplaced, List.filterMap_eq_map']

/-- A pixel of the surface is in the resolved region exactly when the constraint and the input region have it. -/
theorem resolved_region_exact (constraint input : SurfaceInputRegion) (width height : ℕ) (origin : ℤ × ℤ) :
    (∀ x y, (∃ region, resolvePointerConstraintOutputRegion constraint input width height origin = some region ∧
        ∃ r ∈ region.rects, r.Contains (origin.1 + x) (origin.2 + y)) ↔
      constraint.Contains x y ∧ input.Contains x y ∧ OnSurface width height x y) ∧
    ∀ region, resolvePointerConstraintOutputRegion constraint input width height origin = some region →
      region.rects.Pairwise OutputRect.Apart ∧ ∀ r ∈ region.rects, 0 < r.width ∧ 0 < r.height := by
  unfold resolvePointerConstraintOutputRegion
  dsimp only
  rw [intoOutputRegion_eq]
  have hholds := (SurfaceRectRegion.holds_fromSurfaceInputRegion constraint width height).intersection
    (SurfaceRectRegion.holds_fromSurfaceInputRegion input width height)
  generalize (SurfaceRectRegion.fromSurfaceInputRegion constraint width height).intersection
    (SurfaceRectRegion.fromSurfaceInputRegion input width height) = region at hholds
  obtain ⟨b, hrows, heq⟩ := region.canonicalized_rows
  have hpixel : ∀ x y, ContainedIn region.canonicalized.rects x y ↔
      constraint.Contains x y ∧ input.Contains x y ∧ OnSurface width height x y := by
    intro x y
    rw [SurfaceRectRegion.containedIn_canonicalized, hholds.pixels]
    tauto
  constructor
  · intro x y
    rw [← hpixel]
    constructor
    · rintro ⟨output, houtput, r, hr, hx⟩
      split_ifs at houtput with hempty
      cases houtput
      obtain ⟨rect, hrect, rfl⟩ := List.mem_map.mp hr
      exact ⟨rect, hrect, SurfaceRect.contains_placed.mp hx⟩
    · rintro ⟨rect, hrect, hx⟩
      have hne : ¬region.canonicalized.rects.isEmpty = true := by
        rw [List.isEmpty_iff]
        exact List.ne_nil_of_mem hrect
      rw [if_neg hne]
      exact ⟨_, rfl, _, List.mem_map.mpr ⟨rect, hrect, rfl⟩, SurfaceRect.contains_placed.mpr hx⟩
  · intro output houtput
    split_ifs at houtput with hempty
    cases houtput
    refine ⟨List.pairwise_map.mpr ?_, fun r hr => ?_⟩
    · rw [heq]
      refine hrows.apart.imp fun {r s} hrs x y hr hs => ?_
      have hx : x = origin.1 + (x - origin.1) := by omega
      have hy : y = origin.2 + (y - origin.2) := by omega
      rw [hx, hy, SurfaceRect.contains_placed] at hr hs
      exact hrs _ _ hr hs
    · obtain ⟨rect, -, rfl⟩ := List.mem_map.mp hr
      exact ⟨Int.sub_pos_of_lt rect.horizontal, Int.sub_pos_of_lt rect.vertical⟩

end Typhon.Pointer
