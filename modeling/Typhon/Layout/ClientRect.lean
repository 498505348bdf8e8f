import Typhon.Layout.LatticeSearch

/-! The size search only returns legal sizes, whatever the arithmetic on aspects does. -/

namespace Typhon.Layout
open Foundation LegalDimensionLattice

variable {F : Type} [Float64 F] {ε : Type}

variable {c : LayoutConstraints F}

theorem largestHeightForWidth_contains {heights : LegalDimensionLattice}
    {width v : ℕ} (h : (largestHeightForWidth c heights width : Run ε _) = .ok (some v)) :
    heights.contains v = true := by
  obtain ⟨lower, -, h⟩ := Run.bind_eq_ok.mp h
  obtain ⟨upper, -, h⟩ := Run.bind_eq_ok.mp h
  exact (largestFrom_sound h).1

theorem largestWidthForHeight_contains {widths : LegalDimensionLattice}
    {height v : ℕ} (h : (largestWidthForHeight c widths height : Run ε _) = .ok (some v)) :
    widths.contains v = true := by
  obtain ⟨lower, -, h⟩ := Run.bind_eq_ok.mp h
  obtain ⟨upper, -, h⟩ := Run.bind_eq_ok.mp h
  exact (largestFrom_sound h).1

variable {widths heights : LegalDimensionLattice}

theorem findBestLatticePair_contains {width height : ℕ}
    (h : (findBestLatticePair c widths heights : Run ε _) = .ok (some (width, height))) :
    widths.contains width = true ∧ heights.contains height = true := by
  unfold findBestLatticePair at h
  split at h
  · obtain ⟨k, -, -, -, hw, hh⟩ := largestExactAspectPair_sound h
    exact ⟨hw, hh⟩
  · unfold findBestLatticePairWithStats at h
    split_ifs at h
    · obtain ⟨hcompleted, hmem⟩ := searchLattice_completes h
      exact ⟨hmem, largestHeightForWidth_contains hcompleted⟩
    · obtain ⟨pair, hpair, h⟩ := Run.bind_eq_ok.mp h
      rw [Except.ok.injEq, Option.map_eq_some_iff] at h
      obtain ⟨⟨a, b⟩, rfl, hswap⟩ := h
      rw [Prod.swap, Prod.mk.injEq] at hswap
      obtain ⟨rfl, rfl⟩ := hswap
      obtain ⟨hcompleted, hmem⟩ := searchLattice_completes hpair
      exact ⟨largestWidthForHeight_contains hcompleted, hmem⟩

/-! ### The lattices of a tile -/

theorem toU32_val {n : ℕ} (h : n ≤ 4294967295) : (toU32 n).val = n := min_eq_left h

theorem new_eq_some {min max base increment : Option U32} (h : new min max base increment = some l) :
    l.lower = Max.max ((min.map Subtype.val).getD 1) ((base.map Subtype.val).getD 0) ∧
      l.upper = (max.getD ⟨4294967295, le_rfl⟩).val ∧ l.anchor = (base.map Subtype.val).getD l.lower ∧
      l.step = ((increment.filter fun step => 0 < step.val).getD (⟨1, by decide⟩ : U32)).val := by
  simp only [new, Option.dite_none_right_eq_some, Option.some.injEq] at h
  obtain ⟨_, rfl⟩ := h
  exact ⟨rfl, rfl, rfl, rfl⟩

theorem contains_tile_iff {min max base increment : Option U32} {l l' : LegalDimensionLattice}
    {limit lo hi v : ℕ} (hl : new min max base increment = some l)
    (hlo : l.alignUp l.lower = some lo) (hhi : l.alignDown limit = some hi)
    (hl' : new (some (toU32 lo)) (some (toU32 hi)) base increment = some l') :
    l'.contains v = true ↔ l.contains v = true ∧ v ≤ limit := by
  obtain ⟨hlower, -, hanchor, hstep⟩ := new_eq_some hl
  obtain ⟨hlower', hupper', hanchor', hstep'⟩ := new_eq_some hl'
  obtain ⟨hlomem, hlole, hleast⟩ := alignUp_eq_some hlo
  obtain ⟨himem, hilimit, hgreatest⟩ := alignDown_eq_some hhi
  obtain ⟨-, hloup, -⟩ := contains_iff.mp hlomem
  obtain ⟨-, hiup, -⟩ := contains_iff.mp himem
  have hanchorle := l.anchor_le
  simp only [Option.map_some, Option.getD_some, toU32_val (hloup.trans l.upper_le)] at hlower'
  simp only [Option.getD_some, toU32_val (hiup.trans l.upper_le)] at hupper'
  have hlo' : l'.lower = lo ∧ l'.anchor = l.anchor := by
    cases base with
    | none =>
      -- without a base the range starts on its own anchor
      simp only [Option.map_none, Option.getD_none] at hlower' hanchor hanchor'
      have hmem : l.contains l.lower = true :=
        contains_iff.mpr ⟨le_rfl, l.lower_le, 0, by omega⟩
      have := hleast _ hmem le_rfl
      omega
    | some b =>
      simp only [Option.map_some, Option.getD_some] at hlower' hanchor hanchor'
      omega
  rw [contains_iff, contains_iff, hlo'.1, hupper', hlo'.2,
    hstep', ← hstep]
  constructor
  · rintro ⟨h₁, h₂, hk⟩
    exact ⟨⟨by omega, by omega, hk⟩, by omega⟩
  · rintro ⟨⟨h₁, h₂, hk⟩, h₃⟩
    have hv : l.contains v = true := contains_iff.mpr ⟨h₁, h₂, hk⟩
    exact ⟨hleast v hv h₁, hgreatest v hv h₃, hk⟩

structure CutTo (base increment : Option U32) (limit : ℕ) (l l' : LegalDimensionLattice) : Prop where
  bounds : ∃ lo hi, l.alignUp l.lower = some lo ∧ l.alignDown limit = some hi ∧
    new (some (toU32 lo)) (some (toU32 hi)) base increment = some l'

omit [Float64 F] in
theorem tileLattices_eq_some {tile : LayoutRect} (h : tileLattices c tile = some (widths, heights)) :
    ∃ w l, c.widthLattice = some w ∧ c.heightLattice = some l ∧
      CutTo c.baseWidth c.widthIncrement tile.width.val w widths ∧
      CutTo c.baseHeight c.heightIncrement tile.height.val l heights := by
  obtain ⟨wmin, hwmin, h⟩ := Option.bind_eq_some_iff.mp h
  obtain ⟨hmin, hhmin, h⟩ := Option.bind_eq_some_iff.mp h
  obtain ⟨wmax, hwmax, h⟩ := Option.bind_eq_some_iff.mp h
  obtain ⟨hmax, hhmax, h⟩ := Option.bind_eq_some_iff.mp h
  obtain ⟨w', hw', h⟩ := Option.bind_eq_some_iff.mp h
  obtain ⟨h', hh', h⟩ := Option.bind_eq_some_iff.mp h
  rw [Option.some.injEq, Prod.mk.injEq] at h
  obtain ⟨rfl, rfl⟩ := h
  obtain ⟨w, hw, hwlo⟩ := Option.bind_eq_some_iff.mp hwmin
  obtain ⟨w₂, hw₂, hwhi⟩ := Option.bind_eq_some_iff.mp hwmax
  obtain ⟨l, hl, hllo⟩ := Option.bind_eq_some_iff.mp hhmin
  obtain ⟨l₂, hl₂, hlhi⟩ := Option.bind_eq_some_iff.mp hhmax
  obtain rfl : w = w₂ := Option.some.inj (hw.symm.trans hw₂)
  obtain rfl : l = l₂ := Option.some.inj (hl.symm.trans hl₂)
  exact ⟨w, l, hw, hl, ⟨_, _, hwlo, hwhi, hw'⟩, ⟨_, _, hllo, hlhi, hh'⟩⟩

omit [Float64 F] in
theorem tileLattices_contains {tile : LayoutRect} (h : tileLattices c tile = some (widths, heights)) :
    ∃ w h', c.widthLattice = some w ∧ c.heightLattice = some h' ∧
      (∀ v, widths.contains v = true ↔ w.contains v = true ∧ v ≤ tile.width.val) ∧
      ∀ v, heights.contains v = true ↔ h'.contains v = true ∧ v ≤ tile.height.val := by
  obtain ⟨w, l, hw, hl, ⟨wlo, whi, h₁, h₂, h₃⟩, ⟨hlo, hhi, h₄, h₅, h₆⟩⟩ := tileLattices_eq_some h
  exact ⟨w, l, hw, hl, fun v => contains_tile_iff hw h₁ h₂ h₃, fun v => contains_tile_iff hl h₄ h₅ h₆⟩

theorem resolveClientRect_sound {tile client : LayoutRect} (h : resolveClientRectWithinTile tile c = .ok client) :
    ∃ widths heights, c.widthLattice = some widths ∧ c.heightLattice = some heights ∧
      widths.contains client.width.val = true ∧ heights.contains client.height.val = true ∧
      client.width.val ≤ tile.width.val ∧ client.height.val ≤ tile.height.val ∧
      client.x = centred tile.x ((tile.width.val - client.width.val) / 2) ∧
      client.y = centred tile.y ((tile.height.val - client.height.val) / 2) := by
  unfold resolveClientRectWithinTile at h
  split at h
  · simp [Run.fail] at h
  obtain ⟨⟨widths, heights⟩, hlat, hrest⟩ := Run.bind_eq_ok.mp h
  obtain ⟨best, hbest, hrest⟩ := Run.bind_eq_ok.mp hrest
  obtain ⟨⟨width, height⟩, hpair, hclient⟩ := Run.bind_eq_ok.mp hrest
  rw [Run.okOr_eq_ok] at hlat hpair hclient
  obtain ⟨hw, hh⟩ := findBestLatticePair_contains (hpair ▸ hbest)
  obtain ⟨w, l, hwl, hll, hwiff, hliff⟩ := tileLattices_contains hlat
  obtain ⟨hwmem, hwle⟩ := (hwiff width).mp hw
  obtain ⟨hlmem, hlle⟩ := (hliff height).mp hh
  obtain ⟨hx, hy, hcw, hch⟩ := LayoutRect.new_eq_some.mp hclient
  have hwv : client.width.val = width := by rw [hcw, toU32_val (hwle.trans tile.width.property)]
  have hhv : client.height.val = height := by rw [hch, toU32_val (hlle.trans tile.height.property)]
  rw [hwv, hhv]
  exact ⟨w, l, hwl, hll, hwmem, hlmem, hwle, hlle, hx, hy⟩

end Typhon.Layout
