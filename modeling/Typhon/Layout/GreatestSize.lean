import Typhon.Layout.SizeSearch

/-! The size search returns the greatest legal size: the largest member that can be completed, and the largest
completion of it. Only a candidate at `u32::MAX` that is too small for the aspect keeps it from returning. -/

namespace Typhon.Layout
open Foundation LegalDimensionLattice LayoutConstraints

variable {ε : Type}

/-! ### The largest completion -/

section Largest
variable {l : LegalDimensionLattice} {legal goUp : ℕ → Bool} {L H : ℤ} {lower upper : ℕ}

theorem candidateLoop_endless (hlast : l.contains 4294967295 = true) (hlower : lower ≤ 4294967295)
    (hupper : 4294967295 ≤ upper) (hlegal : ¬legal 4294967295 = true) (hgoUp : goUp 4294967295 = true) (fuel : ℕ) :
    (candidateLoop l lower upper legal goUp fuel 4294967295 : Run ε _) = Run.diverge := by
  induction fuel with
  | zero => rfl
  | succ fuel ih =>
    have hnext : nextCandidate l goUp 4294967295 = some 4294967295 := by
      rw [nextCandidate, if_pos hgoUp]
      cases hup : l.alignUp (min (4294967295 + 1) 4294967295) with
      | none => exact absurd (alignUp_eq_none hup hlast) (by omega)
      | some next =>
        obtain ⟨hmem, hle, hleast⟩ := alignUp_eq_some hup
        have := hleast _ hlast (by omega)
        exact congrArg some (by omega)
    rw [candidateLoop, if_neg (by omega), if_neg hlegal, hnext]
    dsimp only
    rw [if_neg (by omega)]
    exact ih

theorem largestFrom_endless (hlast : l.contains 4294967295 = true) (hlower : lower ≤ 4294967295)
    (hupper : upper = 4294967295) (hlegal : ¬legal 4294967295 = true) (hgoUp : goUp 4294967295 = true) :
    (largestFrom l lower upper legal goUp : Run ε _) = Run.diverge := by
  unfold largestFrom
  cases hc : l.alignDown upper with
  | none => exact absurd (alignDown_eq_none hc hlast) (by omega)
  | some candidate =>
    obtain ⟨-, hle, hgreatest⟩ := alignDown_eq_some hc
    have := hgreatest _ hlast (by omega)
    obtain rfl : candidate = 4294967295 := by omega
    exact candidateLoop_endless hlast hlower (by omega) hlegal hgoUp _

end Largest

/-! ### Pairs -/

theorem Settles.unique {c : LayoutConstraints ℚ} {widths heights : LegalDimensionLattice} {r r' : Option (ℕ × ℕ)}
    (h : Settles c widths heights r) (h' : Settles c widths heights r') : r = r' := by
  cases r with
  | none =>
    cases r' with
    | none => rfl
    | some pair => exact absurd h'.1.2.2 (h _ _ h'.1.1 h'.1.2.1)
  | some pair =>
    cases r' with
    | none => exact absurd h.1.2.2 (h' _ _ h.1.1 h.1.2.1)
    | some pair' =>
      obtain ⟨h₁, h₂⟩ := h.2 _ _ h'.1.1 h'.1.2.1 h'.1.2.2
      obtain ⟨h₃, h₄⟩ := h'.2 _ _ h.1.1 h.1.2.1 h.1.2.2
      exact congrArg some (Prod.ext (Nat.le_antisymm h₃ h₁) (Nat.le_antisymm h₄ h₂))

section Orders
variable {c : LayoutConstraints ℚ} {widths heights : LegalDimensionLattice}

theorem clampInt_le (z : ℤ) : clampInt z ≤ 4294967295 := by
  unfold clampInt
  omega

variable (hordered : ∀ a b, c.minAspect = some a → c.maxAspect = some b → a ≤ b)
include hordered

theorem TooWide.not_tooTall {w h : ℕ} (hwide : TooWide c w h) : ¬TooTall c w h := by
  rintro ⟨a, ha, hlt⟩
  obtain ⟨b, hb, hgt⟩ := hwide
  exact absurd (hordered a b ha hb) (not_le.mpr (hgt.trans hlt))

theorem searchWidths_endless (hc : c.AspectsPositive) (hh : 1 ≤ heights.lower) (h : EndlessWidths c widths heights) :
    (searchWidths c widths heights 0 (widths.cardinality - 1) : Run ε (Option (ℕ × ℕ))) = Run.diverge := by
  obtain ⟨hlast, max, hmax, ⟨w, hw, hle⟩, w', hw', hlt⟩ := h
  refine (widths_balanced hc hh).endless hlast hw ?_ hw' ⟨max, hmax, by simpa using hlt⟩ (fun v hv hwide => ?_)
    fun v o => TooWide.not_tooTall hordered
  · rintro ⟨a, ha, hout⟩
    cases hmax.symm.trans ha
    exact absurd hle (not_le.mpr (by simpa using hout))
  rw [largestHeightForWidth_eq hh]
  have hupper := upper_of_last hlast
  refine largestFrom_endless hlast (max_le (hupper ▸ heights.lower_le) (clampInt_le _)) ?_
    (fun hlegal => (legal_iff_between.mp hlegal).1 hwide) (any_lt_iff.mpr hwide)
  -- the lower bound of the aspect leaves `u32::MAX` in the range
  have hfar : (4294967295 : ℤ) ≤ (c.minAspect.map fun a => ⌊(v : ℚ) / a⌋).getD 4294967295 := by
    cases hmin : c.minAspect with
    | none => exact le_rfl
    | some a =>
      obtain ⟨b, hb, hgt⟩ := hwide
      have := hordered a b hmin hb
      rw [lt_div_iff₀ (by norm_num)] at hgt
      rw [Option.map_some, Option.getD_some, Int.le_floor, le_div_iff₀ (hc.min a hmin)]
      push_cast at hgt ⊢
      nlinarith
  unfold clampInt
  omega

theorem searchHeights_endless (hw : 1 ≤ widths.lower) (hh : 1 ≤ heights.lower) (h : EndlessHeights c widths heights) :
    (searchHeights c heights widths 0 (heights.cardinality - 1) : Run ε (Option (ℕ × ℕ))) = Run.diverge := by
  obtain ⟨hlast, min, hmin, ⟨k, hk, hle⟩, k', hk', hlt⟩ := h
  have hsearch := (heights_balanced (ε := ε) hw hh).endless hlast hk (fun hout => ?_) hk'
    ⟨min, hmin, by simpa using hlt⟩ (fun v hv htall => ?_) fun v o htall hwide => hwide.not_tooTall hordered htall
  · rw [searchHeights, hsearch]
    rfl
  · obtain ⟨a, ha, hout⟩ := hout
    cases hmin.symm.trans ha
    exact absurd hle (not_le.mpr (by simpa using hout))
  rw [largestWidthForHeight_eq hw]
  have hupper := upper_of_last hlast
  refine largestFrom_endless hlast (max_le (hupper ▸ widths.lower_le) (clampInt_le _)) ?_
    (fun hlegal => (legal_iff_between.mp hlegal).2 htall) (any_gt_iff.mpr htall)
  have hfar : (4294967295 : ℤ) ≤ (c.maxAspect.map fun a => ⌊(v : ℚ) * a⌋).getD 4294967295 := by
    cases hmax : c.maxAspect with
    | none => exact le_rfl
    | some b =>
      obtain ⟨a, ha, hgt⟩ := htall
      have := hordered a b ha hmax
      have hpos : (0 : ℚ) < v := by exact_mod_cast hh.trans (contains_iff.mp hv).1
      rw [div_lt_iff₀ hpos] at hgt
      rw [Option.map_some, Option.getD_some, Int.le_floor]
      push_cast at hgt ⊢
      nlinarith
  unfold clampInt
  omega

end Orders

/-! ### Client rectangles -/

namespace LayoutConstraints
variable {c : LayoutConstraints ℚ} {tile : LayoutRect}

def LegalIn (c : LayoutConstraints ℚ) (tile : LayoutRect) (w h : ℕ) : Prop :=
  (∃ widths heights, (c.widthLattice = some widths ∧ c.heightLattice = some heights) ∧
    widths.contains w = true ∧ heights.contains h = true) ∧ (w ≤ tile.width.val ∧ h ≤ tile.height.val) ∧
  (∀ a, c.minAspect = some a → a ≤ (w : ℚ) / h) ∧ ∀ a, c.maxAspect = some a → (w : ℚ) / h ≤ a

def Endless (c : LayoutConstraints ℚ) (tile : LayoutRect) : Prop :=
  ∃ widths heights, tileLattices c tile = some (widths, heights) ∧
    if widths.cardinality ≤ heights.cardinality then EndlessWidths c widths heights else EndlessHeights c widths heights

def ResolvesGreatest (c : LayoutConstraints ℚ) (tile : LayoutRect) : Prop :=
  (∃ client, resolveClientRectWithinTile tile c = .ok client ∧
    c.LegalIn tile client.width.val client.height.val ∧
    (∀ w h, c.LegalIn tile w h → w ≤ client.width.val ∧ h ≤ client.height.val) ∧
    client.x = centred tile.x ((tile.width.val - client.width.val) / 2) ∧
    client.y = centred tile.y ((tile.height.val - client.height.val) / 2)) ∨
  (∀ w h, ¬c.LegalIn tile w h) ∧ resolveClientRectWithinTile tile c = .error (.error .infeasible)

theorem exactAspect_of_ne (hne : ∀ a, c.minAspect = some a → c.maxAspect ≠ some a) : c.exactAspect = none := by
  unfold exactAspect
  split
  · rename_i a b hmin hmax
    rw [if_neg]
    intro hsame
    obtain rfl : a = b := by simpa using hsame
    exact hne a hmin hmax
  · rfl

theorem ordered_of_validate (hv : c.validate = .ok ()) :
    ∀ a b, c.minAspect = some a → c.maxAspect = some b → a ≤ b := by
  intro a b hmin hmax
  unfold validate at hv
  split_ifs at hv with h₁ h₂ h₃ h₄ h₅ h₆ h₇
  rw [hmin, hmax] at h₇
  simpa [aspectsReversed] using h₇

theorem legalIn_iff {widths heights : LegalDimensionLattice} (hlat : tileLattices c tile = some (widths, heights))
    (w h : ℕ) : c.LegalIn tile w h ↔
      widths.contains w = true ∧ heights.contains h = true ∧ aspectIsLegal c w h = true := by
  obtain ⟨wl, hl, hw, hh, hwiff, hhiff⟩ := tileLattices_contains hlat
  rw [hwiff, hhiff, aspectIsLegal_iff]
  constructor
  · rintro ⟨⟨wl', hl', ⟨hw', hh'⟩, hmw, hmh⟩, ⟨hwle, hhle⟩, haspect⟩
    cases hw.symm.trans hw'
    cases hh.symm.trans hh'
    exact ⟨⟨hmw, hwle⟩, ⟨hmh, hhle⟩, haspect⟩
  · rintro ⟨⟨hmw, hwle⟩, ⟨hmh, hhle⟩, haspect⟩
    exact ⟨⟨wl, hl, ⟨hw, hh⟩, hmw, hmh⟩, ⟨hwle, hhle⟩, haspect⟩

theorem tileLattices_pos (hpos : c.MinimaPositive) {widths heights : LegalDimensionLattice}
    (hlat : tileLattices c tile = some (widths, heights)) : 1 ≤ widths.lower ∧ 1 ≤ heights.lower := by
  obtain ⟨w, l, hw, hl, hcw, hcl⟩ := tileLattices_eq_some hlat
  exact ⟨(hcw.pos hpos.width hw).1, (hcl.pos hpos.height hl).1⟩

variable (hv : c.validate = .ok ()) (hpos : c.MinimaPositive) (hne : ∀ a, c.minAspect = some a → c.maxAspect ≠ some a)
include hv hpos hne

theorem resolve_endless (h : c.Endless tile) : resolveClientRectWithinTile tile c = .error .diverge := by
  obtain ⟨widths, heights, hlat, hends⟩ := h
  obtain ⟨hwl, hhl⟩ := tileLattices_pos hpos hlat
  have hordered := ordered_of_validate hv
  have hsearch : (findBestLatticePairWithStats c widths heights : Run ClientRectError (Option (ℕ × ℕ))) =
      Run.diverge := by
    unfold findBestLatticePairWithStats
    split_ifs at hends ⊢
    · exact searchWidths_endless hordered (aspectsPositive_of_validate hv) hhl hends
    · exact searchHeights_endless hordered hwl hhl hends
  rw [resolveClientRectWithinTile, hv]
  dsimp only
  rw [hlat, Run.okOr_some, Run.ok_bind]
  dsimp only
  rw [findBestLatticePair, exactAspect_of_ne hne]
  dsimp only
  rw [hsearch]
  rfl

theorem resolve_greatest (h : ¬c.Endless tile) : c.ResolvesGreatest tile := by
  cases hlat : tileLattices c tile with
  | none =>
    refine .inr ⟨fun w k hlegal => ?_, ?_⟩
    · obtain ⟨⟨widths, heights, ⟨hw, hh⟩, hmw, hmh⟩, ⟨hwle, hhle⟩, -⟩ := hlegal
      simpa [hlat] using tileLattices_isSome hw hh hmw hmh hwle hhle
    · rw [resolveClientRectWithinTile, hv]
      dsimp only
      rw [hlat]
      rfl
  | some lattices =>
    obtain ⟨widths, heights⟩ := lattices
    obtain ⟨hwl, hhl⟩ := tileLattices_pos hpos hlat
    have hlegal := legalIn_iff hlat
    obtain ⟨r, hr, hsettles⟩ : ∃ r, (findBestLatticePairWithStats c widths heights :
        Run ClientRectError (Option (ℕ × ℕ))) = .ok r ∧ Settles c widths heights r := by
      -- the lattice with fewer members is the one searched
      have hends : ¬if widths.cardinality ≤ heights.cardinality then EndlessWidths c widths heights
          else EndlessHeights c widths heights := fun hends => h ⟨widths, heights, hlat, hends⟩
      unfold findBestLatticePairWithStats
      split_ifs at hends ⊢
      · exact searchWidths_settles (aspectsPositive_of_validate hv) hhl hends
      · exact searchHeights_settles hwl hhl hends
    have hbest : (findBestLatticePair c widths heights : Run ClientRectError (Option (ℕ × ℕ))) = .ok r := by
      rw [findBestLatticePair, exactAspect_of_ne hne]
      exact hr
    cases r with
    | none =>
      refine .inr ⟨fun w k hk => ?_, ?_⟩
      · obtain ⟨hw, hh, haspect⟩ := (hlegal w k).mp hk
        exact hsettles w k hw hh haspect
      · rw [resolveClientRectWithinTile, hv]
        dsimp only
        rw [hlat, Run.okOr_some, Run.ok_bind]
        dsimp only
        rw [hbest]
        rfl
    | some pair =>
      obtain ⟨w, k⟩ := pair
      obtain ⟨⟨hw, hh, haspect⟩, hgreatest⟩ := hsettles
      have hw' := contains_iff.mp hw
      have hh' := contains_iff.mp hh
      have hwu := widths.upper_le
      have hhu := heights.upper_le
      have hwval := toU32_val (hw'.2.1.trans hwu)
      have hhval := toU32_val (hh'.2.1.trans hhu)
      refine .inl ⟨⟨centred tile.x ((tile.width.val - w) / 2), centred tile.y ((tile.height.val - k) / 2), toU32 w,
        toU32 k, by omega, by omega⟩, ?_, ?_, fun w' k' hk' => ?_, ?_, ?_⟩
      · rw [resolveClientRectWithinTile, hv]
        dsimp only
        rw [hlat, Run.okOr_some, Run.ok_bind]
        dsimp only
        rw [hbest, Run.ok_bind, Run.okOr_some, Run.ok_bind]
        dsimp only
        rw [LayoutRect.new, dif_pos ⟨by omega, by omega⟩]
        rfl
      · dsimp only
        rw [hwval, hhval]
        exact (hlegal w k).mpr ⟨hw, hh, haspect⟩
      · dsimp only
        rw [hwval, hhval]
        obtain ⟨hw', hh', haspect'⟩ := (hlegal w' k').mp hk'
        exact hgreatest w' k' hw' hh' haspect'
      · dsimp only
        rw [hwval]
      · dsimp only
        rw [hhval]

end LayoutConstraints

theorem client_rect_greatest_iff {c : LayoutConstraints ℚ} {tile : LayoutRect} (hv : c.validate = .ok ())
    (hpos : c.MinimaPositive) (hne : ∀ a, c.minAspect = some a → c.maxAspect ≠ some a) :
    (c.ResolvesGreatest tile ↔ ¬c.Endless tile) ∧
    ∀ widths heights, tileLattices c tile = some (widths, heights) → ¬EndlessWidths c widths heights →
      ¬EndlessHeights c widths heights →
        (searchWidths c widths heights 0 (widths.cardinality - 1) : Run ClientRectError (Option (ℕ × ℕ))) =
          searchHeights c heights widths 0 (heights.cardinality - 1) := by
  refine ⟨⟨fun hresolves hends => ?_, resolve_greatest hv hpos hne⟩,
    fun widths heights hlat hwidths hheights => ?_⟩
  · have hdiverges := resolve_endless hv hpos hne hends
    rcases hresolves with ⟨client, hclient, -⟩ | ⟨-, hnone⟩
    · exact absurd (hdiverges.symm.trans hclient) nofun
    · exact absurd (hdiverges.symm.trans hnone) nofun
  · obtain ⟨hwl, hhl⟩ := tileLattices_pos hpos hlat
    obtain ⟨r, hr, hsettles⟩ :=
      searchWidths_settles (ε := ClientRectError) (aspectsPositive_of_validate hv) hhl hwidths
    obtain ⟨r', hr', hsettles'⟩ := searchHeights_settles (ε := ClientRectError) hwl hhl hheights
    rw [hr, hr', hsettles.unique hsettles']

def halfAspect : LayoutConstraints ℚ :=
  { unconstrained with maxAspect := some (1 / 2) }

def smallTile : LayoutRect :=
  rectOf 0 0 7 9

theorem client_rect_greatest_iff_half : halfAspect.ResolvesGreatest smallTile := by
  have hpos : halfAspect.MinimaPositive := ⟨fun m hm => absurd hm nofun, fun m hm => absurd hm nofun⟩
  refine (client_rect_greatest_iff (by decide +kernel) hpos fun a ha => absurd ha nofun).1.mpr ?_
  rintro ⟨widths, heights, hlat, hends⟩
  obtain ⟨w, l, -, -, hwiff, hliff⟩ := tileLattices_contains hlat
  -- no lattice of a small tile reaches `u32::MAX`
  split_ifs at hends
  · exact absurd ((hliff _).mp hends.1).2 (by decide)
  · exact absurd ((hwiff _).mp hends.1).2 (by decide)

def needleTile : LayoutRect :=
  rectOf 0 (-2147483648) 5 4294967295

def needle : LayoutConstraints ℚ :=
  { unconstrained with maxAspect := some (1 / 3000000000) }

theorem needle_search_endless :
    needle.LegalIn needleTile 1 4294967295 ∧ resolveClientRectWithinTile needleTile needle = .error .diverge := by
  have hlat : tileLattices needle needleTile =
      some (⟨1, 5, 1, 1, by decide, by decide, by decide, by decide, by decide⟩,
        ⟨1, 4294967295, 1, 1, by decide, by decide, by decide, by decide, by decide⟩) := by decide +kernel
  have hpos : needle.MinimaPositive := ⟨fun m hm => absurd hm nofun, fun m hm => absurd hm nofun⟩
  refine ⟨(legalIn_iff hlat _ _).mpr ⟨by decide, by decide, ?_⟩,
    resolve_endless (by decide +kernel) hpos (fun a ha => absurd ha nofun) ⟨_, _, hlat, ?_⟩⟩
  · refine aspectIsLegal_iff.mpr ⟨fun a ha => absurd ha nofun, fun a ha => ?_⟩
    cases ha
    norm_num
  · rw [if_pos (by decide)]
    exact ⟨by decide, _, rfl, ⟨1, by decide, by norm_num⟩, 5, by decide, by norm_num⟩

end Typhon.Layout
