import Typhon.Output.SceneDamage

/-! The damage between two scenes covers every pixel in which they differ. -/

namespace Typhon.Output
open Foundation Layout NativeDamageRect NativeSceneSurfaceSnapshot

variable {p : ℤ × ℤ} {outputWidth outputHeight : U32}

def Covered (rects : List NativeDamageRect) (p : ℤ × ℤ) : Prop := ∃ r ∈ rects, r.containsPoint p

theorem covered_append {rects rects' : List NativeDamageRect} :
    Covered (rects ++ rects') p ↔ Covered rects p ∨ Covered rects' p := by
  simp only [Covered, List.mem_append, or_and_right, exists_or]

variable {rects : List NativeDamageRect}

theorem covered_cons {r : NativeDamageRect} : Covered (r :: rects) p ↔ r.containsPoint p ∨ Covered rects p := by
  simp [Covered]

theorem covered_flatMap {α : Type} {l : List α} {f : α → List NativeDamageRect} :
    Covered (l.flatMap f) p ↔ ∃ a ∈ l, Covered (f a) p := by
  simp only [Covered, List.mem_flatMap]
  constructor
  · rintro ⟨r, ⟨a, ha, hr⟩, hp⟩
    exact ⟨a, ha, r, hr, hp⟩
  · rintro ⟨a, ha, r, hr, hp⟩
    exact ⟨r, ⟨a, ha, hr⟩, hp⟩

theorem covered_perm {rects rects' : List NativeDamageRect} (h : rects.Perm rects') :
    Covered rects p ↔ Covered rects' p := by
  simp only [Covered, h.mem_iff]

/-! ### Coalescing

A union whose size is beyond `u32` still reaches the last coordinate an output can have. -/

def Addressed (p : ℤ × ℤ) : Prop := p.1 < 2147483647 ∧ p.2 < 2147483647

theorem lt_add_toU32OrMax {left x z : ℤ} (hleft : -2147483648 ≤ left) (hx : x < 2147483647)
    (h : x < z) : x < left + (toU32OrMax (z - left)).val := by
  unfold toU32OrMax
  split_ifs with hz
  · dsimp only
    omega
  · dsimp only
    omega

theorem containsPoint_union {r other : NativeDamageRect} (hp : Addressed p)
    (h : r.containsPoint p ∨ other.containsPoint p) : (r.union other).containsPoint p := by
  have hx := r.x.property
  have hx' := other.x.property
  have hy := r.y.property
  have hy' := other.y.property
  unfold containsPoint at h ⊢
  refine ⟨?_, lt_add_toU32OrMax ?_ hp.1 ?_, ?_, lt_add_toU32OrMax ?_ hp.2 ?_⟩ <;>
    simp only [union, left, top, I32.min_val] at h ⊢ <;> omega

theorem covered_absorb (hp : Addressed p) (pending : NativeDamageRect) (coalesced : List NativeDamageRect)
    (index : ℕ) (h : pending.containsPoint p ∨ Covered coalesced p) :
    Covered ((absorb pending coalesced index).1.toList ++ (absorb pending coalesced index).2) p := by
  fun_induction absorb pending coalesced index with
  | case1 pending coalesced index hlt existing union hmerge ih =>
    refine ih ?_
    have hperm : coalesced.Perm (existing :: swapRemove coalesced index) :=
      (List.getElem_cons_eraseIdx_perm hlt).symm.trans ((swapRemove_perm hlt).symm.cons _)
    rw [covered_perm hperm, covered_cons] at h
    obtain h | h | h := h
    · exact .inl (containsPoint_union hp (.inr h))
    · exact .inl (containsPoint_union hp (.inl h))
    · exact .inr h
  | case2 coalesced index hlt existing union hmerge =>
    exact h.elim (fun hr => ⟨existing, List.getElem_mem hlt, hr⟩) id
  | case3 pending coalesced index hlt existing union hmerge hne ih => exact ih h
  | case4 pending coalesced index hlt => exact covered_cons.mpr h

theorem covered_foldl {step : List NativeDamageRect → NativeDamageRect → List NativeDamageRect}
    (hstep : ∀ coalesced rect, rect.containsPoint p ∨ Covered coalesced p → Covered (step coalesced rect) p) :
    ∀ rects coalesced, Covered coalesced p ∨ Covered rects p → Covered (rects.foldl step coalesced) p := by
  intro rects
  induction rects with
  | nil =>
    rintro coalesced (h | ⟨r, hr, -⟩)
    · exact h
    · cases hr
  | cons rect rects ih =>
    intro coalesced h
    refine ih _ ?_
    rw [covered_cons] at h
    obtain h | h | h := h
    · exact .inl (hstep coalesced rect (.inr h))
    · exact .inl (hstep coalesced rect (.inl h))
    · exact .inr h

theorem covered_coalesce (hp : Addressed p) (h : Covered rects p) :
    Covered (coalesceNativeDamageRects rects) p := by
  refine covered_foldl (fun coalesced rect h => ?_) rects [] (.inr h)
  split_ifs with hzero
  · refine h.resolve_left fun hr => ?_
    unfold containsPoint right bottom at hr
    omega
  · have habsorb := covered_absorb hp rect coalesced 0 h
    generalize absorb rect coalesced 0 = result at habsorb ⊢
    obtain ⟨- | pending, left⟩ := result
    · exact habsorb
    · exact (covered_perm (List.perm_append_singleton pending left)).mpr habsorb

/-! ### Clipping and unions -/

structure InOutput (outputWidth outputHeight : U32) (p : ℤ × ℤ) : Prop where
  x : 0 ≤ p.1 ∧ p.1 < outputWidth.val
  y : 0 ≤ p.2 ∧ p.2 < outputHeight.val

structure Sized (outputWidth outputHeight : U32) : Prop where
  width : outputWidth.val ≤ 2147483647
  height : outputHeight.val ≤ 2147483647

theorem InOutput.addressed (h : InOutput outputWidth outputHeight p) (hsize : Sized outputWidth outputHeight) :
    Addressed p := by
  obtain ⟨hx, hy⟩ := h
  obtain ⟨hw, hh⟩ := hsize
  constructor <;> omega

theorem asI32_val {z : ℤ} (h : -2147483648 ≤ z ∧ z ≤ 2147483647) : (asI32 z).val = z := by
  simp only [asI32]
  omega

theorem asU32_val {z : ℤ} (h : 0 ≤ z ∧ z ≤ 4294967295) : ((asU32 z).val : ℤ) = z := by
  simp only [asU32]
  omega

theorem covered_clippedSceneRect {r : NativeDamageRect} (hp : InOutput outputWidth outputHeight p)
    (hsize : Sized outputWidth outputHeight) (h : r.containsPoint p) :
    Covered (clippedSceneRect outputWidth outputHeight (some r)) p := by
  obtain ⟨hx, hy⟩ := hp
  obtain ⟨hw, hh⟩ := hsize
  obtain ⟨hl, hr, ht, hb⟩ := h
  have hclip : ∀ a b n c : ℤ, a ≤ c → c < b → 0 ≤ c → c < n → n ≤ 2147483647 →
      0 ≤ max 0 (min a n) ∧ max 0 (min a n) ≤ c ∧ c < max 0 (min b n) ∧ max 0 (min b n) ≤ 2147483647 := by
    intro a b n c _ _ _ _ _
    omega
  obtain ⟨h₁, h₂, h₃, h₄⟩ := hclip _ _ _ _ hl hr hx.1 hx.2 (by omega)
  obtain ⟨h₅, h₆, h₇, h₈⟩ := hclip _ _ _ _ ht hb hy.1 hy.2 (by omega)
  have hsome : r.clippedToOutput outputWidth outputHeight = some _ := if_pos ⟨by omega, by omega⟩
  rw [clippedSceneRect, Option.bind_some, hsome]
  refine ⟨_, List.mem_singleton_self _, ?_⟩
  simp only [containsPoint, left, top, right,
    bottom] at *
  rw [asI32_val (by omega), asI32_val (by omega), asU32_val (by omega), asU32_val (by omega)]
  omega

theorem covered_surfaceDamage (hp : Addressed p) (h : Covered rects p) :
    Covered (NativeOutputDamage.surfaceDamage rects).rects p := by
  have hc := covered_coalesce hp h
  unfold NativeOutputDamage.surfaceDamage
  dsimp only
  split_ifs with hnil
  · rw [hnil] at hc
    exact hc
  · exact hc

theorem covered_unionSurfaceRects (hp : Addressed p) {damage : NativeOutputDamage} (rects : List NativeDamageRect)
    (h : Covered damage.rects p) : Covered (damage.unionSurfaceRects rects).rects p := by
  unfold NativeOutputDamage.unionSurfaceRects
  split_ifs
  · exact h
  · exact covered_coalesce hp (covered_append.mpr (.inl h))

theorem covered_fullOutput (hp : InOutput outputWidth outputHeight p) :
    Covered (NativeOutputDamage.fullOutput outputWidth outputHeight).rects p := by
  obtain ⟨hx, hy⟩ := hp
  rw [NativeOutputDamage.fullOutput, if_pos ⟨by omega, by omega⟩]
  refine ⟨_, List.mem_singleton_self _, ?_⟩
  simp only [containsPoint, left, top, right,
    bottom]
  omega

/-! ### Surfaces -/

def NativeSceneSurfaceSnapshot.covers (surface : NativeSceneSurfaceSnapshot) (p : ℤ × ℤ) : Bool :=
  surface.bounds.any fun r => decide (r.containsPoint p)

def stackAt (surfaces : List NativeSceneSurfaceSnapshot) (p : ℤ × ℤ) : List ℕ :=
  (surfaces.filter fun surface => surface.covers p).map surfaceId

def NativeSceneSurfaceSnapshot.ReportsAt (surface : NativeSceneSurfaceSnapshot) (p : ℤ × ℤ) : Prop :=
  match surface.damage with
  | .authoritativeEmpty => False
  | .known rects => ∃ r ∈ rects, r.containsPoint p
  | .historyLost => surface.covers p = true

theorem covered_clippedSceneRect_bounds {surface : NativeSceneSurfaceSnapshot}
    (hp : InOutput outputWidth outputHeight p) (hsize : Sized outputWidth outputHeight)
    (h : surface.covers p = true) : Covered (clippedSceneRect outputWidth outputHeight surface.bounds) p := by
  obtain ⟨r, hr, hin⟩ := (Option.any_eq_true _ _).mp h
  rw [hr]
  exact covered_clippedSceneRect hp hsize (of_decide_eq_true hin)

theorem covered_clippedSceneDamage {surface : NativeSceneSurfaceSnapshot}
    (hp : InOutput outputWidth outputHeight p) (hsize : Sized outputWidth outputHeight)
    (h : surface.ReportsAt p) : Covered (clippedSceneDamage outputWidth outputHeight surface) p := by
  unfold NativeSceneSurfaceSnapshot.ReportsAt at h
  unfold clippedSceneDamage
  cases hd : surface.damage with
  | authoritativeEmpty => simp [hd] at h
  | known rects =>
    simp only [hd] at h
    obtain ⟨r, hr, hin⟩ := h
    exact covered_flatMap.mpr ⟨r, hr, covered_clippedSceneRect hp hsize hin⟩
  | historyLost =>
    simp only [hd] at h
    exact covered_clippedSceneRect_bounds hp hsize h

section Surfaces
variable {previous current : List NativeSceneSurfaceSnapshot} {previousDecorations currentDecorations :
  List DecorationSceneSnapshot} {orders : ScanOrders} {surface surface' : NativeSceneSurfaceSnapshot} {id : ℕ}

def UniqueSurfaces (surfaces : List NativeSceneSurfaceSnapshot) : Prop :=
  (surfaces.map surfaceId).Nodup

theorem lookup_surfacesById (h : UniqueSurfaces previous) :
    (surfacesById previous).lookup id = some surface ↔ surface ∈ previous ∧ surface.surfaceId = id := by
  have hkeys : ((previous.map fun s => (s.surfaceId, s)).map Prod.fst).Nodup := by
    rw [List.map_map]
    exact h
  rw [surfacesById, HashMap.lookup_collect hkeys]
  simp only [List.mem_map, Prod.mk.injEq]
  constructor
  · rintro ⟨s, hs, rfl, rfl⟩
    exact ⟨hs, rfl⟩
  · rintro ⟨hs, rfl⟩
    exact ⟨surface, hs, rfl, rfl⟩

theorem lookup_of_mem (h : UniqueSurfaces previous) (hs : surface ∈ previous) :
    (surfacesById previous).lookup surface.surfaceId = some surface := (lookup_surfacesById h).mpr ⟨hs, rfl⟩

theorem covered_of_previous (hprev : UniqueSurfaces previous) (hs : surface ∈ previous)
    (h : Covered (previousSurfaceDamage outputWidth outputHeight (surfacesById current) surface) p) :
    Covered (nativeSceneSurfaceTransitionDamage outputWidth outputHeight orders previous current
      previousDecorations currentDecorations) p := by
  refine covered_append.mpr (.inl (covered_append.mpr (.inr (covered_flatMap.mpr ⟨surface.surfaceId, ?_, ?_⟩))))
  · exact (orders.previousSurfaces.mem_visit _ _).mpr (HashMap.mem_keys_of_lookup (lookup_of_mem hprev hs))
  · rw [lookup_of_mem hprev hs]
    exact h

theorem covered_of_order
    (h : Covered (orderTransitionDamage outputWidth outputHeight previous current previousDecorations
      currentDecorations) p) :
    Covered (nativeSceneSurfaceTransitionDamage outputWidth outputHeight orders previous current
      previousDecorations currentDecorations) p :=
  covered_append.mpr (.inl (covered_append.mpr (.inl h)))

theorem covered_of_new (hcur : UniqueSurfaces current) (hs : surface ∈ current)
    (hnew : (surfacesById previous).lookup surface.surfaceId = none)
    (h : Covered (clippedSceneRect outputWidth outputHeight surface.bounds ++
      clippedSceneDamage outputWidth outputHeight surface) p) :
    Covered (nativeSceneSurfaceTransitionDamage outputWidth outputHeight orders previous current
      previousDecorations currentDecorations) p := by
  refine covered_append.mpr (.inr (covered_flatMap.mpr ⟨surface.surfaceId, ?_, ?_⟩))
  · exact (orders.currentSurfaces.mem_visit _ _).mpr (HashMap.mem_keys_of_lookup (lookup_of_mem hcur hs))
  · rw [if_neg (Finmap.lookup_eq_none.mp hnew), lookup_of_mem hcur hs]
    exact h

theorem covered_of_reportsAt (hprev : UniqueSurfaces previous) (hcur : UniqueSurfaces current)
    (hp : InOutput outputWidth outputHeight p) (hsize : Sized outputWidth outputHeight) (hs : surface ∈ current)
    (h : surface.ReportsAt p) :
    Covered (nativeSceneSurfaceTransitionDamage outputWidth outputHeight orders previous current
      previousDecorations currentDecorations) p := by
  have hdamage := covered_clippedSceneDamage hp hsize h
  cases hlook : (surfacesById previous).lookup surface.surfaceId with
  | none => exact covered_of_new hcur hs hlook (covered_append.mpr (.inr hdamage))
  | some old =>
    obtain ⟨hold, hid⟩ := (lookup_surfacesById hprev).mp hlook
    refine covered_of_previous hprev hold ?_
    rw [previousSurfaceDamage, hid, lookup_of_mem hcur hs]
    dsimp only
    split_ifs
    · exact covered_append.mpr (.inr hdamage)
    · exact hdamage

theorem bounds_of_not_covered (hprev : UniqueSurfaces previous) (hcur : UniqueSurfaces current)
    (hp : InOutput outputWidth outputHeight p) (hsize : Sized outputWidth outputHeight)
    (hnot : ¬ Covered (nativeSceneSurfaceTransitionDamage outputWidth outputHeight orders previous current
      previousDecorations currentDecorations) p) :
    (∀ s ∈ previous, s.covers p = true → ∃ s' ∈ current, s'.surfaceId = s.surfaceId ∧ s'.bounds = s.bounds) ∧
    ∀ s ∈ current, s.covers p = true → ∃ s' ∈ previous, s'.surfaceId = s.surfaceId ∧ s'.bounds = s.bounds := by
  -- two surfaces of one id, one of which covers the pixel
  have hsame : ∀ s ∈ previous, ∀ s' ∈ current, s'.surfaceId = s.surfaceId → s.covers p = true ∨ s'.covers p = true →
      s'.bounds = s.bounds := by
    intro s hs s' hs' hid hcovers
    by_contra hne
    refine hnot (covered_of_previous hprev hs ?_)
    rw [previousSurfaceDamage, ← hid, lookup_of_mem hcur hs']
    dsimp only
    rw [if_pos (fun he => hne he.symm)]
    refine covered_append.mpr (.inl (covered_append.mpr ?_))
    exact hcovers.imp (covered_clippedSceneRect_bounds hp hsize) (covered_clippedSceneRect_bounds hp hsize)
  constructor
  · intro s hs hcovers
    cases hlook : (surfacesById current).lookup s.surfaceId with
    | none =>
      refine absurd (covered_of_previous hprev hs ?_) hnot
      rw [previousSurfaceDamage, hlook]
      exact covered_clippedSceneRect_bounds hp hsize hcovers
    | some s' =>
      obtain ⟨hs', hid⟩ := (lookup_surfacesById hcur).mp hlook
      exact ⟨s', hs', hid, hsame s hs s' hs' hid (.inl hcovers)⟩
  · intro s' hs' hcovers
    cases hlook : (surfacesById previous).lookup s'.surfaceId with
    | none =>
      refine absurd (covered_of_new hcur hs' hlook (covered_append.mpr (.inl ?_))) hnot
      exact covered_clippedSceneRect_bounds hp hsize hcovers
    | some s =>
      obtain ⟨hs, hid⟩ := (lookup_surfacesById hprev).mp hlook
      exact ⟨s, hs, hid, (hsame s hs s' hs' hid.symm (.inr hcovers)).symm⟩

def coversById (surfaces : List NativeSceneSurfaceSnapshot) (p : ℤ × ℤ) (id : ℕ) : Bool :=
  ((surfacesById surfaces).lookup id).any fun surface => surface.covers p

theorem coversById_iff (h : UniqueSurfaces previous) :
    coversById previous p id = true ↔ ∃ s ∈ previous, s.surfaceId = id ∧ s.covers p = true := by
  rw [coversById, Option.any_eq_true]
  simp only [lookup_surfacesById h, and_assoc]

theorem stackAt_eq_filter (h : UniqueSurfaces previous) :
    stackAt previous p = (previous.map surfaceId).filter (coversById previous p) := by
  rw [stackAt, List.filter_map]
  congr 1
  refine List.filter_congr fun s hs => ?_
  rw [Function.comp_apply, coversById, lookup_of_mem h hs, Option.any_some]

theorem stackAt_of_not_covered (hprev : UniqueSurfaces previous) (hcur : UniqueSurfaces current)
    (hp : InOutput outputWidth outputHeight p) (hsize : Sized outputWidth outputHeight)
    (hnot : ¬ Covered (nativeSceneSurfaceTransitionDamage outputWidth outputHeight orders previous current
      previousDecorations currentDecorations) p) : stackAt previous p = stackAt current p := by
  obtain ⟨hforth, hback⟩ := bounds_of_not_covered hprev hcur hp hsize hnot
  have hcovers : coversById previous p = coversById current p := by
    funext id
    rw [Bool.eq_iff_iff, coversById_iff hprev, coversById_iff hcur]
    constructor
    · rintro ⟨s, hs, rfl, hc⟩
      obtain ⟨s', hs', hid, hbounds⟩ := hforth s hs hc
      exact ⟨s', hs', hid, by rwa [covers, hbounds]⟩
    · rintro ⟨s, hs, rfl, hc⟩
      obtain ⟨s', hs', hid, hbounds⟩ := hback s hs hc
      exact ⟨s', hs', hid, by rwa [covers, hbounds]⟩
  rw [stackAt_eq_filter hprev, stackAt_eq_filter hcur, ← hcovers]
  by_cases hids : previous.map surfaceId = current.map surfaceId
  · rw [hids]
  -- a changed id whose surface covers the pixel is damage of the changed order
  have horder : ∀ surfaces : List NativeSceneSurfaceSnapshot, ∀ id, coversById surfaces p id = true →
      Covered (clippedBounds outputWidth outputHeight (surfacesById surfaces) id) p := by
    intro surfaces id hc
    obtain ⟨s, hs, hc⟩ := (Option.any_eq_true _ _).mp hc
    rw [clippedBounds, hs]
    exact covered_clippedSceneRect_bounds hp hsize hc
  have hpushed := fun h => hnot (covered_of_order h)
  rw [orderTransitionDamage] at hpushed
  dsimp only at hpushed
  simp only [if_neg hids, covered_append, covered_flatMap] at hpushed
  refine filter_eq_of_between (fun id hid => ?_) fun id hid => ?_
  · rw [Bool.eq_false_iff]
    exact fun hc => hpushed (.inl (.inl (.inl ⟨id, hid, horder previous id hc⟩)))
  · rw [Bool.eq_false_iff, hcovers]
    exact fun hc => hpushed (.inl (.inl (.inr ⟨id, hid, horder current id hc⟩)))

end Surfaces

/-! ### Decorations -/

section Decorations
variable {previous current : List DecorationSceneSnapshot} {orders : ScanOrders} {d : DecorationSceneSnapshot}

def UniqueDecorations (decorations : List DecorationSceneSnapshot) : Prop :=
  (decorations.map DecorationSceneSnapshot.identity).Nodup

def DecorationChanges (decorations others : List DecorationSceneSnapshot) (p : ℤ × ℤ) : Prop :=
  ∃ d ∈ decorations, d.bounds.containsPoint p ∧
    ∀ d' ∈ others, d'.identity = d.identity → d'.bounds ≠ d.bounds ∨ d'.visualSignature ≠ d.visualSignature

theorem lookup_boundsById {identity : WindowId × ℕ} {r : NativeDamageRect} (h : UniqueDecorations previous) :
    (nativeDecorationBoundsById previous).lookup identity = some r ↔
      ∃ d ∈ previous, d.identity = identity ∧ d.bounds = r ∧ r.width.val ≠ 0 ∧ r.height.val ≠ 0 := by
  have hkeys : (((previous.filter fun d => decide (d.bounds.width.val ≠ 0 ∧ d.bounds.height.val ≠ 0)).map
      fun d => (d.identity, d.bounds)).map Prod.fst).Nodup := by
    rw [List.map_map]
    exact h.sublist (List.filter_sublist.map _)
  rw [nativeDecorationBoundsById, HashMap.lookup_collect hkeys]
  simp only [List.mem_map, List.mem_filter, decide_eq_true_eq, Prod.mk.injEq]
  constructor
  · rintro ⟨d, ⟨hd, hsize⟩, rfl, rfl⟩
    exact ⟨d, hd, rfl, rfl, hsize⟩
  · rintro ⟨d, hd, rfl, rfl, hsize⟩
    exact ⟨d, ⟨hd, hsize⟩, rfl, rfl⟩

theorem lookup_signatures {identity : WindowId × ℕ} {signature : ℕ} (h : UniqueDecorations previous) :
    (decorationSignatures previous).lookup identity = some signature ↔
      ∃ d ∈ previous, d.identity = identity ∧ d.visualSignature = signature := by
  have hkeys : ((previous.map fun d => (d.identity, d.visualSignature)).map Prod.fst).Nodup := by
    rw [List.map_map]
    exact h
  rw [decorationSignatures, HashMap.lookup_collect hkeys]
  simp only [List.mem_map, Prod.mk.injEq]

theorem lookup_bounds_of_covers (h : UniqueDecorations previous) (hd : d ∈ previous)
    (hin : d.bounds.containsPoint p) : (nativeDecorationBoundsById previous).lookup d.identity = some d.bounds := by
  refine (lookup_boundsById h).mpr ⟨d, hd, rfl, rfl, ?_, ?_⟩ <;>
    unfold containsPoint right bottom at hin <;> omega

theorem lookups_differ {others : List DecorationSceneSnapshot} (h : UniqueDecorations previous)
    (h' : UniqueDecorations others) (hd : d ∈ previous) (hin : d.bounds.containsPoint p)
    (hdiff : ∀ d' ∈ others, d'.identity = d.identity →
      d'.bounds ≠ d.bounds ∨ d'.visualSignature ≠ d.visualSignature) :
    (nativeDecorationBoundsById others).lookup d.identity ≠ (nativeDecorationBoundsById previous).lookup d.identity ∨
      (decorationSignatures others).lookup d.identity ≠ (decorationSignatures previous).lookup d.identity := by
  by_contra hsame
  push Not at hsame
  obtain ⟨hb, hsig⟩ := hsame
  rw [lookup_bounds_of_covers h hd hin, lookup_boundsById h'] at hb
  rw [(lookup_signatures h).mpr ⟨d, hd, rfl, rfl⟩, lookup_signatures h'] at hsig
  obtain ⟨d₁, hd₁, hid₁, hbounds, -⟩ := hb
  obtain ⟨d₂, hd₂, hid₂, hvisual⟩ := hsig
  obtain rfl : d₁ = d₂ := List.inj_on_of_nodup_map h' hd₁ hd₂ (hid₁.trans hid₂.symm)
  exact (hdiff d₁ hd₁ hid₁).elim (fun hne => hne hbounds) fun hne => hne hvisual

theorem covered_decorations (hprev : UniqueDecorations previous) (hcur : UniqueDecorations current)
    (hp : InOutput outputWidth outputHeight p) (hsize : Sized outputWidth outputHeight)
    (h : DecorationChanges previous current p ∨ DecorationChanges current previous p) :
    Covered (decorationBoundsChanges outputWidth outputHeight orders previous current) p := by
  unfold decorationBoundsChanges
  dsimp only
  rw [covered_append, covered_flatMap, covered_flatMap]
  obtain ⟨d, hd, hin, hdiff⟩ | ⟨d, hd, hin, hdiff⟩ := h
  · have hlook := lookup_bounds_of_covers hprev hd hin
    refine .inl ⟨d.identity, (orders.previousDecorations.mem_visit _ _).mpr (HashMap.mem_keys_of_lookup hlook), ?_⟩
    rw [if_pos (lookups_differ hprev hcur hd hin hdiff), hlook]
    exact covered_append.mpr (.inl (covered_clippedSceneRect hp hsize hin))
  · have hlook := lookup_bounds_of_covers hcur hd hin
    by_cases hold : d.identity ∈ nativeDecorationBoundsById previous
    · obtain ⟨r, hr⟩ := Finmap.mem_iff.mp hold
      refine .inl ⟨d.identity, (orders.previousDecorations.mem_visit _ _).mpr (HashMap.mem_keys_of_lookup hr), ?_⟩
      have hdiffer := lookups_differ hcur hprev hd hin hdiff
      rw [if_pos (hdiffer.imp Ne.symm Ne.symm), hlook]
      exact covered_append.mpr (.inr (covered_clippedSceneRect hp hsize hin))
    · refine .inr ⟨d.identity, (orders.currentDecorations.mem_visit _ _).mpr (HashMap.mem_keys_of_lookup hlook), ?_⟩
      rw [if_neg hold, hlook]
      exact covered_clippedSceneRect hp hsize hin

end Decorations

/-! ### Scenes -/

def ChangesAt (previous current : NativeSceneSnapshot) (p : ℤ × ℤ) : Prop :=
  stackAt previous.surfaces p ≠ stackAt current.surfaces p ∨
    (∃ surface ∈ current.surfaces, surface.ReportsAt p) ∨
    DecorationChanges previous.decorations current.decorations p ∨
    DecorationChanges current.decorations previous.decorations p

section Scenes
variable {previous current : NativeSceneSnapshot}

theorem covered_scene (orders : ScanOrders) (hp : InOutput outputWidth outputHeight p)
    (hsize : Sized outputWidth outputHeight) (hprev : UniqueSurfaces previous.surfaces)
    (hcur : UniqueSurfaces current.surfaces) (hprev' : UniqueDecorations previous.decorations)
    (hcur' : UniqueDecorations current.decorations) (h : ChangesAt previous current p) :
    Covered (nativeSceneSurfaceTransitionDamage outputWidth outputHeight orders previous.surfaces current.surfaces
        previous.decorations current.decorations ++
      surfaceMembershipTransitionDamage outputWidth outputHeight orders previous.popupSurfaceIds
        current.popupSurfaceIds previous.surfaces current.surfaces ++
      decorationBoundsChanges outputWidth outputHeight orders previous.decorations current.decorations) p := by
  rw [covered_append, covered_append]
  obtain h | ⟨surface, hs, hreports⟩ | h := h
  · refine .inl (.inl ?_)
    by_contra hnot
    exact h (stackAt_of_not_covered hprev hcur hp hsize hnot)
  · exact .inl (.inl (covered_of_reportsAt hprev hcur hp hsize hs hreports))
  · exact .inr (covered_decorations hprev' hcur' hp hsize h)

/-- Every pixel of the output in which two scenes differ is in the damage between them, and coalescing
uncovers no pixel that an output can have. -/
theorem scene_damage_covers (orders : ScanOrders) (cursor : NativeCursorDamageBounds)
    (hwidth : outputWidth.val ≤ 2147483647) (hheight : outputHeight.val ≤ 2147483647)
    (hprev : UniqueSurfaces previous.surfaces) (hcur : UniqueSurfaces current.surfaces)
    (hprev' : UniqueDecorations previous.decorations) (hcur' : UniqueDecorations current.decorations) :
    (∀ p, InOutput outputWidth outputHeight p → ChangesAt previous current p →
      Covered (nativeOutputDamageForSceneSnapshots outputWidth outputHeight orders previous current cursor).rects p) ∧
    ∀ rects p, InOutput outputWidth outputHeight p → Covered rects p →
      Covered (coalesceNativeDamageRects rects) p := by
  have hsize : Sized outputWidth outputHeight := ⟨hwidth, hheight⟩
  refine ⟨fun p hp h => ?_, fun rects p hp h => covered_coalesce (hp.addressed hsize) h⟩
  have hp' := hp.addressed hsize
  have hscene := covered_surfaceDamage hp' (covered_scene orders hp hsize hprev hcur hprev' hcur' h)
  unfold nativeOutputDamageForSceneSnapshots
  dsimp only
  split_ifs
  · exact covered_fullOutput hp
  · exact covered_fullOutput hp
  · exact covered_unionSurfaceRects hp' _ hscene
  · exact covered_unionSurfaceRects hp' _ (covered_unionSurfaceRects hp' _ hscene)
  · exact hscene
  · exact covered_unionSurfaceRects hp' _ hscene

end Scenes

def oneSurface (surface : NativeSceneSurfaceSnapshot) : NativeSceneSnapshot :=
  ⟨[surface], [], [], [], .empty, 0, 0⟩

def squareAt (x : I32) : NativeDamageRect := ⟨x, ⟨0, I32.zero_mem⟩, toU32OrMax 4, toU32OrMax 4⟩

noncomputable def listedOrders : ScanOrders := ⟨.listed ℕ, .listed ℕ, .listed ℕ, .listed _, .listed _⟩

def squareScene (x : I32) : NativeSceneSnapshot := oneSurface ⟨1, 1, some (squareAt x), .authoritativeEmpty⟩

theorem scene_damage_covers_moved :
    Covered (nativeOutputDamageForSceneSnapshots ⟨10, by decide⟩ ⟨10, by decide⟩ listedOrders
      (squareScene ⟨0, by decide⟩) (squareScene ⟨4, by decide⟩) ⟨none, none, none, none⟩).rects (1, 1) := by
  have hone : ∀ x, UniqueSurfaces (squareScene x).surfaces := fun x => List.nodup_singleton 1
  have hnone : ∀ x, UniqueDecorations (squareScene x).decorations := fun x => List.nodup_nil
  have hten : (⟨10, by decide⟩ : U32).val ≤ 2147483647 := by decide
  have hcovers := scene_damage_covers listedOrders ⟨none, none, none, none⟩ hten hten (hone ⟨0, by decide⟩)
    (hone ⟨4, by decide⟩) (hnone ⟨0, by decide⟩) (hnone ⟨4, by decide⟩)
  exact hcovers.1 (1, 1) ⟨by decide, by decide⟩ (.inl (by decide))

end Typhon.Output
