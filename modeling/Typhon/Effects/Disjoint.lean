import Typhon.Effects.Region

/-! The two bounded normal forms. The intersection keeps its list inside the clip and gives up to the clip when the list
is full; the disjoint form cuts every rectangle by the ones that are already represented, and gives up to nothing. -/

namespace Typhon.Effects
open Foundation

structure BoundedRegionDisjointification where
  region : EffectRegion
  overflowed : Bool
  duplicateRectsRemoved : ℕ
  overlapFragmentsGenerated : ℕ
  deriving DecidableEq

namespace EffectRegion

def pushBounded (region : EffectRegion) (rect : EffectRect) : Option EffectRegion :=
  if h : region.rects.length = maxEffectRegionRects then none
  else
    some ⟨region.rects ++ [rect], region.conservativeFull, region.push_length_le rect h⟩

def cutFragments (represented : EffectRect) :
    List EffectRect → (next : EffectRegion) → (generated : ℕ) → Run Empty (Option EffectRegion × ℕ)
  | [], next, generated => .ok (some next, generated)
  | fragment :: fragments, next, generated => do
    let pieces ← subtractEffectRect fragment represented
    let generated :=
      if pieces.length ≠ 1 ∨ pieces.head? ≠ some fragment then generated + pieces.length else generated
    match pieces.foldlM pushBounded next with
    | none => return (none, generated)
    | some next => cutFragments represented fragments next generated

def cutByAll : List EffectRect → (fragments : EffectRegion) → (generated : ℕ) → Run Empty (Option EffectRegion × ℕ)
  | [], fragments, generated => .ok (some fragments, generated)
  | represented :: others, fragments, generated =>
    if fragments.rects.isEmpty then .ok (some fragments, generated)
    else do
      match ← cutFragments represented fragments.rects empty generated with
      | (none, generated) => return (none, generated)
      | (some next, generated) => cutByAll others next generated

def disjointSources : List EffectRect → (disjoint : EffectRegion) → (duplicates generated : ℕ) →
    Run Empty BoundedRegionDisjointification
  | [], disjoint, duplicates, generated => .ok ⟨disjoint, false, duplicates, generated⟩
  | source :: sources, disjoint, duplicates, generated =>
    if source ∈ disjoint.rects then disjointSources sources disjoint (duplicates + 1) generated
    else do
      match ← cutByAll disjoint.rects (fromRect source) generated with
      | (none, generated) => return ⟨empty, true, duplicates, generated⟩
      | (some fragments, generated) =>
        match fragments.rects.foldlM pushBounded disjoint with
        | none => return ⟨empty, true, duplicates, generated⟩
        | some disjoint => disjointSources sources disjoint duplicates generated

def disjointBounded (region : EffectRegion) : Run Empty BoundedRegionDisjointification :=
  if region.conservativeFull || region.rects.length ≤ 1 then .ok ⟨region, false, 0, 0⟩
  else disjointSources region.rects empty 0 0

end EffectRegion

namespace EffectRect
variable {r r' s : EffectRect} {p : ℤ × ℤ}

def Moderate (r : EffectRect) : Prop := r.width.val ≤ 2147483648 ∧ r.height.val ≤ 2147483648

def Shallow (earlier later : EffectRect) : Prop :=
  ∀ p, earlier.containsPoint p → later.containsPoint p →
    (p.1 - later.x.val ≤ 2147483647 ∧ later.right - 1 - p.1 ≤ 2147483647) ∧
    p.2 - later.y.val ≤ 2147483647 ∧ later.bottom - 1 - p.2 ≤ 2147483647

theorem Moderate.shallow (h : s.Moderate) : r.Shallow s := by
  rintro p - hp
  unfold containsPoint at hp
  unfold Moderate at h
  unfold right bottom at *
  omega

theorem Inside.containsPoint (h : r.Inside s) (hp : r.containsPoint p) : s.containsPoint p :=
  ⟨h.left.trans hp.1, lt_of_lt_of_le hp.2.1 h.right, h.top.trans hp.2.2.1, lt_of_lt_of_le hp.2.2.2 h.bottom⟩

theorem Inside.refl (r : EffectRect) : r.Inside r := ⟨le_refl _, le_refl _, le_refl _, le_refl _⟩

theorem Inside.trans (h : r.Inside r') (h' : r'.Inside s) : r.Inside s :=
  ⟨h'.left.trans h.left, h.right.trans h'.right, h'.top.trans h.top, h.bottom.trans h'.bottom⟩

theorem Inside.cutFits {excluded : EffectRect} (h : r.Inside s) (hs : CutFits s excluded) : CutFits r excluded := by
  intro hsome
  obtain ⟨o, ho⟩ := Option.isSome_iff_exists.mp hsome
  have hpixel : o.containsPoint (o.x.val, o.y.val) := ⟨le_refl _, o.x_lt_right, le_refl _, o.y_lt_bottom⟩
  obtain ⟨hr, hexcluded⟩ := containsPoint_intersect ho hpixel
  obtain ⟨o', ho', -⟩ := intersect_covers (h.containsPoint hr) hexcluded
  obtain ⟨⟨hx, hright⟩, hy, hbottom⟩ := hs (by rw [ho']; rfl)
  have hedges := And.intro (And.intro h.left h.right) (And.intro h.top h.bottom)
  omega

theorem Shallow.cutFits {e d : EffectRect} (h : e.Shallow s) (hd : d.Inside e) : CutFits s d := by
  intro hsome
  obtain ⟨o, ho⟩ := Option.isSome_iff_exists.mp hsome
  have hshared : ∀ {q}, o.containsPoint q → e.containsPoint q ∧ s.containsPoint q := fun hq =>
    ⟨hd.containsPoint (containsPoint_intersect ho hq).2, (containsPoint_intersect ho hq).1⟩
  have hwide := o.x_lt_right
  have hhigh := o.y_lt_bottom
  -- the first and the last pixel that they share
  have hfirst : o.containsPoint (o.x.val, o.y.val) := ⟨le_refl _, hwide, le_refl _, hhigh⟩
  have hlast : o.containsPoint (o.right - 1, o.bottom - 1) := by
    unfold EffectRect.containsPoint
    omega
  obtain ⟨⟨hleft, hright⟩, htop, hbottom⟩ := h _ (hshared hfirst).1 (hshared hfirst).2
  obtain ⟨⟨hleft', hright'⟩, htop', hbottom'⟩ := h _ (hshared hlast).1 (hshared hlast).2
  obtain ⟨⟨hox, hor⟩, hoy, hob⟩ := intersect_edges ho
  omega

theorem Apart.symm (h : r.Apart r') : r'.Apart r := fun p hp hp' => h p hp' hp

theorem Apart.of_inside (h : r'.Apart s) (hr : r.Inside r') : r.Apart s :=
  fun p hp => h p (hr.containsPoint hp)

end EffectRect

namespace EffectRegion
variable {region clip next fragments disjoint result : EffectRegion} {source rect : EffectRect}
  {rects sources : List EffectRect} {p : ℤ × ℤ}

section intersection
variable {collected : EffectRegion} {pairs : List (EffectRect × EffectRect)} {count duplicates : ℕ}

theorem intersectPairs_exact (hcollected : collected.containsPoint p → region.containsPoint p)
    (hpairs : ∀ pair ∈ pairs, pair.1 ∈ region.rects)
    (hfits : (intersectPairs clip count pairs collected duplicates).overflowed = false)
    (h : (intersectPairs clip count pairs collected duplicates).region.containsPoint p) : region.containsPoint p := by
  induction pairs generalizing collected duplicates with
  | nil => exact hcollected h
  | cons pair pairs ih =>
    obtain ⟨left, right⟩ := pair
    have hlater : ∀ pair ∈ pairs, pair.1 ∈ region.rects :=
      fun pair hpair => hpairs pair (List.mem_cons_of_mem _ hpair)
    unfold intersectPairs at h hfits
    split at h
    · rename_i hnone
      rw [hnone] at hfits
      exact ih hcollected hlater hfits h
    rename_i i hi
    rw [hi] at hfits
    dsimp only at hfits
    split at h
    · rename_i hmem
      rw [if_pos hmem] at hfits
      exact ih hcollected hlater hfits h
    rename_i hmem
    rw [if_neg hmem] at hfits
    split at h
    · rename_i hfull
      rw [dif_pos hfull] at hfits
      cases hfits
    · rename_i hroom
      rw [dif_neg hroom] at hfits
      refine ih ?_ hlater hfits h
      rintro (h | ⟨rect, hrect, hp⟩)
      · exact hcollected (.inl h)
      · rcases List.mem_append.mp hrect with hold | hnew
        · exact hcollected (.inr ⟨rect, hold, hp⟩)
        · rw [List.mem_singleton] at hnew
          subst hnew
          exact .inr ⟨left, hpairs _ List.mem_cons_self, (EffectRect.containsPoint_intersect hi hp).1⟩

end intersection

theorem intersectBoundedWithin_exact (hfits : (region.intersectBoundedWithinResult clip).overflowed = false)
    (h : (region.intersectBoundedWithinResult clip).region.containsPoint p) : region.containsPoint p := by
  unfold intersectBoundedWithinResult at h hfits
  by_cases hfull : region.conservativeFull = true
  · exact .inl hfull
  rw [if_neg hfull] at h hfits
  by_cases hclip : clip.conservativeFull = true
  · rw [if_pos hclip] at h
    exact h
  · rw [if_neg hclip] at h hfits
    refine intersectPairs_exact ?_ (fun pair hpair => (List.mem_product.mp hpair).1) hfits h
    exact fun h => absurd h not_containsPoint_empty

/-! ### The disjoint form -/

theorem pushBounded_eq_some (h : region.pushBounded rect = some result) :
    result.rects = region.rects ++ [rect] ∧ result.conservativeFull = region.conservativeFull := by
  unfold pushBounded at h
  split at h
  · cases h
  · cases h
    exact ⟨rfl, rfl⟩

theorem foldlM_pushBounded (h : rects.foldlM pushBounded region = some result) :
    result.rects = region.rects ++ rects ∧ result.conservativeFull = region.conservativeFull := by
  induction rects generalizing region with
  | nil =>
    cases h
    exact ⟨(List.append_nil _).symm, rfl⟩
  | cons rect rects ih =>
    rw [List.foldlM_cons] at h
    obtain ⟨mid, hmid, h⟩ := Option.bind_eq_some_iff.mp h
    obtain ⟨hrects, hfull⟩ := pushBounded_eq_some hmid
    obtain ⟨hrects', hfull'⟩ := ih h
    exact ⟨by rw [hrects', hrects, List.append_assoc]; rfl, hfull'.trans hfull⟩

structure Splits (s : EffectRect) (rects : List EffectRect) : Prop where
  apart : rects.Pairwise EffectRect.Apart
  inside : ∀ r ∈ rects, r.Inside s

theorem Splits.replace {s fragment : EffectRect} {before pieces after : List EffectRect}
    (h : Splits s (before ++ fragment :: after)) (hpieces : Splits fragment pieces) :
    Splits s ((before ++ pieces) ++ after) := by
  obtain ⟨hbefore, hrest, hcross⟩ := List.pairwise_append.mp h.apart
  obtain ⟨hafter, hrest⟩ := List.pairwise_cons.mp hrest
  have hfragment : fragment.Inside s := h.inside _ (List.mem_append_right _ List.mem_cons_self)
  constructor
  · rw [List.append_assoc]
    refine List.pairwise_append.mpr ⟨hbefore, List.pairwise_append.mpr ⟨hpieces.apart, hrest, ?_⟩, ?_⟩
    · exact fun piece hpiece r hr => (hafter r hr).of_inside (hpieces.inside piece hpiece)
    · intro r hr r' hr'
      rcases List.mem_append.mp hr' with hpiece | hlater
      · exact ((hcross r hr fragment List.mem_cons_self).symm.of_inside (hpieces.inside r' hpiece)).symm
      · exact hcross r hr r' (List.mem_cons_of_mem _ hlater)
  · intro r hr
    rcases List.mem_append.mp hr with hr | hr
    · rcases List.mem_append.mp hr with hr | hr
      · exact h.inside r (List.mem_append_left _ hr)
      · exact (hpieces.inside r hr).trans hfragment
    · exact h.inside r (List.mem_append_right _ (List.mem_cons_of_mem _ hr))

theorem cutFragments_spec {s represented : EffectRect} (hs : CutFits s represented) (generated : ℕ)
    (h : Splits s (next.rects ++ rects)) : ∃ outcome, cutFragments represented rects next generated = .ok outcome ∧
      ∀ result ∈ outcome.1, Splits s result.rects ∧ ∀ p, (∃ r ∈ result.rects, r.containsPoint p) ↔
          (∃ r ∈ next.rects, r.containsPoint p) ∨ (∃ r ∈ rects, r.containsPoint p) ∧ ¬represented.containsPoint p := by
  induction rects generalizing next generated with
  | nil =>
    refine ⟨_, rfl, fun result hresult => ?_⟩
    obtain rfl := Option.mem_some_iff.mp hresult
    rw [List.append_nil] at h
    exact ⟨h, fun p => by simp⟩
  | cons fragment rects ih =>
    have hfits : CutFits fragment represented :=
      (h.inside _ (List.mem_append_right _ List.mem_cons_self)).cutFits hs
    obtain ⟨pieces, hpieces, -, hapart, hin, hcovers⟩ := subtractEffectRect_spec hfits
    unfold cutFragments
    rw [hpieces, Run.ok_bind]
    dsimp only
    generalize (if pieces.length ≠ 1 ∨ pieces.head? ≠ some fragment then generated + pieces.length
      else generated) = generated
    cases hpush : pieces.foldlM pushBounded next with
    | none => exact ⟨_, rfl, fun result hresult => absurd hresult (Option.not_mem_none _)⟩
    | some mid =>
      obtain ⟨hmid, -⟩ := foldlM_pushBounded hpush
      have hreplaced : Splits s (mid.rects ++ rects) := by
        rw [hmid]
        exact h.replace ⟨hapart, hin⟩
      obtain ⟨outcome, houtcome, hspec⟩ := ih generated hreplaced
      refine ⟨outcome, houtcome, fun result hresult => ⟨(hspec result hresult).1, fun p => ?_⟩⟩
      rw [(hspec result hresult).2 p, hmid]
      simp only [List.mem_append, List.mem_cons, or_and_right, exists_or, exists_eq_left, hcovers]
      exact or_assoc

theorem cutByAll_spec {s : EffectRect} {others : List EffectRect} (hs : ∀ r ∈ others, CutFits s r) (generated : ℕ)
    (h : Splits s fragments.rects) : ∃ outcome, cutByAll others fragments generated = .ok outcome ∧
      ∀ result ∈ outcome.1, Splits s result.rects ∧ ∀ p, (∃ r ∈ result.rects, r.containsPoint p) ↔
          (∃ r ∈ fragments.rects, r.containsPoint p) ∧ ∀ r ∈ others, ¬r.containsPoint p := by
  induction others generalizing fragments generated with
  | nil =>
    refine ⟨_, rfl, fun result hresult => ?_⟩
    obtain rfl := Option.mem_some_iff.mp hresult
    exact ⟨h, fun p => by simp⟩
  | cons represented others ih =>
    unfold cutByAll
    split
    · rename_i hempty
      rw [List.isEmpty_iff] at hempty
      refine ⟨_, rfl, fun result hresult => ?_⟩
      obtain rfl := Option.mem_some_iff.mp hresult
      exact ⟨h, fun p => by simp [hempty]⟩
    · have hstart : Splits s (empty.rects ++ fragments.rects) := h
      obtain ⟨⟨cut, generated'⟩, hcut, hspec⟩ := cutFragments_spec (hs represented List.mem_cons_self) generated hstart
      rw [hcut, Run.ok_bind]
      cases cut with
      | none => exact ⟨_, rfl, fun result hresult => absurd hresult (Option.not_mem_none _)⟩
      | some mid =>
        obtain ⟨hsplits, hmid⟩ := hspec mid rfl
        obtain ⟨outcome, houtcome, hspec'⟩ := ih (fun r hr => hs r (List.mem_cons_of_mem _ hr)) generated' hsplits
        refine ⟨outcome, houtcome, fun result hresult => ⟨(hspec' result hresult).1, fun p => ?_⟩⟩
        rw [(hspec' result hresult).2 p, hmid p]
        simp only [empty, List.not_mem_nil, false_and, exists_false, false_or, List.forall_mem_cons]
        tauto

def Represents (pixels : ℤ × ℤ → Prop) (result : BoundedRegionDisjointification) : Prop :=
  result.overflowed = false →
    result.region.rects.Pairwise EffectRect.Apart ∧ ∀ p, result.region.containsPoint p ↔ pixels p

theorem disjointSources_step (hfits : ∀ r ∈ disjoint.rects, CutFits source r)
    (hlisted : disjoint.conservativeFull = false) (hapart : disjoint.rects.Pairwise EffectRect.Apart)
    (sources : List EffectRect) (duplicates generated : ℕ) :
    (∃ result, disjointSources (source :: sources) disjoint duplicates generated = .ok result ∧
      result.overflowed = true) ∨
    ∃ longer duplicates' generated', disjointSources (source :: sources) disjoint duplicates generated =
        disjointSources sources longer duplicates' generated' ∧
      longer.conservativeFull = false ∧ longer.rects.Pairwise EffectRect.Apart ∧
      (∀ r ∈ longer.rects, r ∈ disjoint.rects ∨ r.Inside source) ∧
      ∀ p, longer.containsPoint p ↔ disjoint.containsPoint p ∨ source.containsPoint p := by
  rw [disjointSources.eq_def]
  dsimp only
  split
  · rename_i hmem
    -- the duplicate adds nothing to what is represented
    refine .inr ⟨disjoint, duplicates + 1, generated, rfl, hlisted, hapart, fun r => .inl, fun p => ?_⟩
    exact ⟨.inl, fun h => h.elim id fun hp => .inr ⟨source, hmem, hp⟩⟩
  · have hsource : Splits source (fromRect source).rects :=
      ⟨List.pairwise_singleton _ _, fun r hr => by
        obtain rfl := List.mem_singleton.mp hr
        exact .refl r⟩
    obtain ⟨⟨cut, generated'⟩, hcut, hspec⟩ := cutByAll_spec hfits generated hsource
    rw [hcut, Run.ok_bind]
    cases cut with
    | none => exact .inl ⟨_, rfl, rfl⟩
    | some fragments =>
      obtain ⟨hsplits, hfragments⟩ := hspec fragments rfl
      dsimp only
      cases hpush : fragments.rects.foldlM pushBounded disjoint with
      | none => exact .inl ⟨_, rfl, rfl⟩
      | some longer =>
        obtain ⟨hlonger, hfull⟩ := foldlM_pushBounded hpush
        refine .inr ⟨longer, duplicates, generated', rfl, hfull.trans hlisted, ?_, fun r hr => ?_, fun p => ?_⟩
        · rw [hlonger]
          refine List.pairwise_append.mpr ⟨hapart, hsplits.apart, fun r hr r' hr' p hp hp' => ?_⟩
          exact ((hfragments p).mp ⟨r', hr', hp'⟩).2 r hr hp
        · rw [hlonger, List.mem_append] at hr
          exact hr.imp_right (hsplits.inside r)
        · simp only [containsPoint, hfull, hlisted, hlonger, fromRect, List.mem_append, List.mem_cons,
            List.not_mem_nil, or_false, or_and_right, exists_or, exists_eq_left, hfragments, reduceCtorEq, false_or]
          by_cases hold : ∃ r ∈ disjoint.rects, r.containsPoint p
          · exact iff_of_true (.inl hold) (.inl hold)
          · have hout : ∀ r ∈ disjoint.rects, ¬r.containsPoint p := fun r hr hp => hold ⟨r, hr, hp⟩
            tauto

theorem disjointSources_spec {earlier : List EffectRect} (hearlier : ∀ e ∈ earlier, ∀ s ∈ sources, e.Shallow s)
    (hsources : sources.Pairwise EffectRect.Shallow) (hlisted : disjoint.conservativeFull = false)
    (hapart : disjoint.rects.Pairwise EffectRect.Apart) (hinside : ∀ r ∈ disjoint.rects, ∃ e ∈ earlier, r.Inside e)
    (duplicates generated : ℕ) : ∃ result, disjointSources sources disjoint duplicates generated = .ok result ∧
      Represents (fun p => disjoint.containsPoint p ∨ ∃ r ∈ sources, r.containsPoint p) result := by
  induction sources generalizing disjoint earlier duplicates generated with
  | nil => exact ⟨_, rfl, fun _ => ⟨hapart, fun p => by simp⟩⟩
  | cons source sources ih =>
    obtain ⟨hsource, hsources⟩ := List.pairwise_cons.mp hsources
    have hfits : ∀ r ∈ disjoint.rects, CutFits source r := by
      intro r hr
      obtain ⟨e, he, hre⟩ := hinside r hr
      exact (hearlier e he source List.mem_cons_self).cutFits hre
    rcases disjointSources_step hfits hlisted hapart sources duplicates generated
      with ⟨result, hresult, hover⟩ | ⟨longer, duplicates', generated', hstep, hlisted', hapart', hfrom, hlonger⟩
    · exact ⟨result, hresult, fun hfits => absurd (hfits.symm.trans hover) nofun⟩
    · -- the source joins the earlier rectangles
      have hearlier' : ∀ e ∈ source :: earlier, ∀ s ∈ sources, e.Shallow s :=
        List.forall_mem_cons.mpr ⟨hsource, fun e he s hs => hearlier e he s (List.mem_cons_of_mem _ hs)⟩
      have hinside' : ∀ r ∈ longer.rects, ∃ e ∈ source :: earlier, r.Inside e := by
        intro r hr
        rcases hfrom r hr with hold | hnew
        · obtain ⟨e, he, hre⟩ := hinside r hold
          exact ⟨e, List.mem_cons_of_mem _ he, hre⟩
        · exact ⟨source, List.mem_cons_self, hnew⟩
      obtain ⟨result, hresult, hspec⟩ := ih hearlier' hsources hlisted' hapart' hinside' duplicates' generated'
      refine ⟨result, hstep.trans hresult, fun hfits => ⟨(hspec hfits).1, fun p => ((hspec hfits).2 p).trans ?_⟩⟩
      simp only [hlonger p, List.mem_cons, or_and_right, exists_or, exists_eq_left]
      exact or_assoc

def Bare (region : EffectRegion) : Prop := region.conservativeFull = true → region.rects = []

def Disjoints (region : EffectRegion) : Prop :=
  ∃ result, region.disjointBounded = .ok result ∧ Represents region.containsPoint result

theorem disjointSources_first (first : EffectRect) (sources : List EffectRect) :
    disjointSources (first :: sources) empty 0 0 = disjointSources sources (fromRect first) 0 0 := rfl

theorem disjoints_of_shallow (hbare : region.Bare) (h : region.rects.Pairwise EffectRect.Shallow) :
    region.Disjoints := by
  unfold Disjoints disjointBounded
  split
  · rename_i hshort
    refine ⟨_, rfl, fun _ => ⟨?_, fun p => Iff.rfl⟩⟩
    rcases Bool.or_eq_true_iff.mp hshort with hfull | hshort
    · rw [hbare hfull]
      exact List.Pairwise.nil
    · rcases hrects : region.rects with _ | ⟨r, _ | ⟨r', rest⟩⟩
      · exact List.Pairwise.nil
      · exact List.pairwise_singleton _ _
      · rw [hrects] at hshort
        simp at hshort
  · rename_i hlong
    have hlisted : region.conservativeFull = false := by
      rw [Bool.or_eq_true_iff, not_or] at hlong
      exact Bool.eq_false_iff.mpr hlong.1
    rcases hrects : region.rects with _ | ⟨first, sources⟩
    · rw [hrects] at hlong
      simp at hlong
    · rw [hrects, List.pairwise_cons] at h
      have hfirst : (fromRect first).rects.Pairwise EffectRect.Apart := List.pairwise_singleton _ _
      have hinside : ∀ r ∈ (fromRect first).rects, ∃ e ∈ [first], r.Inside e := fun r hr => ⟨r, hr, .refl r⟩
      obtain ⟨result, hresult, hspec⟩ :=
        disjointSources_spec (List.forall_mem_singleton.mpr h.1) h.2 rfl hfirst hinside 0 0
      refine ⟨result, (disjointSources_first first sources).trans hresult, fun hfits => ⟨(hspec hfits).1, fun p => ?_⟩⟩
      rw [(hspec hfits).2 p]
      simp [containsPoint, hlisted, hrects, fromRect]

theorem pairwise_shallow_of_moderate (h : ∀ r ∈ rects.tail, r.Moderate) : rects.Pairwise EffectRect.Shallow := by
  cases rects with
  | nil => exact List.Pairwise.nil
  | cons first rest =>
    refine List.pairwise_cons.mpr ⟨fun r hr => (h r hr).shallow, ?_⟩
    exact List.pairwise_of_forall_mem_list fun r _ r' hr' => (h r' hr').shallow

section pair
variable {first : EffectRect}

theorem disjointBounded_pair (hlisted : region.conservativeFull = false) (hrects : region.rects = [first, source]) :
    region.disjointBounded = disjointSources [source] (fromRect first) 0 0 := by
  have hlong : ¬(region.conservativeFull || decide (region.rects.length ≤ 1)) = true := by
    rw [hlisted, hrects]
    exact Bool.false_ne_true
  rw [disjointBounded, if_neg hlong, hrects, disjointSources_first]

theorem cutFits_of_disjoints (hlisted : region.conservativeFull = false) (hrects : region.rects = [first, source])
    (h : region.Disjoints) : CutFits source first := by
  by_cases hne : first = source
  · exact fun _ => by simp [hne]
  obtain ⟨result, hresult, -⟩ := h
  have hnew : source ∉ (fromRect first).rects := fun hmem => hne (List.mem_singleton.mp hmem).symm
  rw [disjointBounded_pair hlisted hrects, disjointSources.eq_def] at hresult
  dsimp only at hresult
  rw [if_neg hnew] at hresult
  obtain ⟨outcome, houtcome, -⟩ := Run.bind_eq_ok.mp hresult
  obtain ⟨cut, hcut, -⟩ := Run.bind_eq_ok.mp houtcome
  obtain ⟨pieces, hpieces, -⟩ := Run.bind_eq_ok.mp hcut
  exact cutFits_of_subtractEffectRect hpieces

theorem disjoints_of_cutFits (hlisted : region.conservativeFull = false) (hrects : region.rects = [first, source])
    (hfits : CutFits source first) : region.Disjoints := by
  have hall : ∀ r ∈ (fromRect first).rects, CutFits source r := fun r hr => List.mem_singleton.mp hr ▸ hfits
  unfold Disjoints
  rw [disjointBounded_pair hlisted hrects]
  rcases disjointSources_step hall rfl (List.pairwise_singleton _ _) [] 0 0
    with ⟨result, hresult, hover⟩ | ⟨longer, duplicates, generated, hstep, -, hapart, -, hlonger⟩
  · exact ⟨result, hresult, fun hfits => absurd (hfits.symm.trans hover) nofun⟩
  · refine ⟨_, hstep, fun _ => ⟨hapart, fun p => (hlonger p).trans ?_⟩⟩
    simp [containsPoint, hlisted, hrects, fromRect]

end pair

theorem moderate_of_disjoints {sources : Set EffectRect} (hsource : source ∈ sources)
    (h : ∀ region : EffectRegion, region.Bare → (∀ r ∈ region.rects.tail, r ∈ sources) → region.Disjoints) :
    source.Moderate := by
  by_contra hlong
  rw [EffectRect.Moderate, not_and_or, not_le, not_le] at hlong
  obtain ⟨cut, hcut⟩ := exists_cut_of_long source hlong
  have hpair : Disjoints ⟨[cut, source], false, Nat.le_of_ble_eq_true rfl⟩ := by
    refine h _ (fun hfull => absurd hfull nofun) fun r hr => ?_
    rw [List.tail_cons, List.mem_singleton] at hr
    exact hr ▸ hsource
  exact hcut (cutFits_of_disjoints rfl rfl hpair)

end EffectRegion

end Typhon.Effects
