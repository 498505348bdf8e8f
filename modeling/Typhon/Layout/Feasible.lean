import Typhon.Layout.Boundary

/-! What the feasibility context decides: whether boundaries exist that give every leaf a size it
accepts. The context answers this bottom-up, from the least extents of the two sides of a split, and
caches every least extent it finds. -/

namespace Typhon.Layout
open Foundation Query

/-! ### Sizes that fit -/

def safeLow (extent : ℕ) : ℕ := max (lowShare extent) 1

def safeHigh (extent : ℕ) : ℕ := min (highShare extent) (extent - 1)

theorem safe_mono {e e' k : ℕ} (h : e ≤ e') (hlow : safeLow e ≤ k) (hhigh : k ≤ safeHigh e) :
    max k (safeLow e') ≤ safeHigh e' ∧ e - k ≤ e' - max k (safeLow e') := by
  unfold safeLow safeHigh lowShare highShare at *
  rcases le_total k (max ((e' + 10) / 20) 1) with hk | hk
  · rw [max_eq_right hk]
    omega
  · rw [max_eq_left hk]
    omega

def sized (axis : SplitAxis) (extent cross : ℕ) : Size := Function.update (fun _ => cross) axis extent

theorem sized_mono {axis : SplitAxis} {m m' cross : ℕ} (h : m ≤ m') : sized axis m cross ≤ sized axis m' cross :=
  update_le_update_iff.mpr ⟨h, fun _ _ => le_rfl⟩

namespace LayoutRect

theorem update_size (r : LayoutRect) (axis : SplitAxis) (m : ℕ) :
    Function.update r.size axis m = sized axis m (r.cross axis).val := by
  funext a
  cases axis <;> cases a <;> rfl

variable {axis : SplitAxis}

theorem size_rectWithSize {m cross : ℕ} (hm : 1 ≤ m) (hm' : m ≤ 4294967295)
    (hc : 1 ≤ cross) (hc' : cross ≤ 4294967295) : (rectWithSize axis m cross).size = sized axis m cross := by
  funext a
  cases axis <;> cases a <;>
    simp only [size, extent, rectWithSize, sized, Function.update_self, ne_eq, reduceCtorEq, not_false_eq_true,
      Function.update_of_ne] <;> omega

theorem probe_size (r : LayoutRect) {m : ℕ} (hm : 1 ≤ m) (hle : m ≤ r.size axis) :
    (rectWithSize axis m (r.cross axis).val).size = Function.update r.size axis m := by
  rw [size_rectWithSize hm (hle.trans (r.size_le axis)) (r.cross_pos axis) (r.cross axis).property, update_size]

theorem probe_le (r : LayoutRect) {m : ℕ} (hm : 1 ≤ m) (hle : m ≤ r.size axis) :
    (rectWithSize axis m (r.cross axis).val).size ≤ r.size := by
  rw [r.probe_size hm hle]
  exact update_le_self_iff.mpr hle

theorem origin_rectWithSize (axis a : SplitAxis) (m cross : ℕ) :
    ((rectWithSize axis m cross).origin a).val = 0 := by
  cases axis <;> cases a <;> rfl

end LayoutRect

namespace Topology
variable {F : Type} [Float64 F]

def SplitsAlong (axis : SplitAxis) : Topology F → Prop
  | leaf _ _ => False
  | split _ a _ first second => a = axis ∨ first.SplitsAlong axis ∨ second.SplitsAlong axis

def FitsIn (accepts : WindowId → Size → Prop) : Topology F → Size → Prop
  | leaf _ window, size => accepts window size
  | split _ axis _ first second, size => ∃ k, safeLow (size axis) ≤ k ∧ k ≤ safeHigh (size axis) ∧
      first.FitsIn accepts (Function.update size axis k) ∧
      second.FitsIn accepts (Function.update size axis (size axis - k))

theorem FitsIn.mono {accepts : WindowId → Size → Prop} (haccepts : ∀ window, Monotone (accepts window))
    {T : Topology F} {size size' : Size} (hle : size ≤ size') (h : T.FitsIn accepts size) :
    T.FitsIn accepts size' := by
  induction T generalizing size size' with
  | leaf id window => exact haccepts window hle h
  | split id axis ratio first second ih₁ ih₂ =>
    obtain ⟨k, hlow, hhigh, h₁, h₂⟩ := h
    obtain ⟨hsafe, hrest⟩ := safe_mono (hle axis) hlow hhigh
    exact ⟨max k (safeLow (size' axis)), le_max_right _ _, hsafe,
      ih₁ (update_le_update_iff.mpr ⟨le_max_left _ _, fun a _ => hle a⟩) h₁,
      ih₂ (update_le_update_iff.mpr ⟨hrest, fun a _ => hle a⟩) h₂⟩

end Topology

theorem exists_offset_iff {P₁ P₂ : ℕ → Prop} {e a b : ℕ} (h₁ : LeastUpTo P₁ e (some a))
    (h₂ : LeastUpTo P₂ e (some b)) (hmono₁ : ∀ ⦃m m'⦄, m ≤ m' → P₁ m → P₁ m')
    (hmono₂ : ∀ ⦃m m'⦄, m ≤ m' → P₂ m → P₂ m') {k : ℕ} : (safeLow e ≤ k ∧ k ≤ safeHigh e ∧ P₁ k ∧ P₂ (e - k)) ↔
      max a (safeLow e) ≤ k ∧ k ≤ min (e - b) (safeHigh e) := by
  have hb := h₂.1
  constructor
  · rintro ⟨hlow, hhigh, hk₁, hk₂⟩
    unfold safeLow safeHigh at *
    have ha := h₁.le (by omega) hk₁
    have hb := h₂.le (by omega) hk₂
    omega
  · rintro ⟨hlow, hhigh⟩
    have hpos : 1 ≤ k := (le_max_right _ _).trans ((le_max_right _ _).trans hlow)
    refine ⟨by omega, by omega, hmono₁ (by omega) h₁.2.2.1, hmono₂ (by omega) h₂.2.2.1⟩

theorem Topology.fits_offset_iff {F : Type} [Float64 F] {accepts : WindowId → Size → Prop}
    (haccepts : ∀ window, Monotone (accepts window)) {first second : Topology F} {size : Size} {axis : SplitAxis}
    {a b : ℕ} (h₁ : LeastUpTo (fun m => first.FitsIn accepts (Function.update size axis m)) (size axis) (some a))
    (h₂ : LeastUpTo (fun m => second.FitsIn accepts (Function.update size axis m)) (size axis) (some b)) {k : ℕ} :
    (safeLow (size axis) ≤ k ∧ k ≤ safeHigh (size axis) ∧ first.FitsIn accepts (Function.update size axis k) ∧
        second.FitsIn accepts (Function.update size axis (size axis - k))) ↔
      max a (safeLow (size axis)) ≤ k ∧ k ≤ min (size axis - b) (safeHigh (size axis)) :=
  exists_offset_iff h₁ h₂ (fun _ _ hle h => h.mono haccepts (update_le_update_iff.mpr ⟨hle, fun _ _ => le_rfl⟩))
    fun _ _ hle h => h.mono haccepts (update_le_update_iff.mpr ⟨hle, fun _ _ => le_rfl⟩)

theorem Denotes.unique {F : Type} [Float64 F] {nodes : DwindleArena F} {p p' : Option DwindleNodeId}
    {S S' : Topology F} (h : Denotes nodes p S) (h' : Denotes nodes p' S') (hid : S.id = S'.id) : S = S' := by
  induction S generalizing p p' S' with
  | leaf id window =>
    cases S' with
    | leaf id' window' =>
      obtain rfl : id = id' := hid
      have heq := Option.some.inj ((show nodes.get id = _ from h).symm.trans h')
      simp only [DwindleNode.mk.injEq, DwindleNodeKind.leaf.injEq] at heq
      rw [heq.2]
    | split id' axis ratio first second =>
      obtain rfl : id = id' := hid
      have heq := (show nodes.get id = _ from h).symm.trans h'.1
      simp at heq
  | split id axis ratio first second ih₁ ih₂ =>
    cases S' with
    | leaf id' window' =>
      obtain rfl : id = id' := hid
      have heq := h.1.symm.trans (show nodes.get id = _ from h')
      simp at heq
    | split id' axis' ratio' first' second' =>
      obtain rfl : id = id' := hid
      have heq := h.1.symm.trans h'.1
      simp only [Option.some.injEq, DwindleNode.mk.injEq, DwindleNodeKind.split.injEq] at heq
      obtain ⟨-, rfl, rfl, hid₁, hid₂⟩ := heq
      rw [ih₁ h.2.1 h'.2.1 hid₁, ih₂ h.2.2 h'.2.2 hid₂]

/-! ### Queries -/

section Queries
variable {ctx : SolveContext ℚ} {accepts : WindowId → Size → Prop}

def Coherent (ctx : SolveContext ℚ) (accepts : WindowId → Size → Prop) (s : Feasibility) : Prop :=
  ∀ ⦃axis id cross v⦄, (s.cache axis).lookup (id, cross) = some v →
    ∀ ⦃S : Topology ℚ⦄ ⦃parent⦄, Denotes ctx.tree.nodes parent S → S.id = id →
      IsLeast {m | 1 ≤ m ∧ S.FitsIn accepts (sized axis m cross)} v

theorem coherent_new : Coherent ctx accepts Feasibility.new := by
  intro axis id cross v h
  exact absurd h (by simp [Feasibility.new])

variable {axis : SplitAxis} {parent : Option DwindleNodeId} {S : Topology ℚ}

theorem Coherent.insert {s : Feasibility} (hs : Coherent ctx accepts s)
    (hden : Denotes ctx.tree.nodes parent S) {cross v : ℕ}
    (hv : IsLeast {m | 1 ≤ m ∧ S.FitsIn accepts (sized axis m cross)} v) : Coherent ctx accepts
      { s with cache := Function.update s.cache axis ((s.cache axis).insert (S.id, cross) v) } := by
  intro axis' id' cross' v' hlook S' parent' hden' hid'
  by_cases ha : axis' = axis
  · subst ha
    simp only [Function.update_self, HashMap.lookup_insert] at hlook
    split_ifs at hlook with hkey
    · obtain ⟨rfl, rfl⟩ := Prod.mk.injEq .. ▸ hkey
      obtain rfl := Option.some.inj hlook
      rw [hden'.unique hden hid']
      exact hv
    · exact hs hlook hden' hid'
  · simp only [Function.update_of_ne ha] at hlook
    exact hs hlook hden' hid'

variable {fit : DwindleNodeId → LayoutRect → RunS Feasibility LayoutError Bool}

theorem minimumExtent_sound (haccepts : ∀ window, Monotone (accepts window)) {cross cap : ℕ}
    (hden : Denotes ctx.tree.nodes parent S) (hpos : 1 ≤ cap) (hmax : cap ≤ 4294967295)
    (hfit : ∀ m, 1 ≤ m → m ≤ cap → Sound (Coherent ctx accepts) (fit S.id (rectWithSize axis m cross))
      fun b => b = true ↔ S.FitsIn accepts (sized axis m cross)) :
    Sound (Coherent ctx accepts) (minimumExtent fit axis S.id cross cap)
      (LeastUpTo (fun m => S.FitsIn accepts (sized axis m cross)) cap) := by
  intro s r s' hs hrun
  have hmono : ∀ m m', m ≤ m' → S.FitsIn accepts (sized axis m cross) → S.FitsIn accepts (sized axis m' cross) :=
    fun m m' hle h => h.mono haccepts (sized_mono hle)
  rw [minimumExtent, StateT.run_bind, StateT.run_get, pure_bind] at hrun
  -- only least extents are cached, whatever the cap they were found under
  cases hlook : (s.cache axis).lookup (S.id, cross) with
  | some value =>
    simp only [hlook] at hrun
    obtain ⟨⟨hv, hfits⟩, hleast⟩ := hs hlook hden rfl
    cases hrun
    refine ⟨hs, ?_⟩
    split_ifs with hle
    · exact ⟨hv, hle, hfits, fun m hm hlt h => absurd (hleast ⟨hm, h⟩) (by omega)⟩
    · exact fun m hm hmcap h => hle ((hleast ⟨hm, h⟩).trans hmcap)
  | none =>
    simp only [hlook, max_eq_left hpos] at hrun
    refine Sound.bind (bisect_sound (fun m h₁ h₂ => hfit m h₁ h₂.le) (fun m m' _ hle _ => hmono m m' hle) hpos hmax
      le_rfl) (fun low hlow => ?_) hs hrun
    obtain ⟨hlow₁, hlow₂, hbelow, hend⟩ := hlow
    refine (hfit low hlow₁ hlow₂).bind fun b hb => ?_
    cases b with
    | true =>
      have hP := hb.mp rfl
      rw [if_pos rfl]
      have hleast : IsLeast {m | 1 ≤ m ∧ S.FitsIn accepts (sized axis m cross)} low :=
        ⟨⟨hlow₁, hP⟩, fun m hm => not_lt.mp fun hlt => hbelow m hm.1 hlt hm.2⟩
      exact (sound_modify fun s hs => hs.insert hden hleast).bind fun _ _ =>
        sound_pure ⟨hlow₁, hlow₂, hP, hbelow⟩
    | false =>
      have hP : ¬ S.FitsIn accepts (sized axis low cross) := by simpa using hb
      obtain rfl : low = cap := by
        by_contra hne
        exact hP (hend (by omega))
      rw [if_neg (by simp)]
      refine sound_pure fun m hm hmcap h => ?_
      exact hP (hmono m low hmcap h)

def exactLimits (accepts : WindowId → Size → Prop) : Limits ℚ := fun axis first second rect pair =>
  ∃ a b, LeastUpTo (fun m => first.FitsIn accepts (Function.update rect.size axis m)) (rect.size axis) (some a) ∧
    LeastUpTo (fun m => second.FitsIn accepts (Function.update rect.size axis m)) (rect.size axis) (some b) ∧
    max a (safeLow (rect.size axis)) ≤ min (rect.size axis - b) (safeHigh (rect.size axis)) ∧
    Offsets rect axis pair (max a (safeLow (rect.size axis))) (min (rect.size axis - b) (safeHigh (rect.size axis)))

variable {rect : LayoutRect}

theorem range_limits (hedge : rect.EdgeFits axis)
    (hsize : rect.size axis ≤ 2147483647) {low high : SplitRatio ℚ} (hlow : low.value = 1 / 20)
    (hhigh : high.value = 19 / 20) {limits : I32 × I32} {a c : ℕ} (h : Offsets rect axis limits a c) :
    (I32.max limits.1 (I32.max (rect.splitBoundary axis low)
        ((rect.origin axis).saturatingAdd ⟨1, by decide⟩))).val =
        (rect.origin axis).val + (max a (safeLow (rect.size axis)) : ℕ) ∧
      (I32.min limits.2 (I32.min (rect.splitBoundary axis high) ((rect.origin axis).saturatingAdd
        ((rect.extent axis).toI32.saturatingSub ⟨1, by decide⟩)))).val =
        (rect.origin axis).val + (min c (safeHigh (rect.size axis)) : ℕ) := by
  have hfar : (rect.origin axis).val + rect.size axis ≤ 2147483647 := hedge
  have hpos := rect.size_pos axis
  have := (rect.origin axis).property
  simp only [I32.max_val, I32.min_val, splitBoundary_val hedge, hlow, hhigh, round_low, round_high, h.low, h.high,
    I32.saturatingAdd, I32.saturatingSub, I32.sat_val, U32.toI32_val, safeLow, safeHigh]
  unfold LayoutRect.size at *
  omega

theorem safeRatio_sound {inv : Feasibility → Prop} {value : ℚ} :
    Sound inv (liftM (safeRatio value : Run LayoutError (SplitRatio ℚ)) : RunS Feasibility LayoutError _)
      fun ratio => ratio.value = value := by
  refine sound_lift fun ratio h => ?_
  rw [safeRatio, Run.expect_eq_ok, SplitRatio.new] at h
  split_ifs at h
  rw [← Option.some.inj h]

theorem feasibleBoundaryRange_sound {minimum : SplitAxis → DwindleNodeId → ℕ → ℕ →
      RunS Feasibility LayoutError (Option ℕ)} {first second : Topology ℚ}
    (haccepts : ∀ window, Monotone (accepts window))
    (hedge : rect.EdgeFits axis) (hsize : rect.size axis ≤ 2147483647)
    (hmin : ∀ S ∈ [first, second], Sound (Coherent ctx accepts)
      (minimum axis S.id (rect.cross axis).val (rect.extent axis).val)
      (LeastUpTo (fun m => S.FitsIn accepts (Function.update rect.size axis m)) (rect.size axis))) :
    Sound (Coherent ctx accepts) (feasibleBoundaryRange ℚ minimum axis first.id second.id rect) fun r =>
      (∀ pair, r = some pair → exactLimits accepts axis first second rect pair) ∧
      (r.isSome = true ↔ ∃ k, safeLow (rect.size axis) ≤ k ∧ k ≤ safeHigh (rect.size axis) ∧
        first.FitsIn accepts (Function.update rect.size axis k) ∧
        second.FitsIn accepts (Function.update rect.size axis (rect.size axis - k))) := by
  have hroom : rect.room axis = rect.size axis := min_eq_left hsize
  rw [feasibleBoundaryRange]
  refine (hmin first (by simp)).bind fun ma ha => (hmin second (by simp)).bind fun mb hb => ?_
  have hnone : ma = none ∨ mb = none → ¬ ∃ k, safeLow (rect.size axis) ≤ k ∧ k ≤ safeHigh (rect.size axis) ∧
      first.FitsIn accepts (Function.update rect.size axis k) ∧
      second.FitsIn accepts (Function.update rect.size axis (rect.size axis - k)) := by
    rintro h ⟨k, hlow, hhigh, h₁, h₂⟩
    have hk : 1 ≤ k ∧ k < rect.size axis := by unfold safeLow safeHigh at *; omega
    obtain rfl | rfl := h
    · exact ha k hk.1 hk.2.le h₁
    · exact hb (rect.size axis - k) (by omega) (by omega) h₂
  cases ma with
  | none => exact sound_pure ⟨fun _ h => by simp at h, by simpa using hnone (.inl rfl)⟩
  | some a =>
    cases mb with
    | none => exact sound_pure ⟨fun _ h => by simp at h, by simpa using hnone (.inr rfl)⟩
    | some b =>
      refine safeRatio_sound.bind fun low hlow => safeRatio_sound.bind fun high hhigh => sound_pure ?_
      have hoff := boundaryLimits_offsets hedge (hroom ▸ ha.2.1) (hroom ▸ hb.2.1)
      rw [hroom] at hoff
      obtain ⟨hmin, hmax⟩ := range_limits hedge hsize hlow hhigh hoff
      have hlimits := fun k => Topology.fits_offset_iff haccepts ha hb (k := k)
      have hle₁ := ha.2.1
      split_ifs with hle <;> rw [hmin, hmax] at hle
      · refine ⟨?_, ?_⟩
        · rintro pair heq
          obtain rfl := Option.some.inj heq
          exact ⟨a, b, ha, hb, by omega, hmin, hmax, by omega, by omega⟩
        · simp only [Option.isSome_some, true_iff, hlimits]
          exact ⟨_, le_rfl, by omega⟩
      · refine ⟨fun _ h => by simp at h, ?_⟩
        simp only [Option.isSome_none, Bool.false_eq_true, false_iff, hlimits]
        rintro ⟨k, hk₁, hk₂⟩
        omega

structure Surveyed (bound : Size) (T : Topology ℚ) (rect : LayoutRect) : Prop where
  size_le : rect.size ≤ bound
  edge : ∀ axis, T.SplitsAlong axis → rect.EdgeFits axis ∧ rect.size axis ≤ 2147483647

namespace Surveyed
variable {bound : Size} {id : DwindleNodeId} {axis : SplitAxis} {ratio : SplitRatio ℚ} {S S' : Topology ℚ}
  {rect : LayoutRect}

theorem first (h : Surveyed bound (.split id axis ratio S S') rect) : Surveyed bound S rect :=
  ⟨h.size_le, fun a ha => h.edge a (.inr (.inl ha))⟩

theorem second (h : Surveyed bound (.split id axis ratio S S') rect) : Surveyed bound S' rect :=
  ⟨h.size_le, fun a ha => h.edge a (.inr (.inr ha))⟩

theorem shrink {rect' : LayoutRect} (h : Surveyed bound S rect) (hsize : rect'.size ≤ rect.size)
    (hedge : ∀ a, rect.EdgeFits a → rect.size a ≤ 2147483647 → rect'.EdgeFits a) : Surveyed bound S rect' :=
  ⟨hsize.trans h.size_le, fun a ha =>
    ⟨hedge a (h.edge a ha).1 (h.edge a ha).2, (hsize a).trans (h.edge a ha).2⟩⟩

theorem probe (h : Surveyed bound S rect) {m : ℕ} (hm : 1 ≤ m) (hle : m ≤ rect.size axis) :
    Surveyed bound S (rectWithSize axis m (rect.cross axis).val) := by
  have hsmall := rect.probe_le hm hle
  refine h.shrink hsmall fun a _ ha => ?_
  have hle' : (rectWithSize axis m (rect.cross axis).val).size a ≤ rect.size a := hsmall a
  rw [LayoutRect.EdgeFits, LayoutRect.origin_rectWithSize]
  omega

theorem halves {preferred : SplitRatio ℚ} {pair : I32 × I32} {r₁ r₂ : LayoutRect}
    (h : Surveyed bound (.split id axis ratio S S') rect) (hs : SplitsInto axis preferred pair rect r₁ r₂) :
    Surveyed bound S r₁ ∧ Surveyed bound S' r₂ := by
  obtain ⟨-, k, -, -, -, -, hlt, hsplit⟩ := hs.exists_halves (h.edge axis (.inl rfl)).1
  obtain ⟨hle₁, hle₂⟩ := hsplit.size_le hlt
  exact ⟨h.first.shrink hle₁ fun a ha _ => hsplit.edge₁ a ha, h.second.shrink hle₂ fun a ha _ => hsplit.edge₂ a ha⟩

theorem handedDown (limits : Limits ℚ) : HandedDown (Surveyed bound) limits :=
  ⟨fun _ _ _ _ _ _ h => h.first, fun _ _ _ _ _ _ h => h.second, fun _ _ _ _ _ _ _ _ _ _ h _ hs => h.halves hs⟩

end Surveyed

theorem visit_sound : Sound (Coherent ctx accepts)
    (modify fun s => { s with nodeVisits := addVisits s.nodeVisits 1 } : RunS Feasibility LayoutError PUnit)
    fun _ => True := sound_modify fun _ hs => hs

theorem minimumExtent_surveyed {bound : Size} (haccepts : ∀ window, Monotone (accepts window))
    (hden : Denotes ctx.tree.nodes parent S) (hok : Surveyed bound S rect)
    (hfit : ∀ rect', Surveyed bound S rect' → Sound (Coherent ctx accepts) (fit S.id rect')
      fun b => b = true ↔ S.FitsIn accepts rect'.size) :
    Sound (Coherent ctx accepts) (minimumExtent fit axis S.id (rect.cross axis).val (rect.extent axis).val)
      (LeastUpTo (fun m => S.FitsIn accepts (Function.update rect.size axis m)) (rect.size axis)) := by
  simp only [LayoutRect.update_size]
  refine minimumExtent_sound haccepts hden (rect.extent_pos axis) (rect.extent axis).property fun m hm hle => ?_
  rw [← LayoutRect.update_size, ← rect.probe_size hm hle]
  exact hfit _ (hok.probe hm hle)

theorem canFit_sound {bound : Size} (hexact : ctx.exact = true) (haccepts : ∀ window, Monotone (accepts window))
    (hleaf : ∀ window rect b, rect.size ≤ bound → leafFits ctx window rect = .ok b →
      (b = true ↔ accepts window rect.size))
    {T : Topology ℚ} {depth : ℕ} (hden : Denotes ctx.tree.nodes parent T) (hok : Surveyed bound T rect) :
    Sound (Coherent ctx accepts) (canFit ctx depth T.id rect) fun b => b = true ↔ T.FitsIn accepts rect.size := by
  induction T generalizing parent depth rect with
  | leaf id window =>
    cases depth with
    | zero => exact fun s b s' _ hrun => by simp [canFit, Run.diverge] at hrun
    | succ depth =>
      rw [Topology.id_leaf, canFit_kind hden.nodeKind_leaf]
      exact visit_sound.bind fun _ _ => sound_lift fun b hb => hleaf window rect b hok.size_le hb
  | split id axis ratio first second ih₁ ih₂ =>
    cases depth with
    | zero => exact fun s b s' _ hrun => by simp [canFit, Run.diverge] at hrun
    | succ depth =>
      obtain ⟨hedge, hsize⟩ := hok.edge axis (.inl rfl)
      have hmin : ∀ S ∈ [first, second], Sound (Coherent ctx accepts)
          (minimumExtent (canFit ctx depth) axis S.id (rect.cross axis).val (rect.extent axis).val)
          (LeastUpTo (fun m => S.FitsIn accepts (Function.update rect.size axis m)) (rect.size axis)) := by
        intro S hS
        rw [List.mem_pair] at hS
        obtain rfl | rfl := hS
        · exact minimumExtent_surveyed haccepts hden.2.1 hok.first fun _ h => ih₁ hden.2.1 h
        · exact minimumExtent_surveyed haccepts hden.2.2 hok.second fun _ h => ih₂ hden.2.2 h
      rw [Topology.id_split, canFit_kind hden.nodeKind_split]
      simp only [hexact, Bool.not_true, Bool.false_eq_true, if_false]
      refine visit_sound.bind fun _ _ => ?_
      exact (feasibleBoundaryRange_sound haccepts hedge hsize hmin).bind fun r hr => sound_pure hr.2

/-! ### Every query returns -/

theorem minimumExtent_returns {id : DwindleNodeId} {cross cap : ℕ} (hpos : 1 ≤ cap) (hmax : cap ≤ 4294967295)
    (hfit : ∀ m, 1 ≤ m → m ≤ cap → Query.Returns (fit id (rectWithSize axis m cross)) fun _ => True) :
    Query.Returns (minimumExtent fit axis id cross cap) fun _ => True := by
  rw [minimumExtent]
  refine returns_get.bind fun s _ => ?_
  cases (s.cache axis).lookup (id, cross) with
  | some value => exact returns_pure trivial
  | none =>
    simp only [max_eq_left hpos]
    refine (bisect_returns (fun m h₁ h₂ => hfit m h₁ h₂.le) hpos hmax).bind fun low hlow => ?_
    refine (hfit low hlow.1 hlow.2).bind fun b _ => ?_
    split_ifs
    · exact (returns_modify _).bind fun _ _ => returns_pure trivial
    · exact returns_pure trivial

section Lawful
variable {F : Type} [Float64 F] [LawfulFloat64 F]

omit [LawfulFloat64 F] in
theorem safeRatio_returns {value : F} (h : SplitRatio.accepts value = true) :
    Query.Returns (liftM (safeRatio value : Run LayoutError (SplitRatio F)) : RunS Feasibility LayoutError _)
      fun _ => True :=
  returns_lift ⟨_, Run.expect_eq_ok.mpr (SplitRatio.new_of_accepts h), trivial⟩

theorem feasibleBoundaryRange_returns {minimum : SplitAxis → DwindleNodeId → ℕ → ℕ →
      RunS Feasibility LayoutError (Option ℕ)} {first second : DwindleNodeId}
    (hmin : ∀ id ∈ [first, second], Query.Returns (minimum axis id (rect.cross axis).val (rect.extent axis).val)
      fun _ => True) :
    Query.Returns (feasibleBoundaryRange F minimum axis first second rect) fun r =>
      ∀ pair, r = some pair → rect.EdgeFits axis → Inside rect axis pair := by
  rw [feasibleBoundaryRange]
  refine (hmin first (by simp)).bind fun a _ => (hmin second (by simp)).bind fun b _ => ?_
  rcases a with - | a <;> rcases b with - | b
  · exact returns_pure fun _ h => by simp at h
  · exact returns_pure fun _ h => by simp at h
  · exact returns_pure fun _ h => by simp at h
  · refine (safeRatio_returns SplitRatio.accepts_ends.1).bind fun low _ =>
      (safeRatio_returns SplitRatio.accepts_ends.2).bind fun high _ => returns_pure ?_
    intro pair hpair hedge
    have hfar : (rect.origin axis).val + rect.size axis ≤ 2147483647 := hedge
    have hpos := rect.size_pos axis
    have := (rect.origin axis).property
    split_ifs at hpair with hle
    obtain rfl := Option.some.inj hpair
    unfold LayoutRect.size at hfar hpos
    constructor
    · simp only [I32.max_val, I32.saturatingAdd, I32.sat_val]
      omega
    · simp only [I32.min_val, I32.saturatingAdd, I32.saturatingSub, I32.sat_val, U32.toI32_val, LayoutRect.room,
        LayoutRect.size]
      omega

theorem canFit_returns {ctx : SolveContext F} {bound : Size} {T : Topology F} {depth : ℕ}
    (hden : Denotes ctx.tree.nodes parent T) (hdepth : T.height ≤ depth)
    (hleaf : ∀ window ∈ T.windows, ∀ r : LayoutRect, r.size ≤ bound → ∃ b, leafFits ctx window r = .ok b)
    (hsize : rect.size ≤ bound) : Query.Returns (canFit ctx depth T.id rect) fun _ => True := by
  induction T generalizing parent depth rect with
  | leaf id window =>
    obtain ⟨depth, rfl⟩ := Topology.exists_depth hdepth
    obtain ⟨b, hb⟩ := hleaf window (by simp [Topology.windows]) rect hsize
    rw [Topology.id_leaf, canFit_kind hden.nodeKind_leaf]
    exact (returns_modify _).bind fun _ _ => returns_lift ⟨b, hb, trivial⟩
  | split id axis ratio first second ih₁ ih₂ =>
    obtain ⟨depth, rfl, hsides⟩ := Topology.exists_depth_split hdepth
    rw [Topology.id_split, canFit_kind hden.nodeKind_split]
    refine (returns_modify _).bind fun _ _ => ?_
    split_ifs
    · exact returns_pure trivial
    refine (feasibleBoundaryRange_returns fun i hi => ?_).bind fun _ _ => returns_pure trivial
    refine minimumExtent_returns (rect.extent_pos axis) (rect.extent axis).property fun m hm hle => ?_
    have hprobe := (rect.probe_le hm hle).trans hsize
    rw [List.mem_pair] at hi
    obtain rfl | rfl := hi
    · exact ih₁ hden.2.1 hsides.1 (fun w hw => hleaf w (by simp [Topology.windows, hw])) hprobe
    · exact ih₂ hden.2.2 hsides.2 (fun w hw => hleaf w (by simp [Topology.windows, hw])) hprobe

end Lawful

end Queries

end Typhon.Layout
