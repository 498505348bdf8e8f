import Typhon.Layout.Lattice

/-! The size of an interactive resize, one dimension at a time, against the lattice of legal sizes that tiling uses. -/

namespace Typhon.Layout
open Foundation

def minWindowWidth : U32 := ⟨160, by decide⟩

section hints
variable (requested : U32) (min max base increment : Option U32) (fallbackMin : U32)

def fixedDimension : Option ℕ :=
  match min, max with
  | some min, some max => if min = max then some min.val else none
  | _, _ => none

def lowerDimension : ℕ :=
  ((min.or base).map Subtype.val).getD (if max.isNone then fallbackMin.val else 1)

def constrainIcccmDimension : ℕ :=
  match fixedDimension min max with
  | some fixed => Max.max fixed 1
  | none =>
    let lower := lowerDimension min max base fallbackMin
    let upper := Max.max ((max.map Subtype.val).getD 4294967295) lower
    let requested := Min.min (Max.max requested.val lower) upper
    match increment.filter fun increment => 0 < increment.val with
    | none => requested
    | some increment =>
      let anchor := Min.min ((base.map Subtype.val).getD lower) upper
      let steps := (requested - anchor) / increment.val
      -- `saturating_mul`, then `saturating_add`
      let aligned := Min.min (anchor + Min.min (steps * increment.val) 4294967295) 4294967295
      Min.min (Max.max aligned lower) upper

end hints

namespace LegalDimensionLattice
variable {l : LegalDimensionLattice} {min max base increment : Option U32} {first value : ℕ}

theorem new_eq_some (h : new min max base increment = some l) :
    l.lower = Max.max ((min.map Subtype.val).getD 1) ((base.map Subtype.val).getD 0) ∧
      l.upper = (max.map Subtype.val).getD 4294967295 ∧ l.anchor = (base.map Subtype.val).getD l.lower ∧
      l.step = ((increment.filter fun step => 0 < step.val).map Subtype.val).getD 1 := by
  unfold new at h
  dsimp only at h
  split at h
  · cases h
    refine ⟨rfl, ?_, rfl, ?_⟩
    · cases max <;> rfl
    · dsimp only
      cases increment.filter fun step => 0 < step.val <;> rfl
  · cases h

theorem first_le (h : l.first = some first) (hvalue : l.contains value = true) : first ≤ value :=
  (alignUp_eq_some h).2.2 value hvalue (contains_iff.mp hvalue).1

theorem contains_max_down {lower : ℕ} (h : l.first = some first) (hanchor : l.anchor ≤ value) (hupper : value ≤ l.upper)
    (hlower : lower ≤ l.lower) (hle : lower ≤ value) :
    l.contains (Max.max (l.anchor + (value - l.anchor) / l.step * l.step) lower) = true ↔ first ≤ value := by
  have hdown := Nat.div_mul_le_self (value - l.anchor) l.step
  constructor
  · intro hmem
    have := first_le h hmem
    omega
  · intro hfirst
    obtain ⟨hmem, -, -⟩ := alignUp_eq_some h
    obtain ⟨hlow, -, k, rfl⟩ := contains_iff.mp hmem
    have hk : k ≤ (value - l.anchor) / l.step := by
      rw [Nat.le_div_iff_mul_le l.step_pos]
      omega
    have hsteps := Nat.mul_le_mul_right l.step hk
    rw [max_eq_left (by omega)]
    exact contains_iff.mpr ⟨by omega, by omega, _, rfl⟩

end LegalDimensionLattice

/-- When the resize lands on a legal size. -/
def ResizeAgrees (requested : U32) (min max base increment : Option U32) (fallbackMin : U32) (first : ℕ) : Prop :=
  match fixedDimension min max with
  | some fixed => fixed ≠ 0
  | none =>
    ((increment.filter fun increment => 0 < increment.val).isSome = true ∧
      ∃ m ∈ min, ∃ b ∈ base, m.val < b.val) ∨
    first ≤ Max.max requested.val (lowerDimension min max base fallbackMin) ∧
      (min = none → max = none → base = none → ∀ step ∈ increment, (step.val : ℤ) ∣ fallbackMin.val - 1 ∨ step.val = 0)

section agreement
open LegalDimensionLattice
variable {l : LegalDimensionLattice} {requested fallbackMin : U32} {min max base increment : Option U32} {first : ℕ}

theorem fixed_size_legal {fixed : ℕ} (hl : new min max base increment = some l) (hfirst : l.first = some first)
    (hfixed : fixedDimension min max = some fixed) : l.contains (Max.max fixed 1) = true ↔ fixed ≠ 0 := by
  obtain ⟨hlower, hupper, -, -⟩ := new_eq_some hl
  obtain ⟨hmem, -, -⟩ := alignUp_eq_some hfirst
  obtain ⟨hlow, hup, -⟩ := contains_iff.mp hmem
  cases min with
  | none => cases hfixed
  | some m =>
    cases max with
    | none => cases hfixed
    | some m' =>
      unfold fixedDimension at hfixed
      dsimp only at hfixed
      split at hfixed
      · rename_i heq
        cases hfixed
        subst heq
        simp only [Option.map_some, Option.getD_some] at hlower hupper
        -- the bounds leave one size
        have hsize : first = m.val := by omega
        constructor
        · intro hone hzero
          have := (contains_iff.mp hone).2.1
          omega
        · intro hpos
          rw [max_eq_left (by omega), ← hsize]
          exact hmem
      · cases hfixed

theorem lowerDimension_le (hl : new min max base increment = some l)
    (hhint : min ≠ none ∨ max ≠ none ∨ base ≠ none) : lowerDimension min max base fallbackMin ≤ l.lower := by
  obtain ⟨hlower, -, -, -⟩ := new_eq_some hl
  rw [hlower]
  unfold lowerDimension
  cases min with
  | some m => exact le_max_left _ _
  | none =>
    cases base with
    | some b => exact le_max_right _ _
    | none =>
      cases max with
      | some m => exact le_max_left _ _
      | none => simp at hhint

theorem anchor_eq (hl : new min max base increment = some l) (hhint : min ≠ none ∨ max ≠ none ∨ base ≠ none) :
    (base.map Subtype.val).getD (lowerDimension min max base fallbackMin) = l.anchor := by
  obtain ⟨hlower, -, hanchor, -⟩ := new_eq_some hl
  rw [hanchor]
  cases base with
  | some b => rfl
  | none =>
    rw [Option.map_none, Option.getD_none, Option.getD_none, hlower]
    unfold lowerDimension
    cases min with
    | some m => simp
    | none =>
      cases max with
      | some m => simp
      | none => simp at hhint

theorem anchor_le_lowerDimension (hl : new min max base increment = some l)
    (hhint : min ≠ none ∨ max ≠ none ∨ base ≠ none) (hbase : ¬∃ m ∈ min, ∃ b ∈ base, m.val < b.val) :
    l.anchor ≤ lowerDimension min max base fallbackMin := by
  have hanchor : (base.map Subtype.val).getD (lowerDimension min max base fallbackMin) = l.anchor := anchor_eq hl hhint
  rw [← hanchor]
  cases base with
  | none => exact le_refl _
  | some b =>
    unfold lowerDimension
    cases min with
    | none => exact le_refl _
    | some m => exact Nat.le_of_not_lt fun hlt => hbase ⟨m, rfl, b, rfl, hlt⟩

theorem lower_eq_anchor (hl : new min max base increment = some l) (hbase : ∃ m ∈ min, ∃ b ∈ base, m.val < b.val) :
    l.lower = l.anchor ∧ lowerDimension min max base fallbackMin ≤ l.anchor := by
  obtain ⟨hlower, -, hanchor, -⟩ := new_eq_some hl
  obtain ⟨m, hm, b, hb, hlt⟩ := hbase
  obtain rfl := Option.mem_def.mp hm
  obtain rfl := Option.mem_def.mp hb
  simp only [Option.map_some, Option.getD_some] at hlower hanchor
  refine ⟨by omega, ?_⟩
  rw [hanchor]
  exact hlt.le

theorem dvd_add_mul_right_iff (steps lower i : ℕ) :
    (i : ℤ) ∣ (lower + steps / i * i : ℕ) - 1 ↔ (i : ℤ) ∣ lower - 1 := by
  have hsplit : ((lower + steps / i * i : ℕ) : ℤ) - 1 = (lower - 1) + (steps / i : ℕ) * i := by
    push_cast
    ring
  rw [hsplit]
  exact (dvd_add_left (dvd_mul_left _ _))

theorem unhinted_size_legal (hl : new none none none increment = some l) (hfirst : l.first = some first) :
    l.contains (constrainIcccmDimension requested none none none increment fallbackMin) = true ↔
      first ≤ Max.max requested.val fallbackMin.val ∧
        ∀ step ∈ increment, (step.val : ℤ) ∣ fallbackMin.val - 1 ∨ step.val = 0 := by
  obtain ⟨hlower, hupper, hanchor, hstep⟩ := new_eq_some hl
  simp only [Option.map_none, Option.getD_none] at hlower hupper hanchor
  replace hlower : l.lower = 1 := hlower
  have hone : first = 1 := by
    have hmem : l.contains 1 = true := contains_iff.mpr ⟨by omega, by omega, 0, by omega⟩
    have := first_le hfirst hmem
    have := (contains_iff.mp (alignUp_eq_some hfirst).1).1
    omega
  have hsizes := And.intro requested.property fallbackMin.property
  have hfree : fixedDimension none none = none := rfl
  have hbottom : lowerDimension none none none fallbackMin = fallbackMin.val := rfl
  unfold constrainIcccmDimension
  rw [hfree]
  dsimp only
  rw [hbottom, Option.map_none, Option.getD_none, Option.getD_none,
    max_eq_left (a := 4294967295) (by omega), min_eq_left (b := 4294967295) (by omega),
    min_eq_left (b := 4294967295) (by omega), hone]
  generalize hvalue : Max.max requested.val fallbackMin.val = value
  cases hincrement : increment.filter fun increment => 0 < increment.val with
  | none =>
    rw [hincrement] at hstep
    replace hstep : l.step = 1 := hstep
    have hzero : ∀ step ∈ increment, (step.val : ℤ) ∣ fallbackMin.val - 1 ∨ step.val = 0 := by
      intro step hmem
      have := Option.filter_eq_none_iff.mp hincrement step hmem
      exact .inr (by simpa using this)
    rw [and_iff_left hzero]
    dsimp only
    rw [contains_iff, hlower, hupper, hanchor, hlower, hstep]
    exact ⟨And.left, fun h => ⟨h, by omega, value - 1, by omega⟩⟩
  | some i =>
    rw [hincrement] at hstep
    replace hstep : l.step = i.val := hstep
    obtain ⟨rfl, hpos⟩ := Option.filter_eq_some_iff.mp hincrement
    have hpos : 0 < i.val := by simpa using hpos
    dsimp only
    have hdown := Nat.div_mul_le_self (value - fallbackMin.val) i.val
    rw [min_eq_left (b := 4294967295) (by omega), min_eq_left (b := 4294967295) (by omega),
      min_eq_left (b := 4294967295) (by omega), max_eq_left (by omega), contains_iff, hlower, hupper, hanchor, hlower,
      hstep]
    have hsteps : (∀ step ∈ some i, (step.val : ℤ) ∣ fallbackMin.val - 1 ∨ step.val = 0) ↔
        (i.val : ℤ) ∣ fallbackMin.val - 1 := by
      simp only [Option.mem_some_iff, forall_eq']
      exact or_iff_left (by omega)
    rw [hsteps, ← dvd_add_mul_right_iff (value - fallbackMin.val) fallbackMin.val]
    constructor
    · rintro ⟨hmem, -, k, hk⟩
      refine ⟨by omega, k, ?_⟩
      have hcast := congrArg (Nat.cast (R := ℤ)) hk
      push_cast at hcast ⊢
      linarith
    · rintro ⟨hreach, hdvd⟩
      have hmem : 1 ≤ fallbackMin.val + (value - fallbackMin.val) / i.val * i.val := by
        rcases Nat.eq_zero_or_pos fallbackMin.val with hzero | hpositive
        · -- from zero only the step one leads to the progression from one
          rw [dvd_add_mul_right_iff, hzero] at hdvd
          have hone : (i.val : ℤ) ∣ (1 : ℕ) := by simpa using hdvd
          have hunit : i.val = 1 := Nat.eq_one_of_dvd_one (Int.natCast_dvd_natCast.mp hone)
          rw [hunit, Nat.div_one, Nat.mul_one]
          omega
        · omega
      refine ⟨hmem, by omega, ?_⟩
      rw [← Nat.cast_one, ← Nat.cast_sub hmem, Int.natCast_dvd_natCast] at hdvd
      obtain ⟨k, hk⟩ := hdvd
      exact ⟨k, by rw [Nat.mul_comm k]; omega⟩

theorem hinted_size_legal (hl : new min max base increment = some l) (hfirst : l.first = some first)
    (hfree : fixedDimension min max = none) (hhint : min ≠ none ∨ max ≠ none ∨ base ≠ none) :
    l.contains (constrainIcccmDimension requested min max base increment fallbackMin) = true ↔
      ((increment.filter fun increment => 0 < increment.val).isSome = true ∧ ∃ m ∈ min, ∃ b ∈ base, m.val < b.val) ∨
      first ≤ Max.max requested.val (lowerDimension min max base fallbackMin) := by
  obtain ⟨-, hupper, -, hstep⟩ := LegalDimensionLattice.new_eq_some hl
  have hanchor : (base.map Subtype.val).getD (lowerDimension min max base fallbackMin) = l.anchor := anchor_eq hl hhint
  have hle : lowerDimension min max base fallbackMin ≤ l.lower := lowerDimension_le hl hhint
  have hmem := contains_iff.mp (alignUp_eq_some hfirst).1
  have hbounds := And.intro l.lower_le (And.intro l.anchor_le l.upper_le)
  unfold constrainIcccmDimension
  rw [hfree]
  dsimp only
  rw [← hupper, max_eq_left (a := l.upper) (by omega), hanchor, min_eq_left (a := l.anchor) (by omega)]
  generalize hlower : lowerDimension min max base fallbackMin = lower at *
  -- the request inside the bounds reaches the first member exactly when the request or the lower bound does
  have hreach : first ≤ Min.min (Max.max requested.val lower) l.upper ↔ first ≤ Max.max requested.val lower := by omega
  have hrange : lower ≤ Min.min (Max.max requested.val lower) l.upper := by omega
  have htop : Min.min (Max.max requested.val lower) l.upper ≤ l.upper := min_le_right _ _
  generalize Min.min (Max.max requested.val lower) l.upper = value at *
  cases hincrement : increment.filter fun increment => 0 < increment.val with
  | none =>
    rw [hincrement] at hstep
    have hone : l.step = 1 := hstep
    simp only [Option.isSome_none, Bool.false_eq_true, false_and, false_or]
    rw [← hreach]
    refine ⟨first_le hfirst, fun hfirst' => contains_iff.mpr ⟨by omega, htop, value - l.anchor, ?_⟩⟩
    rw [hone]
    omega
  | some i =>
    rw [hincrement] at hstep
    have hi : i.val = l.step := hstep.symm
    dsimp only
    have hdown := Nat.div_mul_le_self (value - l.anchor) l.step
    rw [hi, min_eq_left (b := 4294967295) (by omega), min_eq_left (b := 4294967295) (by omega),
      min_eq_left (b := l.upper) (by omega)]
    by_cases hbase : ∃ m ∈ min, ∃ b ∈ base, m.val < b.val
    · refine iff_of_true ?_ (.inl ⟨rfl, hbase⟩)
      have hstart : l.lower = l.anchor ∧ lowerDimension min max base fallbackMin ≤ l.anchor := lower_eq_anchor hl hbase
      rw [hlower] at hstart
      rw [max_eq_left (by omega)]
      exact contains_iff.mpr ⟨by omega, by omega, _, rfl⟩
    · have hlow : l.anchor ≤ lowerDimension min max base fallbackMin := anchor_le_lowerDimension hl hhint hbase
      rw [hlower] at hlow
      rw [contains_max_down hfirst (by omega) htop hle hrange, hreach]
      exact ⟨.inr, fun h => h.resolve_left fun h => hbase h.2⟩

theorem resize_size_legal_iff (hl : new min max base increment = some l) (hfirst : l.first = some first) :
    l.contains (constrainIcccmDimension requested min max base increment fallbackMin) = true ↔
      ResizeAgrees requested min max base increment fallbackMin first := by
  unfold ResizeAgrees
  cases hfixed : fixedDimension min max with
  | some fixed =>
    unfold constrainIcccmDimension
    rw [hfixed]
    exact fixed_size_legal hl hfirst hfixed
  | none =>
    dsimp only
    by_cases hhint : min ≠ none ∨ max ≠ none ∨ base ≠ none
    · rw [hinted_size_legal hl hfirst hfixed hhint]
      refine or_congr Iff.rfl (iff_self_and.mpr fun _ hmin hmax hbase => ?_)
      exact absurd hhint (by simp [hmin, hmax, hbase])
    · push Not at hhint
      obtain ⟨rfl, rfl, rfl⟩ := hhint
      rw [unhinted_size_legal hl hfirst]
      simp [lowerDimension]

end agreement

theorem hundred_le_max : 100 ≤ 4294967295 := by decide

def terminalLattice : LegalDimensionLattice :=
  ⟨100, 4294967295, 20, 7, hundred_le_max, by decide, by decide, by decide, by decide⟩

theorem resize_size_legal_iff_terminal :
    LegalDimensionLattice.new (some ⟨100, by decide⟩) none (some ⟨20, by decide⟩) (some ⟨7, by decide⟩) =
      some terminalLattice ∧ terminalLattice.first = some 104 ∧
    (terminalLattice.contains (constrainIcccmDimension ⟨110, by decide⟩ (some ⟨100, by decide⟩) none
        (some ⟨20, by decide⟩) (some ⟨7, by decide⟩) minWindowWidth) = true ↔
      ResizeAgrees ⟨110, by decide⟩ (some ⟨100, by decide⟩) none (some ⟨20, by decide⟩) (some ⟨7, by decide⟩)
        minWindowWidth 104) :=
  ⟨rfl, by decide, resize_size_legal_iff rfl (by decide)⟩

theorem minimum_off_grid :
    LegalDimensionLattice.new (some ⟨100, by decide⟩) none (some ⟨20, by decide⟩) (some ⟨7, by decide⟩) =
      some terminalLattice ∧ terminalLattice.contains 104 = true ∧
    constrainIcccmDimension ⟨50, by decide⟩ (some ⟨100, by decide⟩) none (some ⟨20, by decide⟩) (some ⟨7, by decide⟩)
      minWindowWidth = 100 ∧ terminalLattice.contains 100 = false :=
  ⟨rfl, by decide, by decide, by decide⟩

end Typhon.Layout
