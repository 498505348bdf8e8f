import Typhon.Surfaces.DamageJournal

/-! Publication, sampling and settlement of surface damage: every pixel that a commit damaged since the presented one is
still in the surface's damage, whatever was sampled, settled or dropped from the journal in between. -/

namespace Typhon.Surfaces.SurfaceDamage
open Foundation

/-- `RenderableSurface`: the size of its buffer, its damage, and in `mapping` the offset, size, placement, scale,
transform and viewport that a publication compares. -/
structure RenderableSurface (μ : Type) where
  bufferSize : BufferSize
  mapping : μ
  damage : RenderableSurfaceDamage
deriving DecidableEq

inductive SurfacePresentationChange where
  | advanced
  | unchanged
  | unknown
deriving DecidableEq, Repr

structure SurfaceDamageSample where
  surfaceId : ℕ
  generation : ℕ
  commit : ℕ
  change : SurfacePresentationChange
deriving DecidableEq, Repr

/-- `surfaces` holds `renderable_surfaces` and `client_cursor_surfaces`, which no surface is in both of; `tokens` are
the samples handed out so far. Nothing reads `recorded`, the commits recorded since the journal began. -/
structure SurfaceDamageState (μ : Type) where
  surfaces : HashMap ℕ (RenderableSurface μ) := ∅
  journals : HashMap ℕ SurfaceDamageJournal := ∅
  presentedCommits : HashMap ℕ ℕ := ∅
  presentedGenerations : HashMap ℕ ℕ := ∅
  generations : HashMap ℕ ℕ := ∅
  nextSurfaceId : ℕ := 0
  nextGeneration : ℕ := 0
  tokens : List (List SurfaceDamageSample) := []
  recorded : ℕ → List Recorded := fun _ => []

namespace SurfaceDamageState
open SurfaceDamageJournal RenderableSurfaceDamage
variable {μ : Type}

def allocateSurfaceId (s : SurfaceDamageState μ) : SurfaceDamageState μ :=
  let surfaceId := max (min (s.nextSurfaceId + 1) U32.top) 1
  { s with
    nextSurfaceId := surfaceId
    nextGeneration := s.nextGeneration + 1
    generations := s.generations.insert surfaceId (s.nextGeneration + 1) }

def unregisterSurfaceResource (s : SurfaceDamageState μ) (surfaceId : ℕ) : SurfaceDamageState μ :=
  { s with
    surfaces := s.surfaces.erase surfaceId
    journals := s.journals.erase surfaceId
    presentedCommits := s.presentedCommits.erase surfaceId
    presentedGenerations := s.presentedGenerations.erase surfaceId
    generations := s.generations.erase surfaceId
    recorded := Function.update s.recorded surfaceId [] }

def unmapSurfaceContent (s : SurfaceDamageState μ) (surfaceId : ℕ) : SurfaceDamageState μ :=
  { s with surfaces := s.surfaces.erase surfaceId }

def recordSurfaceDamageCommitAt (s : SurfaceDamageState μ) (surfaceId : ℕ) (commitSequence : Option ℕ)
    (damage : RenderableSurfaceDamage) (size : BufferSize) : SurfaceDamageState μ :=
  { s with
    journals := s.journals.insert surfaceId
      (((s.journals.lookup surfaceId).getD (.new 64)).recordWithSequence commitSequence damage size.width size.height) }

def remember (s : SurfaceDamageState μ) (surfaceId : ℕ) (damage : RenderableSurfaceDamage) : SurfaceDamageState μ :=
  let commit := ((s.journals.lookup surfaceId).map (·.currentCommit)).getD 0
  { s with recorded := Function.update s.recorded surfaceId (s.recorded surfaceId ++ [⟨commit, damage⟩]) }

def publish (s : SurfaceDamageState μ) (surfaceId : ℕ) (surface : RenderableSurface μ) (commitSequence : Option ℕ)
    (journalDamage asked : RenderableSurfaceDamage) : SurfaceDamageState μ :=
  ({ s with surfaces := s.surfaces.insert surfaceId surface }.recordSurfaceDamageCommitAt surfaceId commitSequence
    journalDamage surface.bufferSize).remember surfaceId asked

def commitSurfaceBuffer [DecidableEq μ] (s : SurfaceDamageState μ) (surfaceId commitSequence : ℕ)
    (bufferSize : BufferSize) (mapping : μ) (damage : RenderableSurfaceDamage) : SurfaceDamageState μ :=
  match s.surfaces.lookup surfaceId with
  | some existing =>
    let visualMappingChanged := existing.bufferSize ≠ bufferSize ∨ existing.mapping ≠ mapping
    let committedDamage :=
      if visualMappingChanged then .full else damage.normalizedForSurface bufferSize.width bufferSize.height
    s.publish surfaceId
      ⟨bufferSize, mapping, existing.damage.union committedDamage bufferSize.width bufferSize.height⟩
      (some commitSequence) committedDamage (if visualMappingChanged then .full else damage)
  | none => s.publish surfaceId ⟨bufferSize, mapping, .full⟩ (some commitSequence) .full .full

def publishWhole (s : SurfaceDamageState μ) (surfaceId : ℕ) (commitSequence : Option ℕ) (bufferSize : BufferSize)
    (mapping : μ) : SurfaceDamageState μ :=
  s.publish surfaceId ⟨bufferSize, mapping, .full⟩ commitSequence .full .full

def commitSurfaceMappingOnly (s : SurfaceDamageState μ) (surfaceId commitSequence : ℕ)
    (damage : Option RenderableSurfaceDamage) (promoted : Bool) (bufferSize : BufferSize) (mapping : μ) :
    SurfaceDamageState μ :=
  if damage = none ∧ promoted = false then s
  else
    match s.surfaces.lookup surfaceId with
    | none => s
    | some existing =>
      let asked := if promoted ∨ existing.bufferSize ≠ bufferSize then .full else damage.getD .empty
      let journalDamage :=
        if existing.bufferSize = bufferSize then asked.normalizedForSurface bufferSize.width bufferSize.height
        else .full
      s.publish surfaceId
        ⟨existing.bufferSize, mapping,
          existing.damage.union journalDamage existing.bufferSize.width existing.bufferSize.height⟩
        (some commitSequence) journalDamage asked

def presentationChange (s : SurfaceDamageState μ) (surfaceId generation commit : ℕ) : SurfacePresentationChange :=
  match s.presentedGenerations.lookup surfaceId, s.presentedCommits.lookup surfaceId with
  | some presentedGeneration, some presentedCommit =>
    if presentedGeneration = generation ∧ presentedCommit < commit then .advanced
    else if presentedGeneration = generation ∧ commit = presentedCommit then .unchanged
    else .unknown
  | _, _ => .unknown

def sampledCommit (journal : SurfaceDamageJournal) : Option ℕ → Option ℕ
  | some commitSequence => journal.commitCounterForSequence commitSequence
  | none => some journal.currentCommit

def damageSample (s : SurfaceDamageState μ) (surfaceId : ℕ) (commitSequence : Option ℕ) :
    Option SurfaceDamageSample := do
  let generation ← s.generations.lookup surfaceId
  let journal ← s.journals.lookup surfaceId
  let commit ← sampledCommit journal commitSequence
  return ⟨surfaceId, generation, commit, s.presentationChange surfaceId generation commit⟩

def appendSurfaceDamageSample (s : SurfaceDamageState μ) (acc : Finset ℕ × List SurfaceDamageSample)
    (target : ℕ × Option ℕ) : Finset ℕ × List SurfaceDamageSample :=
  if target.1 ∈ acc.1 then acc else (insert target.1 acc.1, acc.2 ++ (s.damageSample target.1 target.2).toList)

def captureSurfaceDamagePresentation (s : SurfaceDamageState μ) (surfaceIds : List ℕ) (exactCommit : Option (ℕ × ℕ)) :
    List SurfaceDamageSample :=
  let targets := (exactCommit.map fun (surfaceId, commitSequence) => (surfaceId, some commitSequence)).toList ++
    surfaceIds.map fun surfaceId => (surfaceId, none)
  (targets.foldl s.appendSurfaceDamageSample (∅, [])).2

def settleSample (s : SurfaceDamageState μ) (sample : SurfaceDamageSample) : SurfaceDamageState μ :=
  if s.generations.lookup sample.surfaceId ≠ some sample.generation then s
  else
    match s.journals.lookup sample.surfaceId with
    | none => s
    | some journal =>
      if (s.presentedCommits.lookup sample.surfaceId).any fun presented => sample.commit < presented then s
      else
        let s := { s with
          presentedCommits := s.presentedCommits.insert sample.surfaceId sample.commit
          presentedGenerations := s.presentedGenerations.insert sample.surfaceId sample.generation }
        match s.surfaces.lookup sample.surfaceId with
        | none => s
        | some surface =>
          let since := journal.damageSince sample.commit surface.bufferSize.width surface.bufferSize.height
          { s with surfaces := s.surfaces.insert sample.surfaceId { surface with damage := since.damage } }

def settleSurfaceDamage (s : SurfaceDamageState μ) (token : List SurfaceDamageSample) : SurfaceDamageState μ :=
  token.foldl settleSample s

inductive SurfaceDamageSettlement where
  | presented
  | noVisualChange
deriving DecidableEq, Repr

inductive Event (μ : Type) where
  | create
  | destroy (surfaceId : ℕ)
  | unmap (surfaceId : ℕ)
  | commitBuffer (surfaceId commitSequence : ℕ) (bufferSize : BufferSize) (mapping : μ)
      (damage : RenderableSurfaceDamage)
  | commitWhole (surfaceId : ℕ) (commitSequence : Option ℕ) (bufferSize : BufferSize) (mapping : μ)
  | commitMapping (surfaceId commitSequence : ℕ) (damage : Option RenderableSurfaceDamage) (promoted : Bool)
      (bufferSize : BufferSize) (mapping : μ)
  | sample (surfaceIds : List ℕ) (exactCommit : Option (ℕ × ℕ))
  | settle (token : ℕ) (settlement : SurfaceDamageSettlement)

/-- Any token handed out may be settled at any time; an unknown one is not there to be settled. -/
def step [DecidableEq μ] (s : SurfaceDamageState μ) : Event μ → SurfaceDamageState μ
  | .create => s.allocateSurfaceId
  | .destroy surfaceId => s.unregisterSurfaceResource surfaceId
  | .unmap surfaceId => s.unmapSurfaceContent surfaceId
  | .commitBuffer surfaceId commitSequence bufferSize mapping damage =>
    s.commitSurfaceBuffer surfaceId commitSequence bufferSize mapping damage
  | .commitWhole surfaceId commitSequence bufferSize mapping =>
    s.publishWhole surfaceId commitSequence bufferSize mapping
  | .commitMapping surfaceId commitSequence damage promoted bufferSize mapping =>
    s.commitSurfaceMappingOnly surfaceId commitSequence damage promoted bufferSize mapping
  | .sample surfaceIds exactCommit =>
    { s with tokens := s.tokens ++ [s.captureSurfaceDamagePresentation surfaceIds exactCommit] }
  | .settle token _ => s.settleSurfaceDamage (s.tokens.getD token [])

def run [DecidableEq μ] (events : List (Event μ)) : SurfaceDamageState μ := events.foldl step {}

def Unpresented (s : SurfaceDamageState μ) (surfaceId : ℕ) (r : Recorded) : Prop :=
  ∀ presented, s.presentedCommits.lookup surfaceId = some presented → presented < r.commit

def Samples (s : SurfaceDamageState μ) (sample : SurfaceDamageSample) : Prop :=
  sample.generation ≤ s.nextGeneration ∧
    (s.generations.lookup sample.surfaceId = some sample.generation →
      ∃ j, s.journals.lookup sample.surfaceId = some j ∧ sample.commit ≤ j.currentCommit)

structure Tracked (s : SurfaceDamageState μ) : Prop where
  journals : ∀ id j, s.journals.lookup id = some j → j.WellFormed
  recorded : ∀ id, ∀ r ∈ s.recorded id, ∃ j, s.journals.lookup id = some j ∧ r.commit ≤ j.currentCommit
  kept : ∀ id surface j, s.surfaces.lookup id = some surface → s.journals.lookup id = some j →
    ∀ r ∈ s.recorded id, Keeps j.entries r surface.bufferSize
  covered : ∀ id surface, s.surfaces.lookup id = some surface → ∀ r ∈ s.recorded id, s.Unpresented id r →
    surface.damage.Covers r.damage surface.bufferSize
  presented : ∀ id k, s.presentedCommits.lookup id = some k →
    ∃ j, s.journals.lookup id = some j ∧ k ≤ j.currentCommit
  generations : ∀ id g, s.generations.lookup id = some g → g ≤ s.nextGeneration
  tokens : ∀ token ∈ s.tokens, ∀ sample ∈ token, s.Samples sample

variable {s s' : SurfaceDamageState μ} {surfaceId : ℕ} {surface : RenderableSurface μ}

/-- What a new surface has to offer for its publication to keep track: its damage and the journal's cover what was
asked, and either both are whole or the buffer's size stays and the old damage is in the new. -/
structure Publishable (s : SurfaceDamageState μ) (surfaceId : ℕ) (surface : RenderableSurface μ)
    (journalDamage asked : RenderableSurfaceDamage) : Prop where
  shown : surface.damage.Covers asked surface.bufferSize
  noted : journalDamage.Covers asked surface.bufferSize
  whole : (∀ px py, surface.damage.Touches px py) ∧ journalDamage = .full ∨
    ∃ existing, s.surfaces.lookup surfaceId = some existing ∧ existing.bufferSize = surface.bufferSize ∧
      surface.damage.Covers existing.damage surface.bufferSize

def journalOf (s : SurfaceDamageState μ) (surfaceId : ℕ) : SurfaceDamageJournal :=
  (s.journals.lookup surfaceId).getD (.new 64)

variable {journalDamage asked : RenderableSurfaceDamage} {commitSequence : Option ℕ}

theorem journals_publish (id : ℕ) :
    (s.publish surfaceId surface commitSequence journalDamage asked).journals.lookup id =
      if id = surfaceId then some ((s.journalOf surfaceId).recordWithSequence commitSequence journalDamage
        surface.bufferSize.width surface.bufferSize.height)
      else s.journals.lookup id :=
  HashMap.lookup_insert _ _ _ _

theorem surfaces_publish (id : ℕ) :
    (s.publish surfaceId surface commitSequence journalDamage asked).surfaces.lookup id =
      if id = surfaceId then some surface else s.surfaces.lookup id :=
  HashMap.lookup_insert _ _ _ _

theorem recorded_publish (id : ℕ) : (s.publish surfaceId surface commitSequence journalDamage asked).recorded id =
      if id = surfaceId then s.recorded surfaceId ++ [⟨(s.journalOf surfaceId).currentCommit + 1, asked⟩]
      else s.recorded id := by
  have hcommit : (((s.publish surfaceId surface commitSequence journalDamage asked).journals.lookup surfaceId).map
      (·.currentCommit)).getD 0 = (s.journalOf surfaceId).currentCommit + 1 := by
    rw [journals_publish, if_pos rfl]
    exact currentCommit_record
  by_cases hid : id = surfaceId
  · subst hid
    rw [if_pos rfl, ← hcommit]
    exact Function.update_self _ _ _
  · rw [if_neg hid]
    exact Function.update_of_ne hid _ _

theorem Tracked.journalOf (h : s.Tracked) : (s.journalOf surfaceId).WellFormed := by
  unfold SurfaceDamageState.journalOf
  cases hj : s.journals.lookup surfaceId with
  | none => exact wellFormed_new 64
  | some j => exact h.journals surfaceId j hj

theorem journalOf_eq {j : SurfaceDamageJournal} (hj : s.journals.lookup surfaceId = some j) :
    s.journalOf surfaceId = j := by
  rw [SurfaceDamageState.journalOf, hj]
  rfl

theorem Tracked.recorded_le (h : s.Tracked) {r : Recorded} (hr : r ∈ s.recorded surfaceId) :
    r.commit ≤ (s.journalOf surfaceId).currentCommit := by
  obtain ⟨j, hj, hle⟩ := h.recorded surfaceId r hr
  rwa [journalOf_eq hj]

theorem Tracked.keeps_publish
    (h : s.Tracked) (hpublishable : s.Publishable surfaceId surface journalDamage asked) {r : Recorded}
    (hr : r ∈ s.recorded surfaceId ++ [⟨(s.journalOf surfaceId).currentCommit + 1, asked⟩]) :
    Keeps ((s.journalOf surfaceId).recordWithSequence commitSequence journalDamage surface.bufferSize.width
      surface.bufferSize.height).entries r surface.bufferSize := by
  refine keeps_record h.journalOf ?_
  rcases List.mem_append.mp hr with hold | hnew
  · rcases hpublishable.whole with ⟨-, rfl⟩ | ⟨existing, hexisting, hsize, -⟩
    · refine keeps_last _ ((h.recorded_le hold).trans (Nat.le_succ _)) ?_
      rw [normalizedForSurface_full]
      exact full_covers
    · obtain ⟨j, hj, -⟩ := h.recorded surfaceId r hold
      rw [journalOf_eq hj, ← hsize]
      exact keeps_snoc _ (h.kept surfaceId existing j hexisting hj r hold)
  · rw [List.mem_singleton.mp hnew]
    exact keeps_last _ le_rfl (normalizedForSurface_covers.trans hpublishable.noted)

theorem Tracked.covers_publish (h : s.Tracked)
    (hpublishable : s.Publishable surfaceId surface journalDamage asked) {r : Recorded}
    (hr : r ∈ s.recorded surfaceId ++ [⟨(s.journalOf surfaceId).currentCommit + 1, asked⟩])
    (hunpresented : s.Unpresented surfaceId r) : surface.damage.Covers r.damage surface.bufferSize := by
  rcases List.mem_append.mp hr with hold | hnew
  · rcases hpublishable.whole with ⟨hwhole, -⟩ | ⟨existing, hexisting, hsize, hcovers⟩
    · exact fun px _ py _ _ => hwhole px py
    · have hbefore := h.covered surfaceId existing hexisting r hold hunpresented
      rw [hsize] at hbefore
      exact hcovers.trans hbefore
  · rw [List.mem_singleton.mp hnew]
    exact hpublishable.shown

theorem journals_publish_grow {id k : ℕ} (h : ∃ j, s.journals.lookup id = some j ∧ k ≤ j.currentCommit) :
    ∃ j, (s.publish surfaceId surface commitSequence journalDamage asked).journals.lookup id = some j ∧
      k ≤ j.currentCommit := by
  obtain ⟨j, hj, hle⟩ := h
  by_cases hid : id = surfaceId
  · subst hid
    refine ⟨_, (journals_publish id).trans (if_pos rfl), ?_⟩
    rw [currentCommit_record, journalOf_eq hj]
    exact hle.trans (Nat.le_succ _)
  · exact ⟨j, ((journals_publish id).trans (if_neg hid)).trans hj, hle⟩

theorem Tracked.publish (h : s.Tracked) (hpublishable : s.Publishable surfaceId surface journalDamage asked) :
    (s.publish surfaceId surface commitSequence journalDamage asked).Tracked where
  journals := by
    intro id j hj
    rw [journals_publish] at hj
    split_ifs at hj with hid
    · rw [← Option.some.inj hj]
      exact h.journalOf.record
    · exact h.journals id j hj
  recorded := by
    intro id r hr
    rw [recorded_publish] at hr
    split_ifs at hr with hid
    · subst hid
      refine ⟨_, (journals_publish id).trans (if_pos rfl), ?_⟩
      rw [currentCommit_record]
      rcases List.mem_append.mp hr with hold | hnew
      · exact (h.recorded_le hold).trans (Nat.le_succ _)
      · rw [List.mem_singleton.mp hnew]
    · exact journals_publish_grow (h.recorded id r hr)
  kept := by
    intro id shown j hshown hj r hr
    rw [surfaces_publish] at hshown
    rw [journals_publish] at hj
    rw [recorded_publish] at hr
    split_ifs at hshown hj hr with hid
    · subst hid
      rw [← Option.some.inj hshown, ← Option.some.inj hj]
      exact h.keeps_publish hpublishable hr
    · exact h.kept id shown j hshown hj r hr
  covered := by
    intro id shown hshown r hr hunpresented
    rw [surfaces_publish] at hshown
    rw [recorded_publish] at hr
    split_ifs at hshown hr with hid
    · subst hid
      rw [← Option.some.inj hshown]
      exact h.covers_publish hpublishable hr hunpresented
    · exact h.covered id shown hshown r hr hunpresented
  presented := fun id k hk => journals_publish_grow (h.presented id k hk)
  generations := h.generations
  tokens := fun token htoken sample hsample =>
    ⟨(h.tokens token htoken sample hsample).1,
      fun hcurrent => journals_publish_grow ((h.tokens token htoken sample hsample).2 hcurrent)⟩

theorem publishable_whole {asked : RenderableSurfaceDamage} (hfull : surface.damage = .full) :
    s.Publishable surfaceId surface .full asked where
  shown := hfull ▸ full_covers
  noted := full_covers
  whole := .inl ⟨fun _ _ => hfull ▸ trivial, rfl⟩

theorem union_full_touches (damage : RenderableSurfaceDamage) (width height px py : ℕ) :
    (damage.union .full width height).Touches px py := by
  cases damage <;> trivial

theorem Tracked.commitSurfaceBuffer [DecidableEq μ] {commitSequence : ℕ} {bufferSize : BufferSize} {mapping : μ}
    {damage : RenderableSurfaceDamage} (h : s.Tracked) :
    (s.commitSurfaceBuffer surfaceId commitSequence bufferSize mapping damage).Tracked := by
  unfold SurfaceDamageState.commitSurfaceBuffer
  cases hexisting : s.surfaces.lookup surfaceId with
  | none => exact h.publish (publishable_whole rfl)
  | some existing =>
    refine h.publish ?_
    by_cases hchanged : existing.bufferSize ≠ bufferSize ∨ existing.mapping ≠ mapping
    · simp only [if_pos hchanged]
      exact ⟨fun _ _ _ _ _ => union_full_touches _ _ _ _ _, full_covers,
        .inl ⟨union_full_touches _ _ _, rfl⟩⟩
    · simp only [if_neg hchanged]
      have hsize : existing.bufferSize = bufferSize := not_not.mp fun hne => hchanged (.inl hne)
      exact ⟨union_covers_right.trans normalizedForSurface_covers, normalizedForSurface_covers,
        .inr ⟨existing, hexisting, hsize, union_covers_left⟩⟩

theorem Tracked.commitSurfaceMappingOnly {commitSequence : ℕ} {damage : Option RenderableSurfaceDamage}
    {promoted : Bool} {bufferSize : BufferSize} {mapping : μ} (h : s.Tracked) :
    (s.commitSurfaceMappingOnly surfaceId commitSequence damage promoted bufferSize mapping).Tracked := by
  unfold SurfaceDamageState.commitSurfaceMappingOnly
  split_ifs with hnothing
  · exact h
  · cases hexisting : s.surfaces.lookup surfaceId with
    | none => exact h
    | some existing =>
      refine h.publish ?_
      by_cases hsize : existing.bufferSize = bufferSize
      · subst hsize
        simp only [if_true]
        exact ⟨union_covers_right.trans normalizedForSurface_covers, normalizedForSurface_covers,
          .inr ⟨existing, hexisting, rfl, union_covers_left⟩⟩
      · simp only [if_neg hsize]
        exact ⟨fun _ _ _ _ _ => union_full_touches _ _ _ _ _, full_covers,
          .inl ⟨union_full_touches _ _ _, rfl⟩⟩

theorem Tracked.settleSample {sample : SurfaceDamageSample} (h : s.Tracked) (hsample : s.Samples sample) :
    (s.settleSample sample).Tracked := by
  unfold SurfaceDamageState.settleSample
  by_cases hstale : s.generations.lookup sample.surfaceId ≠ some sample.generation
  · rw [if_pos hstale]
    exact h
  rw [if_neg hstale]
  obtain ⟨j, hj, hle⟩ := hsample.2 (not_not.mp hstale)
  simp only [hj]
  by_cases holder : ((s.presentedCommits.lookup sample.surfaceId).any fun presented => sample.commit < presented) = true
  · rw [if_pos holder]
    exact h
  rw [if_neg holder]
  have hpresented : ∀ id k, (s.presentedCommits.insert sample.surfaceId sample.commit).lookup id = some k →
      ∃ j, s.journals.lookup id = some j ∧ k ≤ j.currentCommit := by
    intro id k hk
    rw [HashMap.lookup_insert] at hk
    split_ifs at hk with hid
    · cases hk
      exact ⟨j, hid ▸ hj, hle⟩
    · exact h.presented id k hk
  -- away from the sampled surface nothing changes
  have hother : ∀ id r, id ≠ sample.surfaceId →
      (∀ k, (s.presentedCommits.insert sample.surfaceId sample.commit).lookup id = some k → k < r.commit) →
        s.Unpresented id r := by
    intro id r hid hunpresented k hk
    refine hunpresented k ?_
    rwa [HashMap.lookup_insert, if_neg hid]
  cases hsurface : s.surfaces.lookup sample.surfaceId with
  | none =>
    refine ⟨h.journals, h.recorded, h.kept, ?_, hpresented, h.generations, h.tokens⟩
    intro id shown hshown r hr hunpresented
    refine h.covered id shown hshown r hr (hother id r ?_ hunpresented)
    rintro rfl
    exact absurd (hsurface.symm.trans hshown) (by simp)
  | some surface =>
    refine ⟨h.journals, h.recorded, ?_, ?_, hpresented, h.generations, h.tokens⟩
    · intro id shown j' hshown hj' r hr
      dsimp only at hshown
      rw [HashMap.lookup_insert] at hshown
      split_ifs at hshown with hid
      · subst hid
        cases hshown
        exact h.kept _ surface j' hsurface hj' r hr
      · exact h.kept id shown j' hshown hj' r hr
    · intro id shown hshown r hr hunpresented
      dsimp only at hshown
      rw [HashMap.lookup_insert] at hshown
      split_ifs at hshown with hid
      · subst hid
        cases hshown
        have hlater : sample.commit < r.commit := by
          refine hunpresented sample.commit ?_
          dsimp only
          rw [HashMap.lookup_insert, if_pos rfl]
        obtain ⟨j', hj', hrecorded⟩ := h.recorded _ r hr
        cases hj.symm.trans hj'
        exact damageSince_covers (h.kept _ surface j hsurface hj r hr) hlater hrecorded
      · exact h.covered id shown hshown r hr (hother id r hid hunpresented)

theorem settleSample_frame (s : SurfaceDamageState μ) (sample : SurfaceDamageSample) :
    (s.settleSample sample).generations = s.generations ∧ (s.settleSample sample).journals = s.journals ∧
      (s.settleSample sample).nextGeneration = s.nextGeneration := by
  unfold SurfaceDamageState.settleSample
  by_cases hstale : s.generations.lookup sample.surfaceId ≠ some sample.generation
  · rw [if_pos hstale]
    exact ⟨rfl, rfl, rfl⟩
  rw [if_neg hstale]
  cases s.journals.lookup sample.surfaceId with
  | none => exact ⟨rfl, rfl, rfl⟩
  | some journal =>
    dsimp only
    split
    · exact ⟨rfl, rfl, rfl⟩
    · cases s.surfaces.lookup sample.surfaceId with
      | none => exact ⟨rfl, rfl, rfl⟩
      | some surface => exact ⟨rfl, rfl, rfl⟩

theorem Samples.settleSample {sample other : SurfaceDamageSample} (h : s.Samples other) :
    (s.settleSample sample).Samples other := by
  obtain ⟨hgenerations, hjournals, hnext⟩ := settleSample_frame s sample
  unfold Samples
  rw [hgenerations, hjournals, hnext]
  exact h

theorem Tracked.settleSurfaceDamage (token : List SurfaceDamageSample) (h : s.Tracked)
    (htoken : ∀ sample ∈ token, s.Samples sample) : (s.settleSurfaceDamage token).Tracked := by
  induction token generalizing s with
  | nil => exact h
  | cons sample rest ih =>
    refine ih (h.settleSample (htoken sample List.mem_cons_self)) ?_
    exact fun other hother => (htoken other (List.mem_cons_of_mem _ hother)).settleSample

theorem commitCounterForSequence_le {j : SurfaceDamageJournal} {commitSequence commit : ℕ} (h : j.WellFormed)
    (hcommit : j.commitCounterForSequence commitSequence = some commit) : commit ≤ j.currentCommit := by
  obtain ⟨entry, hentry, rfl⟩ := Option.map_eq_some_iff.mp hcommit
  exact h.bounded entry (List.mem_reverse.mp (List.mem_of_find?_eq_some hentry))

theorem Tracked.damageSample {sample : SurfaceDamageSample} (h : s.Tracked)
    (hsample : s.damageSample surfaceId commitSequence = some sample) : s.Samples sample := by
  obtain ⟨generation, hgeneration, hsample⟩ := Option.bind_eq_some_iff.mp hsample
  obtain ⟨j, hj, hsample⟩ := Option.bind_eq_some_iff.mp hsample
  obtain ⟨commit, hcommit, hsample⟩ := Option.bind_eq_some_iff.mp hsample
  cases Option.some.inj hsample
  refine ⟨h.generations surfaceId generation hgeneration, fun _ => ⟨j, hj, ?_⟩⟩
  cases commitSequence with
  | none => exact (Option.some.inj hcommit).ge
  | some commitSequence => exact commitCounterForSequence_le (h.journals surfaceId j hj) hcommit

theorem Tracked.capture (h : s.Tracked) (surfaceIds : List ℕ) (exactCommit : Option (ℕ × ℕ)) :
    ∀ sample ∈ s.captureSurfaceDamagePresentation surfaceIds exactCommit, s.Samples sample := by
  have hfold : ∀ (targets : List (ℕ × Option ℕ)) (acc : Finset ℕ × List SurfaceDamageSample),
      (∀ sample ∈ acc.2, s.Samples sample) →
        ∀ sample ∈ (targets.foldl s.appendSurfaceDamageSample acc).2, s.Samples sample := by
    intro targets
    induction targets with
    | nil => exact fun acc hacc => hacc
    | cons target rest ih =>
      intro acc hacc
      refine ih _ ?_
      unfold appendSurfaceDamageSample
      split_ifs with hsampled
      · exact hacc
      · intro sample hsample
        rcases List.mem_append.mp hsample with hbefore | hnew
        · exact hacc sample hbefore
        · exact h.damageSample (Option.mem_toList.mp hnew)
  exact hfold _ _ fun _ hsample => absurd hsample List.not_mem_nil

theorem Tracked.allocateSurfaceId (h : s.Tracked) : s.allocateSurfaceId.Tracked := by
  refine ⟨h.journals, h.recorded, h.kept, h.covered, h.presented, ?_, ?_⟩
  · intro id g hg
    change (s.generations.insert _ _).lookup id = some g at hg
    rw [HashMap.lookup_insert] at hg
    split_ifs at hg with hid
    · exact (Option.some.inj hg).ge
    · exact (h.generations id g hg).trans (Nat.le_succ _)
  · intro token htoken sample hsample
    obtain ⟨hle, hjournal⟩ := h.tokens token htoken sample hsample
    refine ⟨hle.trans (Nat.le_succ _), fun hcurrent => hjournal ?_⟩
    change (s.generations.insert _ _).lookup sample.surfaceId = some sample.generation at hcurrent
    rw [HashMap.lookup_insert] at hcurrent
    split_ifs at hcurrent with hid
    · exact absurd (Option.some.inj hcurrent) (Nat.lt_succ_of_le hle).ne'
    · exact hcurrent

theorem Tracked.unmapSurfaceContent (h : s.Tracked) : (s.unmapSurfaceContent surfaceId).Tracked := by
  have hstill : ∀ id surface, (s.surfaces.erase surfaceId).lookup id = some surface →
      s.surfaces.lookup id = some surface := by
    intro id surface hsurface
    rw [HashMap.lookup_erase] at hsurface
    split_ifs at hsurface with hid
    exact hsurface
  exact ⟨h.journals, h.recorded, fun id surface j hsurface => h.kept id surface j (hstill id surface hsurface),
    fun id surface hsurface => h.covered id surface (hstill id surface hsurface), h.presented, h.generations, h.tokens⟩

theorem lookup_erase_some {υ : Type} {m : HashMap ℕ υ} {id : ℕ} {v : υ} :
    (m.erase surfaceId).lookup id = some v ↔ id ≠ surfaceId ∧ m.lookup id = some v := by
  rw [HashMap.lookup_erase]
  split_ifs with hid
  · exact ⟨fun h => absurd h (by simp), fun h => absurd hid h.1⟩
  · exact ⟨fun h => ⟨hid, h⟩, And.right⟩

theorem Tracked.unregisterSurfaceResource (h : s.Tracked) : (s.unregisterSurfaceResource surfaceId).Tracked := by
  have hrecorded : ∀ id, ∀ r ∈ (s.unregisterSurfaceResource surfaceId).recorded id,
      id ≠ surfaceId ∧ r ∈ s.recorded id := by
    intro id r hr
    by_cases hid : id = surfaceId
    · subst hid
      have hnone : (s.unregisterSurfaceResource id).recorded id = [] := Function.update_self _ _ _
      exact absurd (hnone ▸ hr) List.not_mem_nil
    · have hsame : (s.unregisterSurfaceResource surfaceId).recorded id = s.recorded id :=
        Function.update_of_ne hid _ _
      exact ⟨hid, hsame ▸ hr⟩
  have hjournal : ∀ id k, id ≠ surfaceId → (∃ j, s.journals.lookup id = some j ∧ k ≤ j.currentCommit) →
      ∃ j, (s.journals.erase surfaceId).lookup id = some j ∧ k ≤ j.currentCommit :=
    fun id k hid ⟨j, hj, hle⟩ => ⟨j, lookup_erase_some.mpr ⟨hid, hj⟩, hle⟩
  constructor
  case journals => exact fun id j hj => h.journals id j (lookup_erase_some.mp hj).2
  case recorded =>
    intro id r hr
    obtain ⟨hid, hr⟩ := hrecorded id r hr
    exact hjournal id _ hid (h.recorded id r hr)
  case kept =>
    intro id surface j hsurface hj r hr
    exact h.kept id surface j (lookup_erase_some.mp hsurface).2 (lookup_erase_some.mp hj).2 r (hrecorded id r hr).2
  case covered =>
    intro id surface hsurface r hr hunpresented
    obtain ⟨hid, hr⟩ := hrecorded id r hr
    refine h.covered id surface (lookup_erase_some.mp hsurface).2 r hr fun k hk => hunpresented k ?_
    exact lookup_erase_some.mpr ⟨hid, hk⟩
  case presented =>
    intro id k hk
    obtain ⟨hid, hk⟩ := lookup_erase_some.mp hk
    exact hjournal id k hid (h.presented id k hk)
  case generations => exact fun id g hg => h.generations id g (lookup_erase_some.mp hg).2
  case tokens =>
    intro token htoken sample hsample
    obtain ⟨hle, hcurrent⟩ := h.tokens token htoken sample hsample
    refine ⟨hle, fun hgeneration => ?_⟩
    obtain ⟨hid, hgeneration⟩ := lookup_erase_some.mp hgeneration
    exact hjournal _ _ hid (hcurrent hgeneration)

theorem tracked_empty : ({} : SurfaceDamageState μ).Tracked where
  journals := fun _ _ h => absurd h (by simp)
  recorded := fun _ _ h => absurd h List.not_mem_nil
  kept := fun _ _ _ h => absurd h (by simp)
  covered := fun _ _ h => absurd h (by simp)
  presented := fun _ _ h => absurd h (by simp)
  generations := fun _ _ h => absurd h (by simp)
  tokens := fun _ h => absurd h List.not_mem_nil

def Advances (s s' : SurfaceDamageState μ) : Prop :=
  s.nextGeneration ≤ s'.nextGeneration ∧
    ∀ id g, g ≤ s.nextGeneration → s'.generations.lookup id = some g →
      s.generations.lookup id = some g ∧
        ∀ k, s.presentedCommits.lookup id = some k → ∃ k', s'.presentedCommits.lookup id = some k' ∧ k ≤ k'

theorem Advances.trans {s'' : SurfaceDamageState μ} (h : s.Advances s') (h' : s'.Advances s'') : s.Advances s'' := by
  refine ⟨h.1.trans h'.1, fun id g hg hlast => ?_⟩
  obtain ⟨hmiddle, hlater⟩ := h'.2 id g (hg.trans h.1) hlast
  obtain ⟨hfirst, hearlier⟩ := h.2 id g hg hmiddle
  refine ⟨hfirst, fun k hk => ?_⟩
  obtain ⟨k', hk', hle⟩ := hearlier k hk
  obtain ⟨k'', hk'', hle'⟩ := hlater k' hk'
  exact ⟨k'', hk'', hle.trans hle'⟩

theorem advances_of_eq (hgenerations : s'.generations = s.generations)
    (hpresented : s'.presentedCommits = s.presentedCommits) (hnext : s'.nextGeneration = s.nextGeneration) :
    s.Advances s' :=
  ⟨hnext.ge, fun _ _ _ hg => ⟨hgenerations ▸ hg, fun k hk => ⟨k, hpresented ▸ hk, le_rfl⟩⟩⟩

theorem advances_settleSample (sample : SurfaceDamageSample) : s.Advances (s.settleSample sample) := by
  obtain ⟨hgenerations, -, hnext⟩ := settleSample_frame s sample
  refine ⟨hnext.ge, fun id g _ hg => ⟨hgenerations ▸ hg, fun k hk => ?_⟩⟩
  unfold SurfaceDamageState.settleSample
  by_cases hstale : s.generations.lookup sample.surfaceId ≠ some sample.generation
  · rw [if_pos hstale]
    exact ⟨k, hk, le_rfl⟩
  rw [if_neg hstale]
  cases s.journals.lookup sample.surfaceId with
  | none => exact ⟨k, hk, le_rfl⟩
  | some journal =>
    dsimp only
    by_cases holder : ((s.presentedCommits.lookup sample.surfaceId).any fun presented => sample.commit < presented) =
      true
    · rw [if_pos holder]
      exact ⟨k, hk, le_rfl⟩
    rw [if_neg holder]
    have hstored : ∃ k', (s.presentedCommits.insert sample.surfaceId sample.commit).lookup id = some k' ∧ k ≤ k' := by
      rw [HashMap.lookup_insert]
      split_ifs with hid
      · subst hid
        rw [hk, Option.any_some, decide_eq_true_iff, Nat.not_lt] at holder
        exact ⟨sample.commit, rfl, holder⟩
      · exact ⟨k, hk, le_rfl⟩
    cases s.surfaces.lookup sample.surfaceId with
    | none => exact hstored
    | some surface => exact hstored

theorem advances_settle (token : List SurfaceDamageSample) : s.Advances (s.settleSurfaceDamage token) := by
  induction token generalizing s with
  | nil => exact advances_of_eq rfl rfl rfl
  | cons sample rest ih => exact (advances_settleSample sample).trans ih

theorem advances_create : s.Advances s.allocateSurfaceId := by
  refine ⟨Nat.le_succ _, fun id g hg hlast => ?_⟩
  change (s.generations.insert _ _).lookup id = some g at hlast
  rw [HashMap.lookup_insert] at hlast
  split_ifs at hlast with hid
  · exact absurd (Option.some.inj hlast) (Nat.lt_succ_of_le hg).ne'
  · exact ⟨hlast, fun k hk => ⟨k, hk, le_rfl⟩⟩

theorem advances_destroy : s.Advances (s.unregisterSurfaceResource surfaceId) := by
  refine ⟨le_rfl, fun id g _ hlast => ?_⟩
  obtain ⟨hid, hlast⟩ := lookup_erase_some.mp hlast
  exact ⟨hlast, fun k hk => ⟨k, lookup_erase_some.mpr ⟨hid, hk⟩, le_rfl⟩⟩

variable [DecidableEq μ]

theorem Tracked.step (h : s.Tracked) (event : Event μ) : (s.step event).Tracked := by
  cases event with
  | create => exact h.allocateSurfaceId
  | destroy surfaceId => exact h.unregisterSurfaceResource
  | unmap surfaceId => exact h.unmapSurfaceContent
  | commitBuffer surfaceId commitSequence bufferSize mapping damage => exact h.commitSurfaceBuffer
  | commitWhole surfaceId commitSequence bufferSize mapping => exact h.publish (publishable_whole rfl)
  | commitMapping surfaceId commitSequence damage promoted bufferSize mapping => exact h.commitSurfaceMappingOnly
  | sample surfaceIds exactCommit =>
    refine ⟨h.journals, h.recorded, h.kept, h.covered, h.presented, h.generations, ?_⟩
    intro token htoken
    rcases List.mem_append.mp htoken with hbefore | hnew
    · exact h.tokens token hbefore
    · rw [List.mem_singleton.mp hnew]
      exact h.capture surfaceIds exactCommit
  | settle token settlement =>
    refine h.settleSurfaceDamage _ fun sample hsample => ?_
    rw [List.getD_eq_getElem?_getD] at hsample
    cases htoken : s.tokens[token]? with
    | none =>
      rw [htoken] at hsample
      exact absurd hsample List.not_mem_nil
    | some samples =>
      rw [htoken] at hsample
      exact h.tokens samples (List.mem_of_getElem? htoken) sample hsample

theorem tracked_run (events : List (Event μ)) : (run events : SurfaceDamageState μ).Tracked := by
  have hfold : ∀ s : SurfaceDamageState μ, s.Tracked → (events.foldl SurfaceDamageState.step s).Tracked := by
    induction events with
    | nil => exact fun s h => h
    | cons event rest ih => exact fun s h => ih _ (h.step event)
  exact hfold _ tracked_empty

theorem advances_step (event : Event μ) : s.Advances (s.step event) := by
  cases event with
  | create => exact advances_create
  | destroy surfaceId => exact advances_destroy
  | unmap surfaceId => exact advances_of_eq rfl rfl rfl
  | commitBuffer surfaceId commitSequence bufferSize mapping damage =>
    simp only [step, SurfaceDamageState.commitSurfaceBuffer]
    cases s.surfaces.lookup surfaceId with
    | none => exact advances_of_eq rfl rfl rfl
    | some existing => exact advances_of_eq rfl rfl rfl
  | commitWhole surfaceId commitSequence bufferSize mapping => exact advances_of_eq rfl rfl rfl
  | commitMapping surfaceId commitSequence damage promoted bufferSize mapping =>
    simp only [step, SurfaceDamageState.commitSurfaceMappingOnly]
    split_ifs with hnothing
    · exact advances_of_eq rfl rfl rfl
    · cases s.surfaces.lookup surfaceId with
      | none => exact advances_of_eq rfl rfl rfl
      | some existing => exact advances_of_eq rfl rfl rfl
  | sample surfaceIds exactCommit => exact advances_of_eq rfl rfl rfl
  | settle token settlement => exact advances_settle _

theorem advances_run (events more : List (Event μ)) :
    (run events : SurfaceDamageState μ).Advances (run (events ++ more)) := by
  have hfold : ∀ s : SurfaceDamageState μ, s.Advances (more.foldl SurfaceDamageState.step s) := by
    induction more with
    | nil => exact fun s => advances_of_eq rfl rfl rfl
    | cons event rest ih => exact fun s => (advances_step event).trans (ih _)
  unfold run
  rw [List.foldl_append]
  exact hfold _

theorem unpresented_damage_is_kept (events : List (Event μ)) :
    (∀ surfaceId surface, (run events).surfaces.lookup surfaceId = some surface →
      ∀ r ∈ (run events).recorded surfaceId, (run events).Unpresented surfaceId r →
        surface.damage.Covers r.damage surface.bufferSize) ∧
    (∀ surfaceId commit, (run events).presentedCommits.lookup surfaceId = some commit →
      ∃ journal, (run events).journals.lookup surfaceId = some journal ∧ commit ≤ journal.currentCommit) ∧
    ∀ more surfaceId generation, (run events).generations.lookup surfaceId = some generation →
      (run (events ++ more)).generations.lookup surfaceId = some generation →
        ∀ commit, (run events).presentedCommits.lookup surfaceId = some commit →
          ∃ later, (run (events ++ more)).presentedCommits.lookup surfaceId = some later ∧ commit ≤ later := by
  have htracked := tracked_run events
  refine ⟨htracked.covered, htracked.presented, ?_⟩
  intro more surfaceId generation hfirst hlast commit hcommit
  have hadvances := (advances_run events more).2 surfaceId generation
  exact (hadvances (htracked.generations surfaceId generation hfirst) hlast).2 commit hcommit

end SurfaceDamageState

end Typhon.Surfaces.SurfaceDamage
