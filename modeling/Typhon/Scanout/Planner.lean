import Typhon.Foundation.Grid
import Typhon.Scanout.DeferredBinding

/-! The planner of presentation targets: refreshes are counted from the last presentation, and a target is the first
refresh after the present and after an earlier claim. -/

namespace Typhon.Scanout
open Foundation

structure PresentationDeadlinePlanner where
  clockGeneration : ℕ
  lastPresentedSequence : ℕ
  lastPresentedAt : Option ℕ
  refreshInterval : ℕ
  scheduled : Option PresentationTarget
  preRenderAbandoned : ℕ
  targetIdentityReuseAfterAbandonment : ℕ
  lastAbandonedTargetIdentity : Option (ℕ × ℕ)
  refresh_pos : 0 < refreshInterval

def PrimaryRefreshClaim.identity (claim : PrimaryRefreshClaim) : ℕ × ℕ := (claim.clockGeneration, claim.sequence)

def nonzeroRefresh (refreshInterval : ℕ) : ℕ := if refreshInterval = 0 then 1 else refreshInterval

theorem nonzeroRefresh_pos (refreshInterval : ℕ) : 0 < nonzeroRefresh refreshInterval := by
  unfold nonzeroRefresh
  split_ifs with h
  · exact Nat.one_pos
  · exact Nat.pos_of_ne_zero h

def submitNotBeforeGuard : ℕ := 100000

def submitNotBefore (presentationTime refreshInterval : ℕ) : ℕ :=
  (U64.checkedAdd (presentationTime - durationNs refreshInterval) submitNotBeforeGuard).getD presentationTime

def advance (sequence time intervals refreshNs : ℕ) : Option (ℕ × ℕ) := do
  let sequence ← U64.checkedAdd sequence intervals
  let time ← U64.checkedAdd time (← U64.checkedMul intervals refreshNs)
  return (sequence, time)

structure ReadyPresentationServiceEstimate where
  kmsDispatchBudgetNs : ℕ
  kmsApplyGuardNs : ℕ

def ReadyPresentationServiceEstimate.totalNs (e : ReadyPresentationServiceEstimate) : ℕ :=
  U64.saturatingAdd e.kmsDispatchBudgetNs e.kmsApplyGuardNs

structure ReadyTargetPullIn where
  abandonedTarget : PresentationTarget
  replacementTarget : PresentationTarget
  deriving DecidableEq

def claimIsStrictlyLater (candidate frontier : PrimaryRefreshClaim) : Bool :=
  decide (frontier.sequence < candidate.sequence) &&
    decide (frontier.presentationTime < candidate.presentationTime) &&
    candidate.clockGeneration == frontier.clockGeneration

def claimIsStrictlyEarlier (candidate upperBound : PrimaryRefreshClaim) : Bool :=
  decide (candidate.sequence < upperBound.sequence) &&
    decide (candidate.presentationTime < upperBound.presentationTime) &&
    candidate.clockGeneration == upperBound.clockGeneration

namespace PresentationDeadlinePlanner
variable (p : PresentationDeadlinePlanner)

def new (refreshInterval : ℕ) : PresentationDeadlinePlanner where
  clockGeneration := 1
  lastPresentedSequence := 0
  lastPresentedAt := none
  refreshInterval := nonzeroRefresh refreshInterval
  scheduled := none
  preRenderAbandoned := 0
  targetIdentityReuseAfterAbandonment := 0
  lastAbandonedTargetIdentity := none
  refresh_pos := nonzeroRefresh_pos refreshInterval

def refreshNs : ℕ := max (durationNs p.refreshInterval) 1

def preparePresented (presentedAt : ℕ) : PrimaryRefreshClaim :=
  let logicalSequence := match p.lastPresentedAt with
    | some previous =>
      let elapsed := presentedAt - previous
      let intervals := U64.saturatingAdd elapsed (p.refreshNs / 2) / p.refreshNs
      U64.saturatingAdd p.lastPresentedSequence intervals
    | none => U64.saturatingAdd p.lastPresentedSequence 1
  ⟨logicalSequence, presentedAt, p.clockGeneration⟩

def commitPresented (prepared : PrimaryRefreshClaim) : ℕ × PresentationDeadlinePlanner :=
  let p := { p with lastPresentedSequence := prepared.sequence, lastPresentedAt := some prepared.presentationTime }
  match p.scheduled with
  | some abandoned => (prepared.sequence,
      { p with
        scheduled := none
        preRenderAbandoned := U64.saturatingAdd p.preRenderAbandoned 1
        lastAbandonedTargetIdentity := some abandoned.physicalClaim.identity })
  | none => (prepared.sequence, p)

def notePresented (presentedAt : ℕ) : ℕ × PresentationDeadlinePlanner :=
  p.commitPresented (p.preparePresented presentedAt)

def isCurrent (target : PresentationTarget) : Bool := target.clockGeneration == p.clockGeneration

def primaryRefreshFrontier (futurePrimary : PresentationTarget) : Option PrimaryRefreshClaim :=
  if p.isCurrent futurePrimary then some futurePrimary.physicalClaim else none

def physicalPredecessorFor (target : PresentationTarget) : PresentationTarget :=
  match p.primaryRefreshFrontier target with
  | none => target
  | some frontier =>
    { sequence := frontier.sequence
      presentationTime := frontier.presentationTime
      submitNotBefore := frontier.presentationTime
      renderStartDeadline := frontier.presentationTime
      refreshInterval := p.refreshInterval
      reason := .normal
      clockGeneration := frontier.clockGeneration
      estimated := false
      predictedUnreachable := false
      physicalClaim := frontier
      selectionEvidence := ⟨frontier.sequence, false⟩ }

def firstFutureRefresh (now : ℕ) : Option (ℕ × ℕ × Bool) := do
  match p.lastPresentedAt with
  | none =>
    let sequence ← U64.checkedAdd p.lastPresentedSequence 1
    let time ← U64.checkedAdd now (durationNs p.refreshInterval)
    return (sequence, time, true)
  | some anchor =>
    let intervals ← U64.checkedAdd (← U64.checkedDiv (now - anchor) p.refreshNs) 1
    let (sequence, time) ← advance p.lastPresentedSequence anchor intervals p.refreshNs
    return (sequence, time, false)

def firstFutureRefreshAfter (now : ℕ) (lowerBound : PrimaryRefreshClaim) : Option (ℕ × ℕ × Bool) := do
  if lowerBound.clockGeneration ≠ p.clockGeneration then
    p.firstFutureRefresh now
  else
    let threshold := max now lowerBound.presentationTime
    if p.lastPresentedAt.isNone then
      let intervals ← U64.checkedAdd (← U64.checkedDiv (threshold - lowerBound.presentationTime) p.refreshNs) 1
      let (sequence, time) ← advance lowerBound.sequence lowerBound.presentationTime intervals p.refreshNs
      return (sequence, time, true)
    else
      let (sequence, presentationTime, estimated) ← p.firstFutureRefresh threshold
      let sequenceSteps ← if sequence ≤ lowerBound.sequence then do
          U64.checkedAdd (← U64.checkedSub lowerBound.sequence sequence) 1
        else pure 0
      let timeSteps ← if presentationTime ≤ lowerBound.presentationTime then do
          let behind ← U64.checkedSub lowerBound.presentationTime presentationTime
          U64.checkedAdd (← U64.checkedDiv behind p.refreshNs) 1
        else pure 0
      let steps := max sequenceSteps timeSteps
      if 0 < steps then
        let (sequence, presentationTime) ← advance sequence presentationTime steps p.refreshNs
        return (sequence, presentationTime, estimated)
      else
        return (sequence, presentationTime, estimated)

def predictionFeasibleOpportunity (selected : ℕ × ℕ × Bool) (readyAt : ℕ) : Option (ℕ × ℕ × Bool) := do
  if readyAt ≤ selected.2.1 then
    return selected
  else
    -- the subtraction cannot underflow here
    let intervals := (readyAt - selected.2.1) ⌈/⌉ p.refreshNs
    let (sequence, time) ← advance selected.1 selected.2.1 intervals p.refreshNs
    return (sequence, time, selected.2.2)

def earliestReachable (readyAt : ℕ) : Option (ℕ × ℕ × Bool) := do
  let refreshNs := durationNs p.refreshInterval
  match p.lastPresentedAt with
  | none =>
    let time ← U64.checkedAdd readyAt refreshNs
    return (U64.saturatingAdd p.lastPresentedSequence 1, time, true)
  | some anchor =>
    let intervals := max ((readyAt - anchor) ⌈/⌉ refreshNs) 1
    let (sequence, time) ← advance p.lastPresentedSequence anchor intervals refreshNs
    return (sequence, time, false)

def earliestReachableAfterClaim (readyAt : ℕ) (frontier : PrimaryRefreshClaim) : Option PrimaryRefreshClaim := do
  let sequence ← U64.checkedAdd frontier.sequence 1
  let presentationTime ← U64.checkedAdd frontier.presentationTime (durationNs p.refreshInterval)
  if presentationTime < readyAt then
    let intervals := (readyAt - presentationTime) ⌈/⌉ p.refreshNs
    let (sequence, presentationTime) ← advance sequence presentationTime intervals p.refreshNs
    return ⟨sequence, presentationTime, frontier.clockGeneration⟩
  else
    return ⟨sequence, presentationTime, frontier.clockGeneration⟩

def makeTarget (sequence presentationTime predictedTotalCost : ℕ) (reason : PresentationTargetReason)
    (estimated predictedUnreachable : Bool) (submitNotBefore : ℕ) :
    PresentationTarget × PresentationDeadlinePlanner :=
  let target : PresentationTarget :=
    { sequence
      presentationTime
      submitNotBefore
      renderStartDeadline := presentationTime - durationNs predictedTotalCost
      refreshInterval := p.refreshInterval
      reason
      clockGeneration := p.clockGeneration
      estimated
      predictedUnreachable
      physicalClaim := ⟨sequence, presentationTime, p.clockGeneration⟩
      selectionEvidence := ⟨sequence, reason != .reactiveDouble⟩ }
  let reuse := if p.lastAbandonedTargetIdentity = some target.physicalClaim.identity then
      U64.saturatingAdd p.targetIdentityReuseAfterAbandonment 1
    else p.targetIdentityReuseAfterAbandonment
  (target, { p with targetIdentityReuseAfterAbandonment := reuse, lastAbandonedTargetIdentity := none })

def planNormal (now predictedTotalCost : ℕ) : Option (PresentationTarget × PresentationDeadlinePlanner) := do
  let readyAt ← U64.checkedAdd now (durationNs predictedTotalCost)
  let (sequence, presentationTime, estimated) ← p.earliestReachable readyAt
  let (target, p) := p.makeTarget sequence presentationTime predictedTotalCost .normal estimated false
    (if estimated then 0 else submitNotBefore presentationTime p.refreshInterval)
  return (target, { p with scheduled := some target })

def reactive (now readyAt : ℕ) (selected : ℕ × ℕ × Bool) : Option PresentationTarget := do
  let earliestFeasibleSequence := (← p.predictionFeasibleOpportunity selected readyAt).1
  let (sequence, presentationTime, estimated) := selected
  return {
    sequence
    presentationTime
    submitNotBefore := now
    renderStartDeadline := now
    refreshInterval := p.refreshInterval
    reason := .reactiveDouble
    clockGeneration := p.clockGeneration
    estimated
    predictedUnreachable := decide (presentationTime < readyAt)
    physicalClaim := ⟨sequence, presentationTime, p.clockGeneration⟩
    selectionEvidence := ⟨earliestFeasibleSequence, false⟩ }

def reactiveTarget (now predictedTotalCost : ℕ) : Option PresentationTarget := do
  let readyAt ← U64.checkedAdd now (durationNs predictedTotalCost)
  let selected ← p.firstFutureRefresh now
  p.reactive now readyAt selected

def reactiveTargetAfter (now predictedTotalCost : ℕ) (lowerBound : PresentationTarget) :
    Option PresentationTarget := do
  let readyAt ← U64.checkedAdd now (durationNs predictedTotalCost)
  let selected ← (if p.isCurrent lowerBound then
      p.firstFutureRefreshAfter now (p.physicalPredecessorFor lowerBound).physicalClaim
    else p.firstFutureRefresh now)
  p.reactive now readyAt selected

def planSuccessorAfter (lowerBound : PresentationTarget) (now predictedTotalCost : ℕ)
    (reason : PresentationTargetReason) : Option (PresentationTarget × PresentationDeadlinePlanner) := do
  if !p.isCurrent lowerBound then
    none
  else
    let lowerBound := p.physicalPredecessorFor lowerBound
    let readyAt ← U64.checkedAdd now (durationNs predictedTotalCost)
    let selected ← p.firstFutureRefreshAfter now lowerBound.physicalClaim
    let earliestFeasibleSequence := (← p.predictionFeasibleOpportunity selected readyAt).1
    let (sequence, presentationTime, estimated) := selected
    let predictedUnreachable := decide (presentationTime < readyAt)
    let submitNotBefore := if estimated || reason == .reactiveDouble then now
      else submitNotBefore presentationTime p.refreshInterval
    let (target, p) := p.makeTarget sequence presentationTime predictedTotalCost reason estimated
      predictedUnreachable submitNotBefore
    let target := { target with selectionEvidence := ⟨earliestFeasibleSequence, reason != .reactiveDouble⟩ }
    return (target, { p with scheduled := some target })

def PursuesUnreachable : PresentationTargetReason → Bool
  | .predictedPressure | .provenReadinessMiss | .forcedValidation => true
  | .reactiveDouble | .normal | .commitTiming => false

def planRenderAhead (pending : PresentationTarget) (now predictedTotalCost : ℕ) (reason : PresentationTargetReason) :
    Option (PresentationTarget × PresentationDeadlinePlanner) := do
  if !p.isCurrent pending then
    none
  else
    let predecessor := p.physicalPredecessorFor pending
    let sequence ← U64.checkedAdd predecessor.sequence 1
    let presentationTime ← U64.checkedAdd predecessor.presentationTime (durationNs predecessor.refreshInterval)
    let readyAt ← U64.checkedAdd now (durationNs predictedTotalCost)
    let unreachable := decide (presentationTime < readyAt)
    if unreachable && !PursuesUnreachable reason then
      none
    else
      let selected := (sequence, presentationTime, predecessor.estimated)
      let earliestFeasibleSequence := (← p.predictionFeasibleOpportunity selected readyAt).1
      let (target, p) := p.makeTarget sequence presentationTime predictedTotalCost reason predecessor.estimated
        unreachable
        ((U64.checkedAdd predecessor.presentationTime submitNotBeforeGuard).getD predecessor.presentationTime)
      let target := { target with selectionEvidence := ⟨earliestFeasibleSequence, reason != .reactiveDouble⟩ }
      return (target, { p with scheduled := some target })

def readyTargetPullIn (now : ℕ) (remainingService : ReadyPresentationServiceEstimate)
    (physicalFrontier : PrimaryRefreshClaim) (currentTarget : PresentationTarget) : Option ReadyTargetPullIn := do
  if !p.isCurrent currentTarget || !currentTarget.isBinding ||
      currentTarget.sequence != currentTarget.physicalClaim.sequence ||
      currentTarget.presentationTime != currentTarget.physicalClaim.presentationTime ||
      physicalFrontier.clockGeneration != p.clockGeneration ||
      currentTarget.physicalClaim.clockGeneration != p.clockGeneration ||
      !claimIsStrictlyLater currentTarget.physicalClaim physicalFrontier then
    none
  else
    let readyAt ← U64.checkedAdd now remainingService.totalNs
    let candidate ← p.earliestReachableAfterClaim readyAt physicalFrontier
    if !claimIsStrictlyEarlier candidate currentTarget.physicalClaim then
      none
    else
      let replacementTarget : PresentationTarget :=
        { sequence := candidate.sequence
          presentationTime := candidate.presentationTime
          submitNotBefore := now
          renderStartDeadline := now
          refreshInterval := p.refreshInterval
          reason := currentTarget.reason
          clockGeneration := p.clockGeneration
          estimated := false
          predictedUnreachable := false
          physicalClaim := candidate
          selectionEvidence := ⟨candidate.sequence, true⟩ }
      return ⟨currentTarget, replacementTarget⟩

def invalidate (refreshInterval : ℕ) : PresentationDeadlinePlanner :=
  { clockGeneration := (U64.checkedAdd p.clockGeneration 1).getD 1
    lastPresentedSequence := 0
    lastPresentedAt := none
    refreshInterval := nonzeroRefresh refreshInterval
    scheduled := none
    preRenderAbandoned := if p.scheduled.isSome then U64.saturatingAdd p.preRenderAbandoned 1 else p.preRenderAbandoned
    targetIdentityReuseAfterAbandonment := p.targetIdentityReuseAfterAbandonment
    lastAbandonedTargetIdentity := p.lastAbandonedTargetIdentity
    refresh_pos := nonzeroRefresh_pos refreshInterval }

end PresentationDeadlinePlanner

theorem advance_eq_some {sequence time k step : ℕ} {r : ℕ × ℕ} : advance sequence time k step = some r ↔
      r = (sequence + k, time + k * step) ∧ sequence + k ≤ U64.top ∧ time + k * step ≤ U64.top := by
  simp only [advance, Option.bind_eq_bind, Option.bind_eq_some_iff, U64.checkedAdd_eq_some, U64.checkedMul_eq_some]
  constructor
  · rintro ⟨_, ⟨rfl, hsequence⟩, _, ⟨rfl, -⟩, _, ⟨rfl, htime⟩, ⟨⟩⟩
    exact ⟨rfl, hsequence, htime⟩
  · rintro ⟨rfl, hsequence, htime⟩
    exact ⟨_, ⟨rfl, hsequence⟩, _, ⟨rfl, le_trans (Nat.le_add_left _ _) htime⟩, _, ⟨rfl, htime⟩, rfl⟩

theorem advance_advance {sequence time k step n : ℕ} {r : ℕ × ℕ} (h : advance sequence time k step = some r) :
    advance r.1 r.2 n step = advance sequence time (k + n) step := by
  obtain ⟨rfl, -, -⟩ := advance_eq_some.mp h
  ext r
  rw [advance_eq_some, advance_eq_some, Nat.add_assoc, Nat.add_assoc, Nat.add_mul]

theorem advance_eq_none_mono {sequence time k step n : ℕ} (h : advance sequence time k step = none) (hkn : k ≤ n) :
    advance sequence time n step = none := by
  rw [Option.eq_none_iff_forall_ne_some] at h ⊢
  intro r hr
  obtain ⟨-, hsequence, htime⟩ := advance_eq_some.mp hr
  have hmul : k * step ≤ n * step := Nat.mul_le_mul_right step hkn
  exact h _ (advance_eq_some.mpr ⟨rfl, by omega, by omega⟩)

namespace PresentationDeadlinePlanner
variable {p : PresentationDeadlinePlanner} {now : ℕ}

theorem refreshNs_pos : 0 < p.refreshNs := lt_of_lt_of_le Nat.one_pos (le_max_right _ _)

theorem durationNs_refreshInterval : durationNs p.refreshInterval = p.refreshNs := by
  have hpos := p.refresh_pos
  unfold refreshNs durationNs U64.top
  omega

structure LaterThan (now : ℕ) (bound : Option PrimaryRefreshClaim) (sequence time : ℕ) : Prop where
  present : now < time
  claim : ∀ claim ∈ bound, claim.sequence < sequence ∧ claim.presentationTime < time

def gridBase (p : PresentationDeadlinePlanner) (now : ℕ) (bound : Option PrimaryRefreshClaim) : ℕ × ℕ :=
  match p.lastPresentedAt, bound with
  | some anchor, _ => (p.lastPresentedSequence, anchor)
  | none, some claim => (claim.sequence, claim.presentationTime)
  | none, none => (p.lastPresentedSequence, now)

theorem gridBase_anchor {anchor : ℕ} (h : p.lastPresentedAt = some anchor) (bound : Option PrimaryRefreshClaim) :
    p.gridBase now bound = (p.lastPresentedSequence, anchor) := by
  rw [gridBase.eq_def, h]

theorem gridBase_claim (h : p.lastPresentedAt = none) (claim : PrimaryRefreshClaim) :
    p.gridBase now (some claim) = (claim.sequence, claim.presentationTime) := by
  rw [gridBase.eq_def, h]

theorem gridBase_now (h : p.lastPresentedAt = none) : p.gridBase now none = (p.lastPresentedSequence, now) := by
  rw [gridBase.eq_def, h]

def FirstLater (p : PresentationDeadlinePlanner) (now : ℕ) (bound : Option PrimaryRefreshClaim) (k : ℕ) : Prop :=
  IsLeast {k | 1 ≤ k ∧ LaterThan now bound ((p.gridBase now bound).1 + k)
    ((p.gridBase now bound).2 + k * p.refreshNs)} k

def refreshAt (p : PresentationDeadlinePlanner) (now : ℕ) (bound : Option PrimaryRefreshClaim) (k : ℕ) :
    Option (ℕ × ℕ × Bool) := do
  let (sequence, time) ← advance (p.gridBase now bound).1 (p.gridBase now bound).2 k p.refreshNs
  return (sequence, time, p.lastPresentedAt.isNone)

def firstIndex (p : PresentationDeadlinePlanner) (now : ℕ) (bound : Option PrimaryRefreshClaim) : ℕ :=
  match bound with
  | none => stepsPast (p.gridBase now bound).2 p.refreshNs now
  | some claim => max (stepsPast (p.gridBase now bound).2 p.refreshNs (max now claim.presentationTime))
      (claim.sequence + 1 - (p.gridBase now bound).1)

theorem firstLater_firstIndex (p : PresentationDeadlinePlanner) (now : ℕ) (bound : Option PrimaryRefreshClaim) :
    p.FirstLater now bound (p.firstIndex now bound) := by
  unfold FirstLater firstIndex
  cases bound with
  | none =>
    refine ⟨⟨one_le_stepsPast, lt_add_stepsPast_mul refreshNs_pos, nofun⟩, fun k hk => ?_⟩
    exact (stepsPast_le_iff refreshNs_pos hk.1).mpr hk.2.present
  | some claim =>
    dsimp only
    generalize p.gridBase now (some claim) = base
    set k := max (stepsPast base.2 p.refreshNs (max now claim.presentationTime)) (claim.sequence + 1 - base.1) with hk
    have hone : 1 ≤ k := one_le_stepsPast.trans (le_max_left _ _)
    have htime : max now claim.presentationTime < base.2 + k * p.refreshNs :=
      (stepsPast_le_iff refreshNs_pos hone).mp (le_max_left _ _)
    have hsequence : claim.sequence + 1 - base.1 ≤ k := le_max_right _ _
    refine ⟨⟨hone, (le_max_left _ _).trans_lt htime, ?_⟩, fun n hn => max_le ?_ ?_⟩
    · rintro _ ⟨⟩
      exact ⟨by omega, (le_max_right _ _).trans_lt htime⟩
    · exact (stepsPast_le_iff refreshNs_pos hn.1).mpr (max_lt hn.2.present (hn.2.claim claim rfl).2)
    · have := (hn.2.claim claim rfl).1
      omega

theorem bind_intervals {β : Type} {sequence base step t : ℕ} (hstep : 0 < step) (f : ℕ × ℕ → Option β) : (do
      let intervals ← U64.checkedAdd (← U64.checkedDiv (t - base) step) 1
      let r ← advance sequence base intervals step
      f r) = advance sequence base (stepsPast base step t) step >>= f := by
  have hdiv : U64.checkedDiv (t - base) step = some ((t - base) / step) :=
    U64.checkedDiv_eq_some.mpr ⟨rfl, hstep.ne'⟩
  rw [hdiv]
  change (U64.checked (stepsPast base step t)).bind (fun k => advance sequence base k step >>= f) = _
  unfold U64.checked
  split_ifs with h
  · rfl
  · have hnone : advance sequence base (stepsPast base step t) step = none := by
      rw [Option.eq_none_iff_forall_ne_some]
      intro r hr
      have hle : stepsPast base step t ≤ stepsPast base step t * step := Nat.le_mul_of_pos_right _ hstep
      have htime := (advance_eq_some.mp hr).2.2
      omega
    rw [hnone]
    rfl

theorem firstFutureRefresh_eq (p : PresentationDeadlinePlanner) (now : ℕ) :
    p.firstFutureRefresh now = p.refreshAt now none (p.firstIndex now none) := by
  unfold firstFutureRefresh refreshAt firstIndex
  cases hanchor : p.lastPresentedAt with
  | none =>
    have hsteps : stepsPast now p.refreshNs now = 1 := by rw [stepsPast, Nat.sub_self, Nat.zero_div]
    have hmul : U64.checkedMul 1 p.refreshNs = some p.refreshNs := by
      rw [U64.checkedMul_eq_some, Nat.one_mul, ← durationNs_refreshInterval]
      exact ⟨rfl, min_le_right _ _⟩
    simp only [gridBase_now hanchor, hsteps, advance, hmul, durationNs_refreshInterval, Option.bind_eq_bind,
      Option.bind_some]
    cases U64.checkedAdd p.lastPresentedSequence 1 with
    | none => rfl
    | some sequence =>
      cases U64.checkedAdd now p.refreshNs with
      | none => rfl
      | some time => rfl
  | some anchor =>
    simp only [gridBase_anchor hanchor]
    exact bind_intervals refreshNs_pos _

theorem firstFutureRefreshAfter_eq (p : PresentationDeadlinePlanner) (now : ℕ) {claim : PrimaryRefreshClaim}
    (hcurrent : claim.clockGeneration = p.clockGeneration) :
    p.firstFutureRefreshAfter now claim = p.refreshAt now (some claim) (p.firstIndex now (some claim)) := by
  unfold firstFutureRefreshAfter
  rw [if_neg (not_not.mpr hcurrent)]
  dsimp only
  cases hanchor : p.lastPresentedAt with
  | none =>
    have hindex : p.firstIndex now (some claim) =
        stepsPast claim.presentationTime p.refreshNs (max now claim.presentationTime) := by
      rw [firstIndex, gridBase_claim hanchor, Nat.add_sub_cancel_left]
      exact max_eq_left one_le_stepsPast
    rw [hindex, refreshAt, gridBase_claim hanchor, hanchor, if_pos (by decide)]
    exact bind_intervals refreshNs_pos _
  | some anchor =>
    set k := stepsPast anchor p.refreshNs (max now claim.presentationTime) with hk
    have hfirst : p.firstFutureRefresh (max now claim.presentationTime) = do
        let (sequence, time) ← advance p.lastPresentedSequence anchor k p.refreshNs
        return (sequence, time, false) := by
      rw [firstFutureRefresh_eq, refreshAt, firstIndex, gridBase_anchor hanchor, hanchor]
      rfl
    have hindex : p.firstIndex now (some claim) = max k (claim.sequence + 1 - p.lastPresentedSequence) := by
      rw [firstIndex, gridBase_anchor hanchor]
    have hsome : ¬(some anchor).isNone = true := Bool.false_ne_true
    rw [if_neg hsome, hfirst, refreshAt, hindex, gridBase_anchor hanchor, hanchor]
    dsimp only
    cases hadvance : advance p.lastPresentedSequence anchor k p.refreshNs with
    | none =>
      rw [advance_eq_none_mono hadvance (le_max_left _ _)]
      rfl
    | some r =>
      obtain ⟨rfl, -, -⟩ := advance_eq_some.mp hadvance
      have htime : max now claim.presentationTime < anchor + k * p.refreshNs := lt_add_stepsPast_mul refreshNs_pos
      have hlate : ¬anchor + k * p.refreshNs ≤ claim.presentationTime :=
        Nat.not_le.mpr ((le_max_right _ _).trans_lt htime)
      simp only [Option.bind_eq_bind, Option.bind_some, Option.pure_def, hlate, if_false]
      -- the code advances past `now` and then past the claim; the steps add up
      by_cases hsequence : p.lastPresentedSequence + k ≤ claim.sequence
      · have hmax : max k (claim.sequence + 1 - p.lastPresentedSequence) =
            k + (claim.sequence - (p.lastPresentedSequence + k) + 1) := by omega
        have hsub : U64.checkedSub claim.sequence (p.lastPresentedSequence + k) =
            some (claim.sequence - (p.lastPresentedSequence + k)) := U64.checkedSub_eq_some.mpr ⟨rfl, hsequence⟩
        rw [if_pos hsequence, hsub, hmax, ← advance_advance hadvance]
        simp only [Option.bind_some, Nat.max_zero]
        cases hsteps : U64.checkedAdd (claim.sequence - (p.lastPresentedSequence + k)) 1 with
        | none =>
          have hover : advance (p.lastPresentedSequence + k) (anchor + k * p.refreshNs)
              (claim.sequence - (p.lastPresentedSequence + k) + 1) p.refreshNs = none := by
            rw [Option.eq_none_iff_forall_ne_some]
            intro r hr
            have hle := (advance_eq_some.mp hr).2.1
            rw [Option.eq_none_iff_forall_ne_some] at hsteps
            exact hsteps _ (U64.checkedAdd_eq_some.mpr ⟨rfl, by omega⟩)
          rw [hover]
          rfl
        | some steps =>
          obtain ⟨rfl, -⟩ := U64.checkedAdd_eq_some.mp hsteps
          rw [Option.bind_some, if_pos (Nat.succ_pos _)]
          rfl
      · have hmax : max k (claim.sequence + 1 - p.lastPresentedSequence) = k := by omega
        rw [if_neg hsequence, hmax, hadvance]
        rfl

/-! ### The planners -/

def boundOf (p : PresentationDeadlinePlanner) (bound : PresentationTarget) : Option PrimaryRefreshClaim :=
  if bound.clockGeneration = p.clockGeneration ∧ bound.physicalClaim.clockGeneration = p.clockGeneration then
    some bound.physicalClaim
  else none

def Picks (p : PresentationDeadlinePlanner) (now : ℕ) (bound : Option PrimaryRefreshClaim)
    (target : PresentationTarget) : Prop :=
  ∃ k, p.FirstLater now bound k ∧ target.sequence = (p.gridBase now bound).1 + k ∧
    target.presentationTime = (p.gridBase now bound).2 + k * p.refreshNs ∧
    target.physicalClaim = ⟨target.sequence, target.presentationTime, p.clockGeneration⟩ ∧
    target.sequence ≤ U64.top ∧ target.presentationTime ≤ U64.top

def OutOfRange (p : PresentationDeadlinePlanner) (now cost : ℕ) (bound : Option PrimaryRefreshClaim) : Prop :=
  U64.top < now + durationNs cost ∨
    ∀ k, 1 ≤ k → LaterThan now bound ((p.gridBase now bound).1 + k) ((p.gridBase now bound).2 + k * p.refreshNs) →
      now + durationNs cost ≤ (p.gridBase now bound).2 + k * p.refreshNs →
      U64.top < (p.gridBase now bound).1 + k ∨ U64.top < (p.gridBase now bound).2 + k * p.refreshNs

theorem selected_eq (p : PresentationDeadlinePlanner) (now : ℕ) (bound : PresentationTarget)
    (hcurrent : p.isCurrent bound = true) :
    p.firstFutureRefreshAfter now (p.physicalPredecessorFor bound).physicalClaim =
      p.refreshAt now (p.boundOf bound) (p.firstIndex now (p.boundOf bound)) := by
  have hclaim : (p.physicalPredecessorFor bound).physicalClaim = bound.physicalClaim := by
    rw [physicalPredecessorFor, primaryRefreshFrontier, if_pos hcurrent]
  have hgeneration : bound.clockGeneration = p.clockGeneration := beq_iff_eq.mp hcurrent
  rw [hclaim, boundOf]
  by_cases hsame : bound.physicalClaim.clockGeneration = p.clockGeneration
  · rw [if_pos ⟨hgeneration, hsame⟩, firstFutureRefreshAfter_eq p now hsame]
  · rw [if_neg (fun h => hsame h.2), firstFutureRefreshAfter, if_pos hsame, firstFutureRefresh_eq]

theorem boundOf_of_not_current {bound : PresentationTarget} (h : ¬p.isCurrent bound = true) :
    p.boundOf bound = none :=
  if_neg fun h' => h (beq_iff_eq.mpr h'.1)

theorem refreshAt_eq_some {bound : Option PrimaryRefreshClaim} {k : ℕ} {r : ℕ × ℕ × Bool} :
    p.refreshAt now bound k = some r ↔
      r = ((p.gridBase now bound).1 + k, (p.gridBase now bound).2 + k * p.refreshNs, p.lastPresentedAt.isNone) ∧
        (p.gridBase now bound).1 + k ≤ U64.top ∧ (p.gridBase now bound).2 + k * p.refreshNs ≤ U64.top := by
  unfold refreshAt
  rw [Option.bind_eq_bind, Option.bind_eq_some_iff]
  constructor
  · rintro ⟨x, hx, ⟨⟩⟩
    obtain ⟨rfl, hfits⟩ := advance_eq_some.mp hx
    exact ⟨rfl, hfits⟩
  · rintro ⟨rfl, hfits⟩
    exact ⟨_, advance_eq_some.mpr ⟨rfl, hfits⟩, rfl⟩

theorem predictionFeasible_none {selected : ℕ × ℕ × Bool} {readyAt k : ℕ}
    (h : p.predictionFeasibleOpportunity selected readyAt = none)
    (hready : readyAt ≤ selected.2.1 + k * p.refreshNs) :
    U64.top < selected.1 + k ∨ U64.top < selected.2.1 + k * p.refreshNs := by
  unfold predictionFeasibleOpportunity at h
  split_ifs at h with hnow
  have hnone : advance selected.1 selected.2.1 ((readyAt - selected.2.1) ⌈/⌉ p.refreshNs) p.refreshNs = none := by
    rw [Option.bind_eq_bind, Option.bind_eq_none_iff] at h
    rw [Option.eq_none_iff_forall_ne_some]
    intro r hr
    exact absurd (h r hr) nofun
  have hk := advance_eq_none_mono hnone ((ceilDiv_le_iff_le_add_mul refreshNs_pos).mpr hready)
  by_contra hfits
  push Not at hfits
  exact absurd (hk.symm.trans (advance_eq_some.mpr ⟨rfl, hfits⟩)) nofun

def selecting {β : Type} (p : PresentationDeadlinePlanner) (now cost : ℕ) (bound : Option PrimaryRefreshClaim)
    (answer : ℕ → ℕ × ℕ × Bool → ℕ × ℕ × Bool → β) : Option β := do
  let readyAt ← U64.checkedAdd now (durationNs cost)
  let selected ← p.refreshAt now bound (p.firstIndex now bound)
  let feasible ← p.predictionFeasibleOpportunity selected readyAt
  return answer readyAt selected feasible

theorem selecting_cases {β : Type} {cost : ℕ} {bound : Option PrimaryRefreshClaim} {N : Prop} {Q : β → Prop}
    {answer : ℕ → ℕ × ℕ × Bool → ℕ × ℕ × Bool → β} (hnone : p.OutOfRange now cost bound → N)
    (hanswer : ∀ readyAt feasible k, p.FirstLater now bound k → (p.gridBase now bound).1 + k ≤ U64.top →
      (p.gridBase now bound).2 + k * p.refreshNs ≤ U64.top →
      Q (answer readyAt ((p.gridBase now bound).1 + k, (p.gridBase now bound).2 + k * p.refreshNs,
        p.lastPresentedAt.isNone) feasible)) :
    (p.selecting now cost bound answer).elim N Q := by
  unfold selecting
  have hfirst := p.firstLater_firstIndex now bound
  generalize p.firstIndex now bound = k at hfirst ⊢
  cases hready : U64.checkedAdd now (durationNs cost) with
  | none =>
    refine hnone (.inl (Nat.lt_of_not_le fun hle => ?_))
    exact absurd (hready.symm.trans (U64.checkedAdd_eq_some.mpr ⟨rfl, hle⟩)) nofun
  | some readyAt =>
    obtain ⟨rfl, -⟩ := U64.checkedAdd_eq_some.mp hready
    cases hselected : p.refreshAt now bound k with
    | none =>
      refine hnone (.inr fun n hn hlater _ => ?_)
      have hkn : k ≤ n := hfirst.2 ⟨hn, hlater⟩
      have hmul : k * p.refreshNs ≤ n * p.refreshNs := Nat.mul_le_mul_right _ hkn
      by_contra hfits
      push Not at hfits
      exact absurd (hselected.symm.trans (refreshAt_eq_some.mpr ⟨rfl, by omega, by omega⟩)) nofun
    | some selected =>
      obtain ⟨rfl, hsequence, htime⟩ := refreshAt_eq_some.mp hselected
      dsimp only [Option.bind_eq_bind, Option.bind_some]
      cases hfeasible : p.predictionFeasibleOpportunity _ (now + durationNs cost) with
      | none =>
        refine hnone (.inr fun n hn hlater hn' => ?_)
        obtain ⟨m, rfl⟩ := Nat.exists_eq_add_of_le (hfirst.2 ⟨hn, hlater⟩ : k ≤ n)
        have hsplit : (p.gridBase now bound).2 + (k + m) * p.refreshNs =
            (p.gridBase now bound).2 + k * p.refreshNs + m * p.refreshNs := by ring
        rw [hsplit] at hn' ⊢
        rw [← Nat.add_assoc]
        exact predictionFeasible_none hfeasible hn'
      | some feasible => exact hanswer _ feasible k hfirst hsequence htime

theorem reactiveTargetAfter_picks (p : PresentationDeadlinePlanner) (now cost : ℕ) (bound : PresentationTarget) :
    (p.reactiveTargetAfter now cost bound).elim (p.OutOfRange now cost (p.boundOf bound))
      (p.Picks now (p.boundOf bound)) := by
  have hselected : (if p.isCurrent bound then
      p.firstFutureRefreshAfter now (p.physicalPredecessorFor bound).physicalClaim
    else p.firstFutureRefresh now) = p.refreshAt now (p.boundOf bound) (p.firstIndex now (p.boundOf bound)) := by
    split_ifs with hcurrent
    · exact selected_eq p now bound hcurrent
    · rw [boundOf_of_not_current hcurrent, firstFutureRefresh_eq]
  unfold reactiveTargetAfter
  rw [hselected]
  exact selecting_cases id fun _ _ k hfirst hsequence htime => ⟨k, hfirst, rfl, rfl, rfl, hsequence, htime⟩

theorem reactiveTarget_picks (p : PresentationDeadlinePlanner) (now cost : ℕ) :
    (p.reactiveTarget now cost).elim (p.OutOfRange now cost none) (p.Picks now none) := by
  unfold reactiveTarget
  rw [firstFutureRefresh_eq]
  exact selecting_cases id fun _ _ k hfirst hsequence htime => ⟨k, hfirst, rfl, rfl, rfl, hsequence, htime⟩

theorem planSuccessorAfter_picks (p : PresentationDeadlinePlanner) (now cost : ℕ) (bound : PresentationTarget)
    (reason : PresentationTargetReason) : (p.planSuccessorAfter bound now cost reason).elim
      (p.isCurrent bound = false ∨ p.OutOfRange now cost (p.boundOf bound))
      fun r => p.isCurrent bound = true ∧ p.Picks now (p.boundOf bound) r.1 := by
  unfold planSuccessorAfter
  cases hcurrent : p.isCurrent bound with
  | false => exact .inl rfl
  | true =>
    rw [if_neg (by decide)]
    dsimp only
    rw [selected_eq p now bound hcurrent]
    exact selecting_cases .inr fun _ _ k hfirst hsequence htime =>
      ⟨rfl, k, hfirst, rfl, rfl, rfl, hsequence, htime⟩

def OnAnchorGrid (p : PresentationDeadlinePlanner) (anchor sequence time : ℕ) : Prop :=
  (time : ℤ) - anchor = ((sequence : ℤ) - p.lastPresentedSequence) * p.refreshNs

/-- The target is the refresh right after the pending claim. It is missed only if it says so, for a reason that pursues
missed refreshes, and is on the anchor's grid when the claim is. -/
structure RunsAhead (p : PresentationDeadlinePlanner) (pending : PresentationTarget) (now cost : ℕ)
    (reason : PresentationTargetReason) (target : PresentationTarget) : Prop where
  current : p.isCurrent pending = true
  sequence : target.sequence = pending.physicalClaim.sequence + 1
  time : target.presentationTime = pending.physicalClaim.presentationTime + p.refreshNs
  claim : target.physicalClaim = ⟨target.sequence, target.presentationTime, p.clockGeneration⟩
  fits : target.sequence ≤ U64.top ∧ target.presentationTime ≤ U64.top
  missed : target.presentationTime < now + durationNs cost ↔ target.predictedUnreachable = true
  pursued : target.predictedUnreachable = true → PursuesUnreachable reason = true
  grid : ∀ anchor, p.lastPresentedAt = some anchor →
    (p.OnAnchorGrid anchor target.sequence target.presentationTime ↔
      p.OnAnchorGrid anchor pending.physicalClaim.sequence pending.physicalClaim.presentationTime)

theorem planRenderAhead_runsAhead {pending target : PresentationTarget} {cost : ℕ} {reason : PresentationTargetReason}
    {p' : PresentationDeadlinePlanner} (h : p.planRenderAhead pending now cost reason = some (target, p')) :
    p.RunsAhead pending now cost reason target := by
  unfold planRenderAhead at h
  cases hcurrent : p.isCurrent pending with
  | false =>
    rw [hcurrent] at h
    exact absurd h nofun
  | true =>
    have hpredecessor : (p.physicalPredecessorFor pending).sequence = pending.physicalClaim.sequence ∧
        (p.physicalPredecessorFor pending).presentationTime = pending.physicalClaim.presentationTime ∧
        (p.physicalPredecessorFor pending).refreshInterval = p.refreshInterval := by
      rw [physicalPredecessorFor, primaryRefreshFrontier, if_pos hcurrent]
      exact ⟨rfl, rfl, rfl⟩
    rw [hcurrent, if_neg (by decide)] at h
    dsimp only at h
    rw [hpredecessor.1, hpredecessor.2.1, hpredecessor.2.2, durationNs_refreshInterval] at h
    obtain ⟨sequence, hsequence, h⟩ := Option.bind_eq_some_iff.mp h
    obtain ⟨time, htime, h⟩ := Option.bind_eq_some_iff.mp h
    obtain ⟨readyAt, hready, h⟩ := Option.bind_eq_some_iff.mp h
    obtain ⟨rfl, hsequenceFits⟩ := U64.checkedAdd_eq_some.mp hsequence
    obtain ⟨rfl, htimeFits⟩ := U64.checkedAdd_eq_some.mp htime
    obtain ⟨rfl, -⟩ := U64.checkedAdd_eq_some.mp hready
    split_ifs at h with hpursued
    obtain ⟨feasible, -, h⟩ := Option.bind_eq_some_iff.mp h
    cases h
    refine ⟨hcurrent, rfl, rfl, rfl, ⟨hsequenceFits, htimeFits⟩, decide_eq_true_iff.symm, fun hmissed => ?_,
      fun anchor _ => ?_⟩
    · have hmissed' : decide (pending.physicalClaim.presentationTime + p.refreshNs < now + durationNs cost) = true :=
        hmissed
      rw [hmissed'] at hpursued
      simpa using hpursued
    · change p.OnAnchorGrid anchor (pending.physicalClaim.sequence + 1)
        (pending.physicalClaim.presentationTime + p.refreshNs) ↔ _
      unfold OnAnchorGrid
      push_cast
      constructor
      · intro h
        linarith
      · intro h
        linarith

theorem claimIsStrictlyEarlier_iff {candidate upperBound : PrimaryRefreshClaim} :
    claimIsStrictlyEarlier candidate upperBound = true ↔ candidate.Before upperBound := by
  simp only [claimIsStrictlyEarlier, Bool.and_eq_true, decide_eq_true_eq, beq_iff_eq]
  exact ⟨fun h => ⟨h.2, h.1.1, h.1.2⟩, fun h => ⟨⟨h.sequence, h.time⟩, h.generation⟩⟩

theorem earliestReachableAfterClaim_later {readyAt : ℕ} {frontier candidate : PrimaryRefreshClaim}
    (h : p.earliestReachableAfterClaim readyAt frontier = some candidate) :
    frontier.Before candidate ∧ candidate.sequence ≤ U64.top ∧ candidate.presentationTime ≤ U64.top := by
  have hpos := p.refreshNs_pos
  unfold earliestReachableAfterClaim at h
  rw [durationNs_refreshInterval] at h
  obtain ⟨sequence, hsequence, h⟩ := Option.bind_eq_some_iff.mp h
  obtain ⟨time, htime, h⟩ := Option.bind_eq_some_iff.mp h
  obtain ⟨rfl, hsequenceFits⟩ := U64.checkedAdd_eq_some.mp hsequence
  obtain ⟨rfl, htimeFits⟩ := U64.checkedAdd_eq_some.mp htime
  split_ifs at h with hlate
  · obtain ⟨r, hr, h⟩ := Option.bind_eq_some_iff.mp h
    obtain ⟨rfl, hfits⟩ := advance_eq_some.mp hr
    cases h
    exact ⟨⟨rfl, by dsimp only; omega, by dsimp only; omega⟩, hfits⟩
  · cases h
    exact ⟨⟨rfl, Nat.lt_succ_self _, Nat.lt_add_of_pos_right hpos⟩, hsequenceFits, htimeFits⟩

structure PullsIn (frontier : PrimaryRefreshClaim) (current : PresentationTarget) (pull : ReadyTargetPullIn) :
    Prop where
  abandoned : pull.abandonedTarget = current
  sequence : pull.replacementTarget.sequence = pull.replacementTarget.physicalClaim.sequence
  time : pull.replacementTarget.presentationTime = pull.replacementTarget.physicalClaim.presentationTime
  after : frontier.Before pull.replacementTarget.physicalClaim
  before : pull.replacementTarget.physicalClaim.Before current.physicalClaim
  fits : pull.replacementTarget.sequence ≤ U64.top ∧ pull.replacementTarget.presentationTime ≤ U64.top

theorem readyTargetPullIn_pullsIn {service : ReadyPresentationServiceEstimate} {frontier : PrimaryRefreshClaim}
    {current : PresentationTarget} {pull : ReadyTargetPullIn}
    (h : p.readyTargetPullIn now service frontier current = some pull) : PullsIn frontier current pull := by
  unfold readyTargetPullIn at h
  split_ifs at h with hrefused
  obtain ⟨readyAt, -, h⟩ := Option.bind_eq_some_iff.mp h
  obtain ⟨candidate, hcandidate, h⟩ := Option.bind_eq_some_iff.mp h
  split_ifs at h with hlate
  cases h
  obtain ⟨hafter, hfits⟩ := earliestReachableAfterClaim_later hcandidate
  refine ⟨rfl, rfl, rfl, hafter, ?_, hfits⟩
  rw [Bool.not_eq_true, Bool.not_eq_false'] at hlate
  exact claimIsStrictlyEarlier_iff.mp hlate

theorem planning_moves_forward (p : PresentationDeadlinePlanner) (now cost : ℕ) :
    (p.reactiveTarget now cost).elim (p.OutOfRange now cost none) (p.Picks now none) ∧
    (∀ bound, (p.reactiveTargetAfter now cost bound).elim (p.OutOfRange now cost (p.boundOf bound))
      (p.Picks now (p.boundOf bound))) ∧
    (∀ bound reason, (p.planSuccessorAfter bound now cost reason).elim
      (p.isCurrent bound = false ∨ p.OutOfRange now cost (p.boundOf bound))
      fun r => p.isCurrent bound = true ∧ p.Picks now (p.boundOf bound) r.1) ∧
    (∀ pending reason target p', p.planRenderAhead pending now cost reason = some (target, p') →
      p.RunsAhead pending now cost reason target) ∧
    ∀ service frontier current pull, p.readyTargetPullIn now service frontier current = some pull →
      PullsIn frontier current pull :=
  ⟨p.reactiveTarget_picks now cost, p.reactiveTargetAfter_picks now cost, p.planSuccessorAfter_picks now cost,
    fun _ _ _ _ => planRenderAhead_runsAhead, fun _ _ _ _ => readyTargetPullIn_pullsIn⟩

def planned : Option (PresentationTarget × PresentationDeadlinePlanner) :=
  ((new 100).notePresented 1000).2.planNormal 1010 10

def planAfter (plan : PresentationTarget → PresentationDeadlinePlanner → Option PresentationTarget) :
    Option (ℕ × ℕ) := do
  let (pending, p) ← planned
  let target ← plan pending p
  return (target.sequence, target.presentationTime)

/-- A late render-ahead is planned in the past; after a presentation off the grid it is off the new grid; a bound of
another clock is not respected; and a refresh already presented is not planned again. -/
theorem render_ahead_leaves_grid : planAfter (fun pending _ => some pending) = some (2, 1100) ∧
    planAfter (fun pending p => (p.planRenderAhead pending 5000 10 .predictedPressure).map (·.1)) = some (3, 1200) ∧
    planAfter (fun pending p =>
      ((p.notePresented 1103).2.planRenderAhead pending 1105 10 .normal).map (·.1)) = some (3, 1200) ∧
    planned.map (fun r => ((r.2.notePresented 1103).2.lastPresentedSequence,
      (r.2.notePresented 1103).2.lastPresentedAt)) = some (2, some 1103) ∧
    planAfter (fun pending p => (p.invalidate 100).reactiveTargetAfter 1110 10 pending) = some (1, 1210) ∧
    planAfter (fun pending p => p.reactiveTargetAfter 500 10
      { pending with physicalClaim := ⟨0, 400, pending.clockGeneration⟩ }) = some (2, 1100) := by
  decide +kernel

end PresentationDeadlinePlanner

end Typhon.Scanout
