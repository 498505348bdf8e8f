import Typhon.Foundation.Word64
import Typhon.Scanout.Swapchain

/-! Binding a deferred frame to a refresh after its predecessor was shown: the first later refresh whose submit window
is still open. -/

namespace Typhon.Scanout
open Foundation

def durationNs (duration : ℕ) : ℕ := min duration U64.top

namespace PrimaryRefreshClaim

def successor (claim : PrimaryRefreshClaim) (refreshInterval : ℕ) : Option PrimaryRefreshClaim := do
  let sequence ← U64.checkedAdd claim.sequence 1
  let presentationTime ← U64.checkedAdd claim.presentationTime (durationNs refreshInterval)
  return ⟨sequence, presentationTime, claim.clockGeneration⟩

def later (claim : PrimaryRefreshClaim) (refreshInterval : ℕ) : ℕ → Option PrimaryRefreshClaim
  | 0 => some claim
  | n + 1 => do (← claim.later refreshInterval n).successor refreshInterval

end PrimaryRefreshClaim

structure KmsSubmitWindowError where
  earliestSubmitNs : ℕ
  commitCompleteDeadlineNs : ℕ
  deriving DecidableEq

namespace KmsSubmitWindow

def tryNew (targetPresentationNs earliestSubmitNs dispatchBudgetNs applyGuardNs : ℕ) :
    Except KmsSubmitWindowError KmsSubmitWindow :=
  -- all subtractions saturate
  let commitCompleteDeadlineNs := targetPresentationNs - applyGuardNs
  if commitCompleteDeadlineNs < earliestSubmitNs then .error ⟨earliestSubmitNs, commitCompleteDeadlineNs⟩
  else
    let workerWakeAtNs := max earliestSubmitNs (commitCompleteDeadlineNs - dispatchBudgetNs)
    .ok ⟨none, targetPresentationNs, earliestSubmitNs, workerWakeAtNs, commitCompleteDeadlineNs, dispatchBudgetNs,
      applyGuardNs⟩

def rebind (window : KmsSubmitWindow) (targetPresentationNs earliestSubmitNs : ℕ) :
    Except KmsSubmitWindowError KmsSubmitWindow := do
  let rebound ← tryNew targetPresentationNs earliestSubmitNs window.dispatchBudgetNs window.applyGuardNs
  match window.modeKey with
  | some modeKey => return { rebound with modeKey := some modeKey }
  | none => return rebound

def FeasibleAt (window : KmsSubmitWindow) (earliestSubmitNs : ℕ) (claim : PrimaryRefreshClaim) : Prop :=
  earliestSubmitNs ≤ claim.presentationTime - window.applyGuardNs

instance (window : KmsSubmitWindow) (earliestSubmitNs : ℕ) (claim : PrimaryRefreshClaim) :
    Decidable (window.FeasibleAt earliestSubmitNs claim) := inferInstanceAs (Decidable (_ ≤ _))

def InOrder (window : KmsSubmitWindow) : Prop :=
  window.earliestSubmitNs ≤ window.workerWakeAtNs ∧ window.workerWakeAtNs ≤ window.commitCompleteDeadlineNs ∧
    window.commitCompleteDeadlineNs ≤ window.targetPresentationNs

structure Rebinds (window : KmsSubmitWindow) (targetPresentationNs earliestSubmitNs : ℕ)
    (rebound : KmsSubmitWindow) : Prop where
  target : rebound.targetPresentationNs = targetPresentationNs
  earliest : rebound.earliestSubmitNs = earliestSubmitNs
  mode : rebound.modeKey = window.modeKey
  dispatch : rebound.dispatchBudgetNs = window.dispatchBudgetNs
  guard : rebound.applyGuardNs = window.applyGuardNs
  order : rebound.InOrder

theorem rebind_of_feasible {window : KmsSubmitWindow} {earliest : ℕ} {claim : PrimaryRefreshClaim}
    (h : window.FeasibleAt earliest claim) :
    ∃ rebound, window.rebind claim.presentationTime earliest = .ok rebound ∧
      window.Rebinds claim.presentationTime earliest rebound := by
  unfold FeasibleAt at h
  have hnew : tryNew claim.presentationTime earliest window.dispatchBudgetNs window.applyGuardNs =
      .ok ⟨none, claim.presentationTime, earliest,
        max earliest (claim.presentationTime - window.applyGuardNs - window.dispatchBudgetNs),
        claim.presentationTime - window.applyGuardNs, window.dispatchBudgetNs, window.applyGuardNs⟩ :=
    if_neg (Nat.not_lt.mpr h)
  have horder : earliest ≤ max earliest (claim.presentationTime - window.applyGuardNs - window.dispatchBudgetNs) ∧
      max earliest (claim.presentationTime - window.applyGuardNs - window.dispatchBudgetNs) ≤
        claim.presentationTime - window.applyGuardNs ∧
      claim.presentationTime - window.applyGuardNs ≤ claim.presentationTime := by omega
  unfold rebind
  rw [hnew]
  cases hmode : window.modeKey with
  | none => exact ⟨_, rfl, rfl, rfl, hmode.symm, rfl, rfl, horder⟩
  | some modeKey => exact ⟨_, rfl, rfl, rfl, hmode.symm, rfl, rfl, horder⟩

theorem rebind_of_infeasible {window : KmsSubmitWindow} {earliest : ℕ} {claim : PrimaryRefreshClaim}
    (h : ¬window.FeasibleAt earliest claim) : window.rebind claim.presentationTime earliest =
      .error ⟨earliest, claim.presentationTime - window.applyGuardNs⟩ := by
  have hnew : tryNew claim.presentationTime earliest window.dispatchBudgetNs window.applyGuardNs =
      .error ⟨earliest, claim.presentationTime - window.applyGuardNs⟩ := if_pos (Nat.lt_of_not_le h)
  unfold rebind
  rw [hnew]
  rfl

end KmsSubmitWindow

def O1PrepareIntent.bindTarget (intent : O1PrepareIntent) (claim : PrimaryRefreshClaim) (submitNotBefore : ℕ) :
    PresentationTarget where
  sequence := claim.sequence
  presentationTime := claim.presentationTime
  submitNotBefore := submitNotBefore
  renderStartDeadline := submitNotBefore
  refreshInterval := intent.refreshInterval
  reason := intent.reason
  clockGeneration := claim.clockGeneration
  estimated := false
  predictedUnreachable := false
  physicalClaim := claim
  selectionEvidence := ⟨claim.sequence, true⟩

inductive DeferredO1BindingFailure where
  | generationMismatch
  | identityMismatch
  deriving DecidableEq

inductive DeferredO1BindingReadiness where
  | notDeferred
  | waitingForPredecessor
  | bindable (predecessor : O1PredecessorAnchor) (actualClaim : PrimaryRefreshClaim)
  | stale (failure : DeferredO1BindingFailure)
  deriving DecidableEq

namespace RenderedOutputFrame

def requireFixedSubmitWindow (frame : RenderedOutputFrame) : Run IoError KmsSubmitWindow :=
  match frame.presentationTiming with
  | .fixed window => .ok window
  | .variableRate _ => Run.fail "variable presentation timing is not active in the output runtime"

def bindLoop (frame : RenderedOutputFrame) (intent : O1PrepareIntent) (actualClaim : PrimaryRefreshClaim)
    (earliestSubmitNs : ℕ) : ℕ → PrimaryRefreshClaim →
      Run IoError (OutputTransactionId × PresentationTarget × KmsSubmitWindow × ℕ)
  | 0, _ => Run.diverge
  | fuel + 1, claim => do
    let target := intent.bindTarget claim earliestSubmitNs
    let window ← frame.requireFixedSubmitWindow
    match window.rebind target.presentationTime earliestSubmitNs with
    | .ok window =>
      let advancedIntervals := target.physicalClaim.sequence - actualClaim.sequence - 1
      return (frame.transactionId, target, window, advancedIntervals)
    | .error _ =>
      let claim ← Run.okOr "deferred O1 feasible claim overflowed" (claim.successor intent.refreshInterval)
      bindLoop frame intent actualClaim earliestSubmitNs fuel claim

end RenderedOutputFrame

/-- Every round of the loop raises the `u64` sequence, so more rounds than there are sequences never end. -/
def bindRounds : ℕ := 18446744073709551616

def deferredO1BindingCandidateForReadiness (readiness : DeferredO1BindingReadiness) (bindAt : ℕ)
    (c : AtomicOutputSwapchain) :
    Run IoError (Option (OutputTransactionId × PresentationTarget × KmsSubmitWindow × ℕ)) :=
  match readiness with
  | .notDeferred | .waitingForPredecessor => .ok none
  | .stale _ => Run.fail "deferred O1 predecessor identity is stale at binding"
  | .bindable predecessor actualClaim =>
    match c.ready with
    | none => .ok none
    | some frame =>
      match frame.reservation with
      | .deferredO1 intent => do
        Run.rejectIf (intent.predecessor ≠ predecessor) "deferred O1 predecessor identity changed before binding"
        let earliestSubmitNs := max bindAt (U64.saturatingAdd actualClaim.presentationTime 100000)
        let claim ← Run.okOr "deferred O1 successor claim overflowed" (actualClaim.successor intent.refreshInterval)
        return some (← frame.bindLoop intent actualClaim earliestSubmitNs bindRounds claim)
      | _ => .ok none

/-! ### The first feasible refresh -/

section loop
variable {frame : RenderedOutputFrame} {intent : O1PrepareIntent} {actual claim : PrimaryRefreshClaim}
  {window : KmsSubmitWindow} {earliest : ℕ}

theorem sequence_of_successor {next : PrimaryRefreshClaim} {interval : ℕ} (h : claim.successor interval = some next) :
    next.sequence = claim.sequence + 1 ∧ next.sequence ≤ U64.top := by
  unfold PrimaryRefreshClaim.successor at h
  obtain ⟨sequence, hsequence, h⟩ := Option.bind_eq_some_iff.mp h
  obtain ⟨time, -, h⟩ := Option.bind_eq_some_iff.mp h
  cases h
  exact U64.checkedAdd_eq_some.mp hsequence

theorem sequence_of_later {interval n : ℕ} (h : actual.later interval n = some claim) :
    claim.sequence = actual.sequence + n := by
  induction n generalizing claim with
  | zero =>
    cases h
    rfl
  | succ n ih =>
    obtain ⟨previous, hprevious, h⟩ := Option.bind_eq_some_iff.mp h
    rw [(sequence_of_successor h).1, ih hprevious, Nat.add_assoc]

def NoneBefore (window : KmsSubmitWindow) (actual : PrimaryRefreshClaim) (interval earliest n : ℕ) : Prop :=
  ∀ m claim, 1 ≤ m → m < n → actual.later interval m = some claim → ¬window.FeasibleAt earliest claim

def BindsFirst (frame : RenderedOutputFrame) (intent : O1PrepareIntent) (actual : PrimaryRefreshClaim)
    (window : KmsSubmitWindow) (earliest : ℕ) :
    Run IoError (OutputTransactionId × PresentationTarget × KmsSubmitWindow × ℕ) → Prop
  | .ok (id, target, rebound, advanced) =>
    id = frame.transactionId ∧ ∃ n claim, 1 ≤ n ∧ actual.later intent.refreshInterval n = some claim ∧
      target = intent.bindTarget claim earliest ∧ window.FeasibleAt earliest claim ∧
      NoneBefore window actual intent.refreshInterval earliest n ∧ advanced = n - 1 ∧
      window.Rebinds claim.presentationTime earliest rebound
  | .error (.error _) =>
    ∀ n claim, 1 ≤ n → actual.later intent.refreshInterval n = some claim → ¬window.FeasibleAt earliest claim
  | .error _ => False

theorem later_none {interval n : ℕ} (hclaim : actual.later interval n = some claim)
    (hend : claim.successor interval = none) {m : ℕ} (hm : n < m) : actual.later interval m = none := by
  induction m, hm using Nat.le_induction with
  | base =>
    rw [PrimaryRefreshClaim.later, hclaim]
    exact hend
  | succ m _ ih =>
    rw [PrimaryRefreshClaim.later, ih]
    rfl

theorem bindLoop_bindsFirst (hwindow : frame.presentationTiming = .fixed window) {fuel n : ℕ} (hn : 1 ≤ n)
    (hclaim : actual.later intent.refreshInterval n = some claim)
    (hbefore : NoneBefore window actual intent.refreshInterval earliest n)
    (hfuel : U64.top < claim.sequence + fuel) (hword : claim.sequence ≤ U64.top) :
    BindsFirst frame intent actual window earliest (frame.bindLoop intent actual earliest fuel claim) := by
  -- the loop stands at the `n`th refresh after `actual`, with none feasible before
  induction fuel generalizing n claim with
  | zero => omega
  | succ fuel ih =>
    have hrequire : frame.requireFixedSubmitWindow = .ok window := by
      rw [RenderedOutputFrame.requireFixedSubmitWindow, hwindow]
    rw [RenderedOutputFrame.bindLoop, hrequire, Run.ok_bind]
    by_cases hfeasible : window.FeasibleAt earliest claim
    · obtain ⟨rebound, hrebound, hrebinds⟩ := KmsSubmitWindow.rebind_of_feasible hfeasible
      have hsequence := sequence_of_later hclaim
      have hadvanced : claim.sequence - actual.sequence - 1 = n - 1 := by omega
      change BindsFirst frame intent actual window earliest
        (match window.rebind claim.presentationTime earliest with
          | .ok window => return (frame.transactionId, intent.bindTarget claim earliest, window,
              claim.sequence - actual.sequence - 1)
          | .error _ => _)
      rw [hrebound]
      exact ⟨rfl, n, claim, hn, hclaim, rfl, hfeasible, hbefore, hadvanced, hrebinds⟩
    · have hinfeasible := KmsSubmitWindow.rebind_of_infeasible hfeasible
      change BindsFirst frame intent actual window earliest
        (match window.rebind claim.presentationTime earliest with
          | .ok window => _
          | .error _ => do
            let claim ← Run.okOr "deferred O1 feasible claim overflowed" (claim.successor intent.refreshInterval)
            frame.bindLoop intent actual earliest fuel claim)
      rw [hinfeasible]
      dsimp only
      cases hnext : claim.successor intent.refreshInterval with
      | none =>
        intro m later hm hlater
        rcases Nat.lt_trichotomy m n with hlt | rfl | hgt
        · exact hbefore m later hm hlt hlater
        · cases hclaim.symm.trans hlater
          exact hfeasible
        · exact absurd ((later_none hclaim hnext hgt).symm.trans hlater) nofun
      | some next =>
        obtain ⟨hsequence, hnextWord⟩ := sequence_of_successor hnext
        have hlater : actual.later intent.refreshInterval (n + 1) = some next := by
          rw [PrimaryRefreshClaim.later, hclaim]
          exact hnext
        refine ih (Nat.le_succ_of_le hn) hlater (fun m later hm hlt hmlater => ?_) (by omega) hnextWord
        rcases Nat.lt_or_ge m n with hlt' | hge
        · exact hbefore m later hm hlt' hmlater
        · obtain rfl : m = n := by omega
          cases hclaim.symm.trans hmlater
          exact hfeasible

theorem bindLoop_ne_diverge {fuel : ℕ} (hfuel : U64.top < claim.sequence + fuel) (hword : claim.sequence ≤ U64.top) :
    frame.bindLoop intent actual earliest fuel claim ≠ Run.diverge := by
  induction fuel generalizing claim with
  | zero => omega
  | succ fuel ih =>
    unfold RenderedOutputFrame.bindLoop RenderedOutputFrame.requireFixedSubmitWindow
    cases frame.presentationTiming with
    | variableRate _ => nofun
    | fixed window =>
      rw [Run.ok_bind]
      cases window.rebind (intent.bindTarget claim earliest).presentationTime earliest with
      | ok rebound => nofun
      | error e =>
        dsimp only
        cases hnext : claim.successor intent.refreshInterval with
        | none => nofun
        | some next =>
          obtain ⟨hsequence, hnextWord⟩ := sequence_of_successor hnext
          exact ih (by omega) hnextWord

end loop

theorem top_lt_bindRounds (n : ℕ) : U64.top < n + bindRounds := by
  unfold U64.top bindRounds
  omega

theorem candidate_ne_diverge (readiness : DeferredO1BindingReadiness) (bindAt : ℕ) (c : AtomicOutputSwapchain) :
    deferredO1BindingCandidateForReadiness readiness bindAt c ≠ Run.diverge := by
  unfold deferredO1BindingCandidateForReadiness
  split
  · nofun
  · nofun
  · nofun
  · next predecessor actual =>
    split
    · nofun
    · next frame _ =>
      split
      · next intent _ =>
        by_cases hpredecessor : intent.predecessor ≠ predecessor
        · rw [Run.rejectIf, if_pos hpredecessor]
          nofun
        · rw [Run.rejectIf, if_neg hpredecessor]
          cases hclaim : actual.successor intent.refreshInterval with
          | none => nofun
          | some claim =>
            have hends : frame.bindLoop intent actual
                (max bindAt (U64.saturatingAdd actual.presentationTime 100000)) bindRounds claim ≠ Run.diverge :=
              bindLoop_ne_diverge (top_lt_bindRounds claim.sequence) (sequence_of_successor hclaim).2
            intro h
            change (frame.bindLoop _ _ _ _ _ >>= _) = _ at h
            generalize frame.bindLoop intent actual _ bindRounds claim = result at h hends
            cases result with
            | ok r => exact absurd h nofun
            | error e => exact hends (congrArg _ (Except.error.inj h))
      · nofun

/-- The ready frame waits for the predecessor that was shown, and has a fixed window to move. -/
structure Bindable (readiness : DeferredO1BindingReadiness) (c : AtomicOutputSwapchain) (actual : PrimaryRefreshClaim)
    (frame : RenderedOutputFrame) (intent : O1PrepareIntent) (window : KmsSubmitWindow) : Prop where
  shown : readiness = .bindable intent.predecessor actual
  ready : c.ready = some frame
  deferred : frame.reservation = .deferredO1 intent
  fixed : frame.presentationTiming = .fixed window

theorem deferred_binding_first_feasible (readiness : DeferredO1BindingReadiness) (bindAt : ℕ)
    (c : AtomicOutputSwapchain) : deferredO1BindingCandidateForReadiness readiness bindAt c ≠ Run.diverge ∧
    ∀ actual frame intent window, Bindable readiness c actual frame intent window →
      ∃ result, deferredO1BindingCandidateForReadiness readiness bindAt c = some <$> result ∧
        BindsFirst frame intent actual window (max bindAt (U64.saturatingAdd actual.presentationTime 100000))
          result := by
  refine ⟨candidate_ne_diverge readiness bindAt c, ?_⟩
  rintro actual frame intent window ⟨rfl, hready, hdeferred, hfixed⟩
  unfold deferredO1BindingCandidateForReadiness
  rw [hready]
  dsimp only
  rw [hdeferred]
  dsimp only
  rw [Run.rejectIf, if_neg (not_not.mpr rfl)]
  cases hclaim : actual.successor intent.refreshInterval with
  | none =>
    refine ⟨Run.fail "deferred O1 successor claim overflowed", rfl, fun n claim hn hlater => ?_⟩
    exact absurd ((later_none rfl hclaim hn).symm.trans hlater) nofun
  | some claim =>
    refine ⟨_, rfl, bindLoop_bindsFirst hfixed le_rfl ?_ (fun m _ hm hlt => absurd hm (Nat.not_le.mpr hlt))
      (top_lt_bindRounds claim.sequence) (sequence_of_successor hclaim).2⟩
    exact hclaim

def anchorSeven : O1PredecessorAnchor := ⟨7, ⟨7, by decide⟩, ⟨7, by decide⟩, 1⟩

def intentAfterSeven : O1PrepareIntent :=
  ⟨1, anchorSeven, 8, 32000000, 20000000, 16000000, .normal, 1, false, false, ⟨8, true⟩⟩

def windowOfEight : KmsSubmitWindow := ⟨none, 32000000, 16000000, 28000000, 31000000, 3000000, 1000000⟩

def frameAfterSeven : RenderedOutputFrame := ⟨⟨8, by decide⟩, .deferredO1 intentAfterSeven, .fixed windowOfEight⟩

/-- The predecessor was shown at 16 ms; by 40 ms the refresh at 32 ms is out of reach. -/
theorem deferred_binding_first_feasible_late :
    Bindable (.bindable anchorSeven ⟨7, 16000000, 1⟩) ⟨some frameAfterSeven⟩ ⟨7, 16000000, 1⟩ frameAfterSeven
        intentAfterSeven windowOfEight ∧
      ∃ result, deferredO1BindingCandidateForReadiness (.bindable anchorSeven ⟨7, 16000000, 1⟩) 40000000
          ⟨some frameAfterSeven⟩ = some <$> result ∧
        BindsFirst frameAfterSeven intentAfterSeven ⟨7, 16000000, 1⟩ windowOfEight 40000000 result :=
  ⟨⟨rfl, rfl, rfl, rfl⟩, (deferred_binding_first_feasible _ 40000000 _).2 _ _ _ _ ⟨rfl, rfl, rfl, rfl⟩⟩

end Typhon.Scanout
