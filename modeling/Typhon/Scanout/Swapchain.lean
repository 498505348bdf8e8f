import Typhon.Foundation.Fault

/-! The frame an output swapchain holds ready, and what its reservation and its timing say. -/

namespace Typhon.Scanout
open Foundation

/-! ### Physical claims on refresh opportunities, and the reservation that each output frame carries -/

abbrev NonZeroU64 := { n : ℕ // 0 < n ∧ n < 18446744073709551616 }

abbrev PageFlipToken := NonZeroU64

abbrev OutputTransactionId := NonZeroU64

abbrev IoError := String

structure PresentationOpportunityId where
  clockGeneration : ℕ
  sequence : ℕ
  deriving DecidableEq

inductive PresentationTiming where
  | fixedVsync (targetTime refreshInterval : ℕ)
  | vrrWindow (anchor earliestPresent : ℕ) (presentationNotBefore : Option ℕ) (preferredPresent : ℕ)
      (serviceDeadline : Option ℕ) (shortestInterval : ℕ) (longestInterval : Option ℕ)
  | asyncImmediate (notBefore : ℕ)
  deriving DecidableEq

structure PresentationOpportunity where
  id : PresentationOpportunityId
  timing : PresentationTiming
  deriving DecidableEq

structure PrimaryRefreshClaim where
  sequence : ℕ
  presentationTime : ℕ
  clockGeneration : ℕ
  deriving DecidableEq

inductive PresentationTargetReason where
  | reactiveDouble
  | normal
  | predictedPressure
  | provenReadinessMiss
  | forcedValidation
  | commitTiming
  deriving DecidableEq

inductive PresentationTargetAuthority where
  | advisory
  | reserved
  deriving DecidableEq

structure TargetSelectionEvidence where
  earliestFeasibleSequence : ℕ
  binding : Bool
  deriving DecidableEq

structure PresentationTarget where
  sequence : ℕ
  presentationTime : ℕ
  submitNotBefore : ℕ
  renderStartDeadline : ℕ
  refreshInterval : ℕ
  reason : PresentationTargetReason
  clockGeneration : ℕ
  estimated : Bool
  predictedUnreachable : Bool
  physicalClaim : PrimaryRefreshClaim
  selectionEvidence : TargetSelectionEvidence
  deriving DecidableEq

namespace PresentationTarget

def authority (target : PresentationTarget) : PresentationTargetAuthority :=
  match target.reason with
  | .reactiveDouble => .advisory
  | .normal | .predictedPressure | .provenReadinessMiss | .forcedValidation | .commitTiming => .reserved

def isBinding (target : PresentationTarget) : Bool := target.authority == .reserved

end PresentationTarget

structure O1PredecessorAnchor where
  frameId : ℕ
  transactionId : OutputTransactionId
  token : PageFlipToken
  poolGeneration : ℕ
  deriving DecidableEq

structure O1PrepareIntent where
  outputGeneration : ℕ
  predecessor : O1PredecessorAnchor
  predictedSequence : ℕ
  predictedPresentationTime : ℕ
  renderStartDeadline : ℕ
  refreshInterval : ℕ
  reason : PresentationTargetReason
  clockGeneration : ℕ
  estimated : Bool
  predictedUnreachable : Bool
  selectionEvidence : TargetSelectionEvidence
  deriving DecidableEq

def PresentationTiming.isVrrWindow : PresentationTiming → Bool
  | .vrrWindow .. => true
  | .fixedVsync .. | .asyncImmediate .. => false

structure VariablePresentationReservation where
  opportunity : PresentationOpportunity
  reason : PresentationTargetReason
  vrr : opportunity.timing.isVrrWindow = true
  deriving DecidableEq

inductive FramePresentationReservation where
  | fixed (target : PresentationTarget)
  | variableRate (reservation : VariablePresentationReservation)
  | deferredO1 (intent : O1PrepareIntent)
  deriving DecidableEq

/-! ### Mode timing -/

structure KmsModeTimingKey where
  clock : ℕ
  hdisplay : ℕ
  hsyncStart : ℕ
  hsyncEnd : ℕ
  htotal : ℕ
  hskew : ℕ
  vdisplay : ℕ
  vsyncStart : ℕ
  vsyncEnd : ℕ
  vtotal : ℕ
  vscan : ℕ
  flags : ℕ
  type : ℕ
  deriving DecidableEq

structure KmsSubmitWindow where
  modeKey : Option KmsModeTimingKey
  targetPresentationNs : ℕ
  earliestSubmitNs : ℕ
  workerWakeAtNs : ℕ
  commitCompleteDeadlineNs : ℕ
  dispatchBudgetNs : ℕ
  applyGuardNs : ℕ
  deriving DecidableEq

inductive KmsPresentationTiming where
  | fixed (window : KmsSubmitWindow)
  | variableRate (earliestSubmitNs : ℕ)
  deriving DecidableEq

/-! ### Order of claims -/

structure PrimaryRefreshClaim.Before (earlier later : PrimaryRefreshClaim) : Prop where
  generation : earlier.clockGeneration = later.clockGeneration
  sequence : earlier.sequence < later.sequence
  time : earlier.presentationTime < later.presentationTime

/-! ### The ready frame -/

structure RenderedOutputFrame where
  transactionId : OutputTransactionId
  reservation : FramePresentationReservation
  presentationTiming : KmsPresentationTiming
  deriving DecidableEq

structure AtomicOutputSwapchain where
  ready : Option RenderedOutputFrame
  deriving DecidableEq

end Typhon.Scanout
