import Typhon.Commit.View

/-! Which commits are completed by which pageflips, over whole runs of the arbiter. -/

namespace Typhon.Commit
open Foundation Scanout AtomicCommitArbiter

inductive ArbiterOp where
  | reserve (token : PageFlipToken) (generation crtcId : ℕ) (kind : AtomicCommitKind) (submittedAt : ℕ)
  | reserveWorkerQueued (token : PageFlipToken) (generation crtcId : ℕ) (kind : AtomicCommitKind) (queuedAt : ℕ)
  | markKernelSubmitted (token : PageFlipToken) (submittedAt submitReturnedAt : ℕ)
  | rejectWorkerQueued (token : PageFlipToken)
  | completePageflip (pageflip : DrmPresentationEvent) (generation : ℕ)
  | replayDeferredPageflip
  | cancel (token : PageFlipToken)
  | watchdogExpired (now : ℕ)
  | abandonForRecovery
  deriving DecidableEq

def isCompleted : AtomicCommitCompletion → Bool
  | .completed .. => true
  | _ => false

namespace AtomicCommitArbiter

def step (a : AtomicCommitArbiter) : ArbiterOp → AtomicCommitArbiter
  | .reserve token generation crtcId kind submittedAt => (a.reserve token generation crtcId kind submittedAt).2
  | .reserveWorkerQueued token generation crtcId kind queuedAt =>
    (a.reserveWorkerQueued token generation crtcId kind queuedAt).2
  | .markKernelSubmitted token submittedAt submitReturnedAt =>
    (a.markKernelSubmitted token submittedAt submitReturnedAt).2
  | .rejectWorkerQueued token => (a.rejectWorkerQueued token).2
  | .completePageflip pageflip generation => (a.completePageflip pageflip generation).2
  | .replayDeferredPageflip => a.replayDeferredPageflip.2
  | .cancel token => (a.cancel token).2
  | .watchdogExpired now => (a.watchdogExpired now).2
  | .abandonForRecovery => a.abandonForRecovery

def events (a : AtomicCommitArbiter) : ArbiterOp → List CommitEvent
  | .reserve token generation crtcId kind submittedAt =>
    if (a.reserve token generation crtcId kind submittedAt).1.isOk then [.reserved ⟨token, generation, crtcId, kind⟩]
    else []
  | .reserveWorkerQueued token generation crtcId kind queuedAt =>
    if (a.reserveWorkerQueued token generation crtcId kind queuedAt).1.isOk then
      [.reserved ⟨token, generation, crtcId, kind⟩]
    else []
  | .markKernelSubmitted .. | .watchdogExpired _ => []
  | .rejectWorkerQueued token => (a.rejectWorkerQueued token).1.toList.map (.removed ·.key)
  | .completePageflip pageflip generation =>
    (pageFlipToken pageflip.userData).toList.map (.received · generation pageflip.crtcId) ++
      if isCompleted (a.completePageflip pageflip generation).1 then
        a.pendingAtomicCommit.toList.map (.completed ·.key)
      else []
  | .replayDeferredPageflip =>
    if a.replayDeferredPageflip.1.any isCompleted then a.kernelSubmitted.toList.map (.completed ·.key) else []
  | .cancel token => (a.cancel token).1.toList.map (.removed ·.key)
  | .abandonForRecovery => (a.kernelSubmitted.toList ++ a.workerQueued.toList).map (.removed ·.key)

end AtomicCommitArbiter

structure Session where
  arbiter : AtomicCommitArbiter
  log : List CommitEvent

namespace Session

variable (s : Session)

def step (op : ArbiterOp) : Session := ⟨s.arbiter.step op, s.log ++ s.arbiter.events op⟩

def view : View :=
  ⟨s.arbiter.kernelSubmitted.map (·.key), s.arbiter.workerQueued.map (·.key), s.arbiter.earlyPageflip.isSome, s.log⟩

def Distinct : ArbiterOp → Prop
  | .reserve token .. | .reserveWorkerQueued token .. => token ∉ reservedTokens s.log
  | _ => True

def Clears : ArbiterOp → Prop
  | .reserve .. => s.arbiter.earlyPageflip = none
  | _ => True

structure Phased (a : AtomicCommitArbiter) : Prop where
  kernel : ∀ p, a.kernelSubmitted = some p → isWorkerQueued p.phase = false
  queued : ∀ p, a.workerQueued = some p → isWorkerQueued p.phase = true

variable {a : AtomicCommitArbiter}

theorem Phased.step (h : Phased a) (op : ArbiterOp) : Phased (a.step op) := by
  cases op with
  | reserve token generation crtcId kind submittedAt =>
    rw [AtomicCommitArbiter.step, AtomicCommitArbiter.reserve]
    split_ifs
    · exact h
    · exact ⟨by rintro _ ⟨⟩; rfl, h.queued⟩
  | reserveWorkerQueued token generation crtcId kind queuedAt =>
    rw [AtomicCommitArbiter.step, AtomicCommitArbiter.reserveWorkerQueued]
    split_ifs
    · exact h
    · exact ⟨h.kernel, by rintro _ ⟨⟩; rfl⟩
  | markKernelSubmitted token submittedAt submitReturnedAt =>
    rw [AtomicCommitArbiter.step, markKernelSubmitted]
    split_ifs
    · exact h
    · split
      · exact h
      · split_ifs
        · exact h
        · exact ⟨h.kernel, by simp⟩
        · exact ⟨by rintro _ ⟨⟩; rfl, by simp⟩
  | rejectWorkerQueued token =>
    rw [AtomicCommitArbiter.step, rejectWorkerQueued]
    split_ifs
    · exact ⟨h.kernel, by simp⟩
    · exact h
  | completePageflip pageflip generation =>
    rw [AtomicCommitArbiter.step, completePageflip]
    split
    · exact h
    · split
      · exact h
      · split_ifs
        all_goals first | exact h | exact ⟨h.kernel, h.queued⟩ | exact ⟨by simp, h.queued⟩
  | replayDeferredPageflip =>
    rw [AtomicCommitArbiter.step, replayDeferredPageflip]
    split
    · exact h
    · split_ifs
      · exact h
      · exact ⟨h.kernel, h.queued⟩
      · exact ⟨by simp, h.queued⟩
  | cancel token =>
    rw [AtomicCommitArbiter.step, cancel]
    split_ifs
    · exact ⟨by simp, h.queued⟩
    · exact ⟨h.kernel, by simp⟩
    · exact h
  | watchdogExpired now =>
    rw [AtomicCommitArbiter.step, watchdogExpired]
    split
    · exact h
    · rename_i pending hpending
      split
      · exact h
      · rename_i hphase
        have hreported : ∀ p, some { pending with watchdogReported := true } = some p → isWorkerQueued p.phase =
          false := by
          rintro _ ⟨⟩
          exact h.kernel pending hpending
        split_ifs
        · exact h
        · exact ⟨hreported, h.queued⟩
        · exact ⟨hreported, h.queued⟩
  | abandonForRecovery => exact ⟨by simp [AtomicCommitArbiter.step, abandonForRecovery],
      by simp [AtomicCommitArbiter.step, abandonForRecovery]⟩

theorem completePageflip_turnedDown {pageflip : DrmPresentationEvent} {generation : ℕ}
    {token : PageFlipToken} {pending : PendingAtomicCommit} (htoken : pageFlipToken pageflip.userData = some token)
    (hpending : a.pendingAtomicCommit = some pending)
    (h : ¬(token = pending.token ∧ generation = pending.generation ∧ pageflip.crtcId = pending.crtcId ∧
      (isWorkerQueued pending.phase = true → a.earlyPageflip = none))) :
    ∃ answer, a.completePageflip pageflip generation = (answer, a) ∧ isCompleted answer = false := by
  simp only [completePageflip, htoken, hpending]
  split_ifs with h₁ h₂ h₃ h₄ h₅
  · exact ⟨_, rfl, rfl⟩
  · exact ⟨_, rfl, rfl⟩
  · exact ⟨_, rfl, rfl⟩
  · exact ⟨_, rfl, rfl⟩
  · exact absurd ⟨not_not.1 h₁, not_not.1 h₂, not_not.1 h₃, fun _ => Option.not_isSome_iff_eq_none.1 h₅⟩ h
  · exact absurd ⟨not_not.1 h₁, not_not.1 h₂, not_not.1 h₃, fun h₆ => absurd h₆ h₄⟩ h

variable {s : Session}

theorem step_quiet {op : ArbiterOp} (hstep : s.arbiter.step op = s.arbiter)
    (hevents : s.arbiter.events op = []) : View.Moves s.view (s.step op).view := by
  rw [step, hstep, hevents, List.append_nil]

theorem step_to {op : ArbiterOp} {v : View} (hmoves : View.Moves s.view v) (hview : (s.step op).view = v) :
    View.Moves s.view (s.step op).view := hview ▸ hmoves

theorem step_moves (h : Phased s.arbiter) (op : ArbiterOp) (hdistinct : s.Distinct op)
    (hclears : s.Clears op) : View.Moves s.view (s.step op).view := by
  obtain ⟨⟨kernel, queued, early, interval, t₁, t₂, t₃, submitted, completed⟩, log⟩ := s
  obtain ⟨hkernel, hqueued⟩ := h
  cases op with
  | reserve token generation crtcId kind submittedAt =>
    rcases kernel with _ | k
    · rcases queued with _ | q
      · obtain rfl : early = none := hclears
        exact .single (.reserve ⟨token, generation, crtcId, kind⟩ hdistinct)
      · exact step_quiet rfl rfl
    · exact step_quiet rfl rfl
  | reserveWorkerQueued token generation crtcId kind queuedAt =>
    rcases queued with _ | q
    · exact .single (.queue ⟨token, generation, crtcId, kind⟩ hdistinct)
    · exact step_quiet rfl rfl
  | markKernelSubmitted token submittedAt submitReturnedAt =>
    rcases kernel with _ | k
    · rcases queued with _ | q
      · exact step_quiet rfl rfl
      · by_cases htoken : q.token = token
        · refine step_to (.single .submit) ?_
          simp [step, view, AtomicCommitArbiter.step, events, markKernelSubmitted, htoken, hqueued q rfl,
            PendingAtomicCommit.key]
        · exact step_quiet (by simp [AtomicCommitArbiter.step, markKernelSubmitted, htoken]) rfl
    · exact step_quiet rfl rfl
  | rejectWorkerQueued token =>
    rcases queued with _ | q
    · exact step_quiet rfl rfl
    · by_cases htoken : q.token = token
      · refine step_to (.tail (.single .removeQueued) .forget) ?_
        simp [step, view, AtomicCommitArbiter.step, events, rejectWorkerQueued, htoken, hqueued q rfl]
      · exact step_quiet (by simp [AtomicCommitArbiter.step, rejectWorkerQueued, htoken])
          (by simp [events, rejectWorkerQueued, htoken])
  | completePageflip pageflip generation =>
    rcases htoken : pageFlipToken pageflip.userData with _ | token
    · exact step_quiet (by simp [AtomicCommitArbiter.step, completePageflip, htoken])
        (by simp [events, completePageflip, htoken, isCompleted])
    -- A pageflip that is turned down is only received.
    · rcases kernel with _ | k
      · rcases queued with _ | q
        · refine step_to (.single (.receive token generation pageflip.crtcId)) ?_
          simp [step, view, AtomicCommitArbiter.step, events, isCompleted, completePageflip, pendingAtomicCommit,
            htoken]
        · by_cases hmatch : token = q.token ∧ generation = q.generation ∧ pageflip.crtcId = q.crtcId ∧ early = none
          · obtain ⟨rfl, rfl, hcrtc, rfl⟩ := hmatch
            refine step_to (.single .defer) ?_
            simp [step, view, AtomicCommitArbiter.step, events, isCompleted, hcrtc, hqueued q rfl, completePageflip,
              pendingAtomicCommit, htoken, PendingAtomicCommit.key]
          · obtain ⟨answer, hanswer, hcompleted⟩ := completePageflip_turnedDown
              (a := ⟨none, some q, early, interval, t₁, t₂, t₃, submitted, completed⟩) htoken rfl
              fun h' => hmatch ⟨h'.1, h'.2.1, h'.2.2.1, h'.2.2.2 (hqueued q rfl)⟩
            refine step_to (.single (.receive token generation pageflip.crtcId)) ?_
            simp [step, view, AtomicCommitArbiter.step, events, hanswer, hcompleted, htoken]
      · by_cases hmatch : token = k.token ∧ generation = k.generation ∧ pageflip.crtcId = k.crtcId
        · obtain ⟨rfl, rfl, hcrtc⟩ := hmatch
          refine step_to (.single .complete) ?_
          simp [step, view, AtomicCommitArbiter.step, events, isCompleted, hcrtc, hkernel k rfl, completePageflip,
            pendingAtomicCommit, htoken, PendingAtomicCommit.key]
        · obtain ⟨answer, hanswer, hcompleted⟩ := completePageflip_turnedDown
            (a := ⟨some k, queued, early, interval, t₁, t₂, t₃, submitted, completed⟩) htoken rfl
            fun h' => hmatch ⟨h'.1, h'.2.1, h'.2.2.1⟩
          refine step_to (.single (.receive token generation pageflip.crtcId)) ?_
          simp [step, view, AtomicCommitArbiter.step, events, hanswer, hcompleted, htoken]
  | replayDeferredPageflip =>
    rcases kernel with _ | k
    · exact step_quiet rfl rfl
    · rcases early with _ | e
      · exact step_quiet rfl rfl
      · refine step_to (.single .replay) ?_
        simp [step, view, AtomicCommitArbiter.step, events, isCompleted, replayDeferredPageflip, hkernel k rfl]
  | cancel token =>
    by_cases hk : ∃ k, kernel = some k ∧ k.token = token
    · obtain ⟨k, rfl, rfl⟩ := hk
      refine step_to (.single .removeKernel) ?_
      simp [step, view, AtomicCommitArbiter.step, events, cancel]
    · have hany : (kernel.any fun pending => decide (pending.token = token)) = false := by
        rcases kernel with _ | k
        · rfl
        · simpa using hk
      by_cases hq : ∃ q, queued = some q ∧ q.token = token
      · obtain ⟨q, rfl, rfl⟩ := hq
        refine step_to (.single .removeQueued) ?_
        simp [step, view, AtomicCommitArbiter.step, events, cancel, hany]
      · have hnone : (queued.any fun pending => decide (pending.token = token)) = false := by
          rcases queued with _ | q
          · rfl
          · simpa using hq
        exact step_quiet (by simp [AtomicCommitArbiter.step, cancel, hany, hnone])
          (by simp [events, cancel, hany, hnone])
  | watchdogExpired now =>
    have hview : (Session.step ⟨⟨kernel, queued, early, interval, t₁, t₂, t₃, submitted, completed⟩, log⟩
        (.watchdogExpired now)).view = ⟨kernel.map (·.key), queued.map (·.key), early.isSome, log⟩ := by
      simp only [step, view, AtomicCommitArbiter.step, events,
          watchdogExpired, List.append_nil]
      split
      · rfl
      · split
        · rfl
        · split_ifs <;> simp_all [PendingAtomicCommit.key]
    exact hview ▸ .refl
  | abandonForRecovery =>
    have hforget : ∀ log' : List CommitEvent, View.Moves (⟨none, none, early.isSome, log'⟩ : View)
      ⟨none, none, false, log'⟩ :=
      fun _ => .single .forget
    have hqueue : ∀ log' : List CommitEvent, View.Moves (⟨none, queued.map (·.key), early.isSome, log'⟩ : View)
        ⟨none, none, false, log' ++ (queued.toList.map (.removed ·.key))⟩ := by
      intro log'
      rcases queued with _ | q
      · simpa using hforget log'
      · exact .trans (.single .removeQueued) (hforget _)
    have hall : View.Moves (⟨kernel.map (·.key), queued.map (·.key), early.isSome, log⟩ : View)
        ⟨none, none, false, log ++ (kernel.toList.map (.removed ·.key) ++ queued.toList.map (.removed ·.key))⟩ := by
      rcases kernel with _ | k
      · simpa using hqueue log
      · rw [← List.append_assoc]
        exact .trans (.single .removeKernel) (hqueue _)
    simpa [step, view, AtomicCommitArbiter.step, events, abandonForRecovery]
      using hall

/-! ### Deferred pageflips -/

def Takes (token : PageFlipToken) : ArbiterOp → Prop
  | .markKernelSubmitted token' .. | .rejectWorkerQueued token' | .cancel token' => token' = token
  | .abandonForRecovery => True
  | _ => False

structure Deferred (a : AtomicCommitArbiter) (q : PendingAtomicCommit) : Prop where
  kernel : a.kernelSubmitted = none
  queued : a.workerQueued = some q
  early : a.earlyPageflip.isSome = true

variable {q : PendingAtomicCommit}

theorem deferred_of_answer (h : Phased a) {pageflip : DrmPresentationEvent} {generation : ℕ}
    (hq : a.pendingAtomicCommit = some q)
    (hanswer : (a.completePageflip pageflip generation).1 = .deferredUntilSubmitAck) :
    Deferred (a.completePageflip pageflip generation).2 q := by
  obtain ⟨kernel, queued, early, interval, t₁, t₂, t₃, submitted, completed⟩ := a
  rw [completePageflip] at hanswer ⊢
  split at hanswer
  · cases hanswer
  · rw [hq] at hanswer ⊢
    dsimp only at hanswer ⊢
    split_ifs at hanswer ⊢ with h₁ h₂ h₃ h₄ h₅
    rcases kernel with _ | k
    · exact ⟨rfl, hq, rfl⟩
    · obtain rfl : k = q := Option.some.inj hq
      rw [h.kernel k rfl] at h₄
      cases h₄

theorem Deferred.step (h : Deferred a q) {op : ArbiterOp} (hop : ¬Takes q.token op) : Deferred (a.step op) q := by
  obtain ⟨kernel, queued, early, interval, t₁, t₂, t₃, submitted, completed⟩ := a
  obtain ⟨rfl, rfl, hearly⟩ := h
  cases op with
  | reserve | reserveWorkerQueued | watchdogExpired => exact ⟨rfl, rfl, hearly⟩
  | replayDeferredPageflip => exact ⟨rfl, rfl, hearly⟩
  | abandonForRecovery => exact absurd trivial hop
  | markKernelSubmitted token submittedAt submitReturnedAt =>
    have htoken : q.token ≠ token := fun htoken => hop htoken.symm
    simpa [AtomicCommitArbiter.step, markKernelSubmitted, htoken] using ⟨rfl, rfl, hearly⟩
  | rejectWorkerQueued token =>
    have htoken : q.token ≠ token := fun htoken => hop htoken.symm
    simpa [AtomicCommitArbiter.step, rejectWorkerQueued, htoken] using ⟨rfl, rfl, hearly⟩
  | cancel token =>
    have htoken : q.token ≠ token := fun htoken => hop htoken.symm
    simpa [AtomicCommitArbiter.step, cancel, htoken] using ⟨rfl, rfl, hearly⟩
  | completePageflip pageflip generation =>
    rw [AtomicCommitArbiter.step, completePageflip]
    split
    · exact ⟨rfl, rfl, hearly⟩
    · dsimp only [pendingAtomicCommit]
      split_ifs <;> exact ⟨rfl, rfl, hearly⟩

theorem Deferred.completes (h : Deferred a q) (hphased : Phased a) (submittedAt submitReturnedAt : ℕ) :
    (a.markKernelSubmitted q.token submittedAt submitReturnedAt).1 = .ok () ∧
      (a.markKernelSubmitted q.token submittedAt submitReturnedAt).2.replayDeferredPageflip.1 =
        some (.completed q.kind submittedAt) := by
  obtain ⟨kernel, queued, early, interval, t₁, t₂, t₃, submitted, completed⟩ := a
  obtain ⟨rfl, rfl, hearly⟩ := h
  have hphase := hphased.queued q rfl
  have hsome : early.isNone = false := by rw [← Option.not_isSome, show early.isSome = true from hearly, Bool.not_true]
  have hsubmitted : isWorkerQueued
    (.kernelSubmitted submittedAt submitReturnedAt (U64.saturatingAdd submittedAt interval)) = false := rfl
  simp [markKernelSubmitted, replayDeferredPageflip, hphase, hsome, hsubmitted]

theorem Phased.run (h : Phased s.arbiter) (ops : List ArbiterOp) : Phased (ops.foldl Session.step s).arbiter := by
  induction ops generalizing s with
  | nil => exact h
  | cons op ops ih => exact ih (h.step op)

theorem Deferred.run (h : Deferred s.arbiter q) {ops : List ArbiterOp}
    (hops : ∀ op ∈ ops, ¬Takes q.token op) : Deferred (ops.foldl Session.step s).arbiter q := by
  induction ops generalizing s with
  | nil => exact h
  | cons op ops ih =>
    exact ih (s := s.step op) (h.step (hops op List.mem_cons_self)) fun op' hop' => hops op'
      (List.mem_cons_of_mem _ hop')

/-! ### Whole runs -/

def start (watchdogInterval : ℕ) : Session := ⟨.withWatchdog watchdogInterval, []⟩

theorem phased_start (watchdogInterval : ℕ) : Phased (start watchdogInterval).arbiter :=
  ⟨fun _ hp => absurd hp (by simp [start, withWatchdog]),
    fun _ hp => absurd hp (by simp [start, withWatchdog])⟩

theorem sound_start (watchdogInterval : ℕ) : (start watchdogInterval).view.Sound where
  reserved _ hkey := absurd hkey (by simp [View.Live, view, start, withWatchdog])
  apart _ _ hk _ := absurd hk (by simp [view, start, withWatchdog])
  open' _ _ := ⟨List.not_mem_nil, List.not_mem_nil⟩
  known _ h := absurd h (by simp [view, start, completedTokens, removedTokens])
  once := List.nodup_nil
  gone _ _ := List.not_mem_nil
  single _ := .inl rfl
  owned h := absurd h (by simp [view, start, withWatchdog])
  earned := justified_nil

/-- When no token is reused and no commit is reserved past the worker while a pageflip is left over, every completion
follows a pageflip of its own commit, no commit is completed twice or after it was taken out, and a deferred pageflip
completes its commit as soon as the worker acknowledges it. -/
theorem pageflip_completes_own {watchdogInterval : ℕ} {ops : List ArbiterOp} {s : Session}
    (hrun : Along step (fun s op => s.Distinct op ∧ s.Clears op) ops (start watchdogInterval))
    (hs : s = ops.foldl step (start watchdogInterval)) :
    (∀ i key, s.log[i]? = some (.completed key) → Acknowledged (s.log.take i) key) ∧
      (completedTokens s.log).Nodup ∧ (∀ token ∈ removedTokens s.log, token ∉ completedTokens s.log) ∧
      ∀ before pageflip generation later q, ops = before ++ .completePageflip pageflip generation :: later →
        (before.foldl step (start watchdogInterval)).arbiter.pendingAtomicCommit = some q →
        ((before.foldl step (start watchdogInterval)).arbiter.completePageflip pageflip generation).1 =
          .deferredUntilSubmitAck →
        (∀ op ∈ later, ¬Takes q.token op) → ∀ submittedAt submitReturnedAt,
          (s.arbiter.markKernelSubmitted q.token submittedAt submitReturnedAt).1 = .ok () ∧
            (s.arbiter.markKernelSubmitted q.token submittedAt submitReturnedAt).2.replayDeferredPageflip.1 =
              some (.completed q.kind submittedAt) := by
  have hinvariant : Phased s.arbiter ∧ s.view.Sound := by
    rw [hs]
    exact Along.invariant (fun s => Phased s.arbiter ∧ s.view.Sound)
      (fun s op h hop => ⟨h.1.step op, h.2.moves (step_moves h.1 op hop.1 hop.2)⟩)
      ⟨phased_start _, sound_start _⟩ hrun
  obtain ⟨hphased, hsound⟩ := hinvariant
  refine ⟨fun i key hi => hsound.earned i _ hi key rfl, hsound.once, hsound.gone, ?_⟩
  intro before pageflip generation later q hops hq hanswer hlater submittedAt submitReturnedAt
  have hdeferred : Deferred s.arbiter q := by
    rw [hs, hops, List.foldl_append, List.foldl_cons]
    exact (deferred_of_answer ((phased_start _).run before) hq hanswer).run
      (s := (before.foldl step (start watchdogInterval)).step (.completePageflip pageflip generation)) hlater
  exact hdeferred.completes hphased submittedAt submitReturnedAt

instance (s : Session) : (op : ArbiterOp) → Decidable (s.Distinct op)
  | .reserve .. | .reserveWorkerQueued .. => inferInstanceAs (Decidable (_ ∉ _))
  | .markKernelSubmitted .. | .rejectWorkerQueued _ | .completePageflip .. | .replayDeferredPageflip | .cancel _ |
    .watchdogExpired _ | .abandonForRecovery => .isTrue trivial

instance (s : Session) : (op : ArbiterOp) → Decidable (s.Clears op)
  | .reserve .. => inferInstanceAs (Decidable (_ = _))
  | .reserveWorkerQueued .. | .markKernelSubmitted .. | .rejectWorkerQueued _ | .completePageflip .. |
    .replayDeferredPageflip | .cancel _ | .watchdogExpired _ | .abandonForRecovery => .isTrue trivial

def tokenAt (n : Fin 100) : PageFlipToken := ⟨n.val + 1, by omega⟩

def cursorMove : AtomicCommitKind := .planeDelta (tokenAt 0) 1 none

def acknowledgedRun : List ArbiterOp :=
  [.reserveWorkerQueued (tokenAt 1) 1 7 cursorMove 5, .completePageflip ⟨2, 0, 0, 0, 7⟩ 1,
    .markKernelSubmitted (tokenAt 1) 6 8, .replayDeferredPageflip]

theorem pageflip_completes_own_deferred :
    Along step (fun s op => s.Distinct op ∧ s.Clears op) acknowledgedRun (start 100) ∧
      completedTokens (acknowledgedRun.foldl step (start 100)).log = [tokenAt 1] ∧
      (completedTokens (acknowledgedRun.foldl step (start 100)).log).Nodup := by
  have hrun : Along step (fun s op => s.Distinct op ∧ s.Clears op) acknowledgedRun (start 100) := by decide +kernel
  exact ⟨hrun, by decide +kernel, (pageflip_completes_own hrun rfl).2.1⟩

def leftOverRun : List ArbiterOp :=
  [.reserveWorkerQueued (tokenAt 1) 1 7 cursorMove 5, .completePageflip ⟨2, 0, 0, 0, 7⟩ 1, .cancel (tokenAt 1),
    .reserve (tokenAt 2) 1 7 cursorMove 9, .replayDeferredPageflip]

theorem pageflip_completes_other : Along step Distinct leftOverRun (start 100) ∧
    (leftOverRun.foldl step (start 100)).log =
      [.reserved ⟨tokenAt 1, 1, 7, cursorMove⟩, .received (tokenAt 1) 1 7, .removed ⟨tokenAt 1, 1, 7, cursorMove⟩,
        .reserved ⟨tokenAt 2, 1, 7, cursorMove⟩, .completed ⟨tokenAt 2, 1, 7, cursorMove⟩] := by
  decide +kernel

end Session
end Typhon.Commit
