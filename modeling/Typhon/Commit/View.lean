import Typhon.Commit.Arbiter
import Typhon.Foundation.Machine

/-! Commits and pageflips as the arbiter should see them: every completion is earned by a pageflip of its own. -/

namespace Typhon.Commit
open Foundation Scanout

structure CommitKey where
  token : PageFlipToken
  generation : ℕ
  crtcId : ℕ
  kind : AtomicCommitKind
  deriving DecidableEq

def PendingAtomicCommit.key (p : PendingAtomicCommit) : CommitKey := ⟨p.token, p.generation, p.crtcId, p.kind⟩

inductive CommitEvent where
  | reserved (key : CommitKey)
  | received (token : PageFlipToken) (generation crtcId : ℕ)
  | completed (key : CommitKey)
  | removed (key : CommitKey)
  deriving DecidableEq

def reservedTokens : List CommitEvent → List PageFlipToken
  | [] => []
  | .reserved key :: log => key.token :: reservedTokens log
  | _ :: log => reservedTokens log

def completedTokens : List CommitEvent → List PageFlipToken
  | [] => []
  | .completed key :: log => key.token :: completedTokens log
  | _ :: log => completedTokens log

def removedTokens : List CommitEvent → List PageFlipToken
  | [] => []
  | .removed key :: log => key.token :: removedTokens log
  | _ :: log => removedTokens log

theorem reservedTokens_append (log events : List CommitEvent) :
    reservedTokens (log ++ events) = reservedTokens log ++ reservedTokens events := by
  induction log with
  | nil => rfl
  | cons e log ih => cases e <;> simp [reservedTokens, ih]

theorem completedTokens_append (log events : List CommitEvent) :
    completedTokens (log ++ events) = completedTokens log ++ completedTokens events := by
  induction log with
  | nil => rfl
  | cons e log ih => cases e <;> simp [completedTokens, ih]

theorem removedTokens_append (log events : List CommitEvent) :
    removedTokens (log ++ events) = removedTokens log ++ removedTokens events := by
  induction log with
  | nil => rfl
  | cons e log ih => cases e <;> simp [removedTokens, ih]

variable {key : CommitKey} {log : List CommitEvent}

theorem mem_reservedTokens (h : .reserved key ∈ log) : key.token ∈ reservedTokens log := by
  obtain ⟨before, after, rfl⟩ := List.append_of_mem h
  rw [reservedTokens_append]
  exact List.mem_append_right _ List.mem_cons_self

def Acknowledged (log : List CommitEvent) (key : CommitKey) : Prop :=
  ∃ before after, log = before ++ .received key.token key.generation key.crtcId :: after ∧ .reserved key ∈ before

theorem Acknowledged.append (h : Acknowledged log key)
    (events : List CommitEvent) : Acknowledged (log ++ events) key := by
  obtain ⟨before, after, rfl, hreserved⟩ := h
  exact ⟨before, after ++ events, by rw [List.append_assoc, List.cons_append], hreserved⟩

theorem acknowledged_snoc (h : .reserved key ∈ log) :
    Acknowledged (log ++ [.received key.token key.generation key.crtcId]) key := ⟨log, [], rfl, h⟩

def Earned (before : List CommitEvent) (event : CommitEvent) : Prop :=
  ∀ key, event = .completed key → Acknowledged before key

/-! ### Views -/

structure View where
  kernel : Option CommitKey
  queued : Option CommitKey
  early : Bool
  log : List CommitEvent

namespace View

inductive Move : View → View → Prop where
  | reserve {log : List CommitEvent} (key : CommitKey) (hfresh : key.token ∉ reservedTokens log) :
      Move ⟨none, none, false, log⟩ ⟨some key, none, false, log ++ [.reserved key]⟩
  | queue {k : Option CommitKey} {e : Bool} {log : List CommitEvent} (key : CommitKey)
      (hfresh : key.token ∉ reservedTokens log) :
      Move ⟨k, none, e, log⟩ ⟨k, some key, false, log ++ [.reserved key]⟩
  | submit {q : CommitKey} {e : Bool} {log : List CommitEvent} : Move ⟨none, some q, e, log⟩ ⟨some q, none, e, log⟩
  | receive {k q : Option CommitKey} {e : Bool} {log : List CommitEvent} (token : PageFlipToken)
      (generation crtcId : ℕ) : Move ⟨k, q, e, log⟩ ⟨k, q, e, log ++ [.received token generation crtcId]⟩
  | defer {q : CommitKey} {log : List CommitEvent} : Move ⟨none, some q, false, log⟩
      ⟨none, some q, true, log ++ [.received q.token q.generation q.crtcId]⟩
  | complete {k : CommitKey} {q : Option CommitKey} {e : Bool} {log : List CommitEvent} : Move ⟨some k, q, e, log⟩
      ⟨none, q, e, log ++ [.received k.token k.generation k.crtcId, .completed k]⟩
  | replay {k : CommitKey} {q : Option CommitKey} {log : List CommitEvent} : Move ⟨some k, q, true, log⟩
      ⟨none, q, false, log ++ [.completed k]⟩
  | removeKernel {k : CommitKey} {q : Option CommitKey} {e : Bool} {log : List CommitEvent} :
      Move ⟨some k, q, e, log⟩ ⟨none, q, e, log ++ [.removed k]⟩
  | removeQueued {k : Option CommitKey} {q : CommitKey} {e : Bool} {log : List CommitEvent} :
      Move ⟨k, some q, e, log⟩ ⟨k, none, e, log ++ [.removed q]⟩
  | forget {k q : Option CommitKey} {e : Bool} {log : List CommitEvent} : Move ⟨k, q, e, log⟩ ⟨k, q, false, log⟩

def Live (v : View) (key : CommitKey) : Prop := v.kernel = some key ∨ v.queued = some key

structure Sound (v : View) : Prop where
  reserved : ∀ key, v.Live key → .reserved key ∈ v.log
  apart : ∀ k q, v.kernel = some k → v.queued = some q → k.token ≠ q.token
  open' : ∀ key, v.Live key → key.token ∉ completedTokens v.log ∧
    key.token ∉ removedTokens v.log
  known : ∀ token, token ∈ completedTokens v.log ∨
    token ∈ removedTokens v.log → token ∈ reservedTokens v.log
  once : (completedTokens v.log).Nodup
  gone : ∀ token ∈ removedTokens v.log, token ∉ completedTokens v.log
  single : v.early = true → v.kernel = none ∨ v.queued = none
  owned : v.early = true → ∀ key, v.Live key → Acknowledged v.log key
  earned : Justified Earned v.log

variable {v w : View}

theorem Sound.fresh {key : CommitKey} (h : v.Sound) (hfresh : key.token ∉ reservedTokens v.log) :
    (∀ key', v.Live key' → key'.token ≠ key.token) ∧ key.token ∉ completedTokens v.log ∧
      key.token ∉ removedTokens v.log := by
  refine ⟨fun key' hlive heq => ?_, fun hmem => ?_, fun hmem => ?_⟩
  · exact hfresh (heq ▸ mem_reservedTokens (h.reserved key' hlive))
  · exact hfresh (h.known _ (.inl hmem))
  · exact hfresh (h.known _ (.inr hmem))

theorem earned_quiet {log : List CommitEvent} {event : CommitEvent} (h : Justified Earned log)
    (hevent : ∀ key, event ≠ .completed key) : Justified Earned (log ++ [event]) :=
  h.snoc fun key hkey => absurd hkey (hevent key)

theorem earned_completed {log : List CommitEvent} {key : CommitKey} (h : Justified Earned log)
    (hkey : Acknowledged log key) : Justified Earned (log ++ [.completed key]) := by
  refine h.snoc ?_
  rintro _ ⟨⟩
  exact hkey

theorem Sound.move (h : v.Sound) (hmove : Move v w) : w.Sound := by
  cases hmove
  case' reserve key hfresh => obtain ⟨hother, hcompleted, hremoved⟩ := h.fresh hfresh
  case' queue key hfresh => obtain ⟨hother, hcompleted, hremoved⟩ := h.fresh hfresh
  case' defer => have hacknowledged := acknowledged_snoc (h.reserved _ (.inr rfl))
  case' complete =>
    have hmem := mem_reservedTokens (h.reserved _ (.inl rfl))
    have hacknowledged := acknowledged_snoc (h.reserved _ (.inl rfl))
  case' replay =>
    have hmem := mem_reservedTokens (h.reserved _ (.inl rfl))
    have hacknowledged := h.owned rfl _ (.inl rfl)
  case' removeKernel => have hmem := mem_reservedTokens (h.reserved _ (.inl rfl))
  case' removeQueued => have hmem := mem_reservedTokens (h.reserved _ (.inr rfl))
  all_goals obtain ⟨hreserved, hapart, hopen, hknown, honce, hgone, hsingle, howned, hearned⟩ := h
  case forget => exact ⟨hreserved, hapart, hopen, hknown, honce, hgone, by simp, by simp, hearned⟩
  case' submit => refine ⟨?_, ?_, ?_, hknown, honce, hgone, ?_, ?_, hearned⟩
  case' receive =>
    refine ⟨?_, ?_, ?_, ?_, ?_, ?_, hsingle, fun he key hlive => (howned he key hlive).append _,
      earned_quiet hearned (by simp)⟩
  case' complete =>
    rw [List.append_cons]
    refine ⟨?_, ?_, ?_, ?_, ?_, ?_, ?_, fun he key hlive =>
      ((howned he key (hlive.imp (by simp) id)).append _).append _,
      earned_completed (earned_quiet hearned (by simp)) hacknowledged⟩
  case' replay => refine ⟨?_, ?_, ?_, ?_, ?_, ?_, ?_, ?_, earned_completed hearned hacknowledged⟩
  case' removeKernel =>
    refine ⟨?_, ?_, ?_, ?_, ?_, ?_, ?_, fun he key hlive => (howned he key (hlive.imp (by simp) id)).append _,
      earned_quiet hearned (by simp)⟩
  case' removeQueued =>
    refine ⟨?_, ?_, ?_, ?_, ?_, ?_, ?_, fun he key hlive => (howned he key (hlive.imp id (by simp))).append _,
      earned_quiet hearned (by simp)⟩
  case' reserve => refine ⟨?_, ?_, ?_, ?_, ?_, ?_, ?_, ?_, earned_quiet hearned (by simp)⟩
  case' queue => refine ⟨?_, ?_, ?_, ?_, ?_, ?_, ?_, ?_, earned_quiet hearned (by simp)⟩
  case' defer => refine ⟨?_, ?_, ?_, ?_, ?_, ?_, ?_, ?_, earned_quiet hearned (by simp)⟩
  all_goals
    simp only [Live, reservedTokens_append, completedTokens_append, removedTokens_append, reservedTokens,
      completedTokens, removedTokens] at *
    grind

abbrev Moves : View → View → Prop := Relation.ReflTransGen Move

theorem Sound.moves (h : v.Sound) (hmoves : Moves v w) : w.Sound := by
  induction hmoves with
  | refl => exact h
  | tail _ hmove ih => exact ih.move hmove

end View

end Typhon.Commit
