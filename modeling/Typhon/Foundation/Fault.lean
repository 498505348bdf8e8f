import Mathlib

/-! Calls that answer a value, an error, a panic, or never return. -/

namespace Foundation

inductive Fault (ε : Type) where
  | error (e : ε)
  | panic (message : String)
  | diverge
  deriving DecidableEq

abbrev Run (ε α : Type) := Except (Fault ε) α

abbrev RunS (σ ε α : Type) := StateT σ (Except (Fault ε)) α

namespace Run
variable {σ ε α β : Type}

def panic (message : String) : Run ε α := .error (.panic message)

def diverge : Run ε α := .error .diverge

def fail (e : ε) : Run ε α := .error (.error e)

def expect (message : String) : Option α → Run ε α
  | none => panic message
  | some a => .ok a

def okOr (e : ε) : Option α → Run ε α
  | none => fail e
  | some a => .ok a

def dropError {ε' : Type} : Run ε α → Run ε' (Option α)
  | .ok a => .ok (some a)
  | .error (.error _) => .ok none
  | .error (.panic message) => .error (.panic message)
  | .error .diverge => .error .diverge

theorem bind_eq_ok {x : Run ε α} {f : α → Run ε β} {b : β} : x >>= f = .ok b ↔ ∃ a, x = .ok a ∧ f a = .ok b := by
  cases x with
  | error e => simp [bind, Except.bind]
  | ok a => simp [bind, Except.bind]

def Infallible (x : Run ε α) : Prop := ∀ e, x ≠ .error (.error e)

theorem infallible_ok (a : α) : Infallible (.ok a : Run ε α) := nofun

theorem Infallible.bind {x : Run ε α} {f : α → Run ε β} (hx : x.Infallible) (hf : ∀ a, (f a).Infallible) :
    (x >>= f).Infallible := by
  cases x with
  | error fault => exact fun e h => hx e (congrArg _ (Except.error.inj h))
  | ok a => exact hf a

def Finds (x : Run ε (Option α)) (P : Prop) : Prop := ∃ r, x = .ok r ∧ (r.isSome = true ↔ P)

theorem isOk_iff {x : Run ε α} : x.isOk = true ↔ ∃ a, x = .ok a := by
  cases x <;> simp [Except.isOk, Except.toBool]

@[simp] theorem ok_bind (a : α) (f : α → Run ε β) : (Except.ok a : Run ε α) >>= f = f a := rfl

@[simp] theorem error_bind (e : Fault ε) (f : α → Run ε β) : (Except.error e : Run ε α) >>= f = .error e := rfl

theorem expect_eq_ok {message : String} {o : Option α} {a : α} :
    (expect message o : Run ε α) = .ok a ↔ o = some a := by
  cases o <;> simp [expect, panic]

theorem okOr_eq_ok {e : ε} {o : Option α} {a : α} : (okOr e o : Run ε α) = .ok a ↔ o = some a := by
  cases o <;> simp [okOr, fail]

@[simp] theorem expect_some (message : String) (a : α) : (expect message (some a) : Run ε α) = .ok a := rfl

@[simp] theorem okOr_some (e : ε) (a : α) : (okOr e (some a) : Run ε α) = .ok a := rfl

variable {f : α → RunS σ ε β} {x : RunS σ ε α}

theorem runS_bind_eq_ok {s s'' : σ} {b : β} : (x >>= f).run s = .ok (b, s'') ↔
      ∃ a s', x.run s = .ok (a, s') ∧ (f a).run s' = .ok (b, s'') := by
  rw [StateT.run_bind, bind_eq_ok]
  constructor
  · rintro ⟨⟨a, s'⟩, hx, hf⟩
    exact ⟨a, s', hx, hf⟩
  · rintro ⟨a, s', hx, hf⟩
    exact ⟨(a, s'), hx, hf⟩

theorem runS_bind_ok {s s' : σ} {a : α} (h : x.run s = .ok (a, s')) : (x >>= f).run s = (f a).run s' := by
  rw [StateT.run_bind, h]
  rfl

@[simp] theorem runS_lift (x : Run ε α) (s : σ) : (liftM x : RunS σ ε α).run s = x >>= fun a => .ok (a, s) := rfl

@[simp] theorem runS_pure (a : α) (s : σ) : (pure a : RunS σ ε α).run s = .ok (a, s) := rfl

@[simp] theorem runS_modify (f : σ → σ) (s : σ) : (modify f : RunS σ ε PUnit).run s = .ok (⟨⟩, f s) := rfl

theorem runS_lift_bind (x : Run ε α) (f : α → RunS σ ε β) (s : σ) :
    ((liftM x : RunS σ ε α) >>= f).run s = x >>= fun a => (f a).run s := by
  cases x <;> rfl

theorem runS_modify_bind (g : σ → σ) (f : PUnit → RunS σ ε β) (s : σ) :
    ((modify g : RunS σ ε PUnit) >>= f).run s = (f ⟨⟩).run (g s) := rfl

theorem runS_bind (x : RunS σ ε α) (f : α → RunS σ ε β) (s : σ) :
    (x >>= f).run s = x.run s >>= fun p => (f p.1).run p.2 := rfl

def rejectIf (p : Prop) [Decidable p] (e : ε) : Run ε Unit := if p then Run.fail e else .ok ()

theorem runS_bind_error {s : σ} {e : Fault ε} (h : x.run s = .error e) : (x >>= f).run s = .error e := by
  rw [StateT.run_bind, h]
  rfl

end Run
end Foundation
