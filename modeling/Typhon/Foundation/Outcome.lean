import Typhon.Foundation.Fault

/-! What a call may answer and how it may fault. -/

namespace Foundation.Run
variable {ε α β : Type} {E E' : Fault ε → Prop} {Q Q' : α → Prop}

def Outcome (E : Fault ε → Prop) (Q : α → Prop) : Run ε α → Prop
  | .ok a => Q a
  | .error fault => E fault

variable {x : Run ε α}

theorem Outcome.imp (h : Outcome E Q x) (hE : ∀ fault, E fault → E' fault) (hQ : ∀ a, Q a → Q' a) :
    Outcome E' Q' x := by
  cases x with
  | ok a => exact hQ a h
  | error fault => exact hE fault h

theorem Outcome.bind {f : α → Run ε β} {R : β → Prop} (h : Outcome E Q x)
    (hf : ∀ a, x = .ok a → Q a → Outcome E R (f a)) : Outcome E R (x >>= f) := by
  cases x with
  | ok a => exact hf a rfl h
  | error fault => exact h

theorem Outcome.cases (h : Outcome E Q x) : (∃ fault, x = .error fault ∧ E fault) ∨ ∃ a, x = .ok a ∧ Q a := by
  cases x with
  | ok a => exact .inr ⟨a, rfl, h⟩
  | error fault => exact .inl ⟨fault, rfl, h⟩

theorem outcome_dropError {ε' : Type} :
    Outcome (fun fault : Fault ε' => (∃ message, x = .error (.panic message) ∧ fault = .panic message) ∨
      x = .error .diverge ∧ fault = .diverge) (fun _ => True) (x.dropError : Run ε' (Option α)) := by
  match x with
  | .ok _ => trivial
  | .error (.error _) => trivial
  | .error (.panic message) => exact .inl ⟨message, rfl, rfl⟩
  | .error .diverge => exact .inr ⟨rfl, rfl⟩

end Foundation.Run
