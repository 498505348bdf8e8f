import Mathlib.Data.List.Basic
import Mathlib.Data.List.TakeDrop

/-! Runs of a machine that takes one input after the other, and the logs they write. -/

namespace Foundation

section
variable {σ ι : Type} {step : σ → ι → σ} {P Q : σ → ι → Prop} {s : σ} {inputs : List ι}

/-- Every input of the run is allowed in the state it meets. -/
def Along (step : σ → ι → σ) (P : σ → ι → Prop) : List ι → σ → Prop
  | [], _ => True
  | i :: is, s => P s i ∧ Along step P is (step s i)

instance decidableAlong [∀ s i, Decidable (P s i)] : ∀ (is : List ι) (s : σ), Decidable (Along step P is s)
  | [], _ => .isTrue trivial
  | i :: is, s => @instDecidableAnd _ _ _ (decidableAlong is (step s i))

theorem Along.invariant (Inv : σ → Prop) (hstep : ∀ s i, Inv s → P s i → Inv (step s i)) (hstart : Inv s)
    (h : Along step P inputs s) : Inv (inputs.foldl step s) := by
  induction inputs generalizing s with
  | nil => exact hstart
  | cons i is ih => exact ih (hstep s i hstart h.1) h.2

end

/-! ### Logs in which every event is justified by what stands before it -/

variable {ε : Type} {P : List ε → ε → Prop} {log : List ε} {e : ε}

def Justified (P : List ε → ε → Prop) (log : List ε) : Prop := ∀ i e, log[i]? = some e → P (log.take i) e

theorem justified_nil : Justified P [] := by
  intro i e hi
  simp at hi

theorem Justified.snoc (h : Justified P log) (he : P log e) : Justified P (log ++ [e]) := by
  intro i e' hi
  rcases Nat.lt_or_ge i log.length with hlt | hge
  · rw [List.getElem?_append_left hlt] at hi
    rw [List.take_append_of_le_length (Nat.le_of_lt hlt)]
    exact h i e' hi
  · rw [List.getElem?_append_right hge, List.getElem?_singleton] at hi
    split_ifs at hi with hlast
    have hlength : i = log.length := by omega
    rw [hlength, List.take_left, ← Option.some.inj hi]
    exact he

/-! ### Sequences that switch something on and off in turn, and on first -/

variable {l : List Bool} {b : Bool}

def Alternating (l : List Bool) : Prop := ∀ i b, l[i]? = some b → b = decide (i % 2 = 0)

theorem alternating_nil : Alternating [] := fun i b h => absurd h (by simp)

theorem Alternating.snoc (h : Alternating l) (hb : b = decide (l.length % 2 = 0)) : Alternating (l ++ [b]) := by
  intro i b' hi
  rcases Nat.lt_or_ge i l.length with hlt | hge
  · exact h i b' (by rwa [List.getElem?_append_left hlt] at hi)
  · rw [List.getElem?_append_right hge, List.getElem?_singleton] at hi
    split_ifs at hi with hzero
    obtain rfl : i = l.length := by omega
    exact (Option.some.inj hi) ▸ hb

theorem Alternating.getLast?_ne_true (h : Alternating l) (heven : l.length % 2 = 0) : l.getLast? ≠ some true := by
  intro hlast
  rw [List.getLast?_eq_getElem?] at hlast
  have hon := h _ _ hlast
  have hlt := (List.getElem?_eq_some_iff.1 hlast).1
  have hzero : (l.length - 1) % 2 = 0 := by simpa using hon.symm
  omega

end Foundation
