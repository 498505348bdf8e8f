import Mathlib.Data.Nat.Notation
import Mathlib.Order.Basic

/-! The largest values of the unsigned words, the checked and saturating operations of `u64` on natural numbers and the
bits of a word. -/

namespace Foundation

def U32.top : ℕ := 4294967295

namespace U64

def top : ℕ := 18446744073709551615

def checked (n : ℕ) : Option ℕ := if n ≤ top then some n else none

def checkedAdd (a b : ℕ) : Option ℕ := checked (a + b)

def checkedMul (a b : ℕ) : Option ℕ := checked (a * b)

def checkedSub (a b : ℕ) : Option ℕ := if b ≤ a then some (a - b) else none

def checkedDiv (a b : ℕ) : Option ℕ := if b = 0 then none else some (a / b)

def saturatingAdd (a b : ℕ) : ℕ := min (a + b) top

theorem checked_eq_some {n m : ℕ} : checked n = some m ↔ m = n ∧ m ≤ top := by
  unfold checked
  split_ifs with h
  · rw [Option.some.injEq]
    exact ⟨fun heq => ⟨heq.symm, heq ▸ h⟩, fun heq => heq.1.symm⟩
  · exact ⟨nofun, fun heq => absurd (heq.1 ▸ heq.2) h⟩

variable {a b m : ℕ}

theorem checkedAdd_eq_some : checkedAdd a b = some m ↔ m = a + b ∧ m ≤ top := checked_eq_some

theorem checkedMul_eq_some : checkedMul a b = some m ↔ m = a * b ∧ m ≤ top := checked_eq_some

theorem checkedSub_eq_some : checkedSub a b = some m ↔ m = a - b ∧ b ≤ a := by
  unfold checkedSub
  split_ifs with h
  · rw [Option.some.injEq]
    exact ⟨fun heq => ⟨heq.symm, h⟩, fun heq => heq.1.symm⟩
  · exact ⟨nofun, fun heq => absurd heq.2 h⟩

theorem checkedDiv_eq_some : checkedDiv a b = some m ↔ m = a / b ∧ b ≠ 0 := by
  unfold checkedDiv
  split_ifs with h
  · exact ⟨nofun, fun heq => absurd h heq.2⟩
  · rw [Option.some.injEq]
    exact ⟨fun heq => ⟨heq.symm, h⟩, fun heq => heq.1.symm⟩

theorem and_mask_ne_zero (word : BitVec 64) {bit : ℕ} (hbit : bit < 64) :
    (word &&& (1#64 <<< bit) != 0#64) = word.getLsbD bit := by
  rw [← BitVec.twoPow_eq, BitVec.and_twoPow]
  cases hword : word.getLsbD bit with
  | false => simp
  | true =>
    have hne : BitVec.twoPow 64 bit ≠ 0#64 := fun h => by
      have := congrArg (fun y => y.getLsbD bit) h
      simp [hbit] at this
    simpa using hne

end U64
end Foundation
