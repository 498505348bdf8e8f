import Typhon.Foundation.Fault

/-! Queries of a state that they may update, such as a cache: what an answer is worth, when there is
one, and the least value that passes a query, found by halving. -/

namespace Foundation.Query

variable {σ ε α β : Type}

def Sound (inv : σ → Prop) (q : RunS σ ε α) (post : α → Prop) : Prop :=
  ∀ ⦃s a s'⦄, inv s → q.run s = .ok (a, s') → inv s' ∧ post a

def Returns (q : RunS σ ε α) (post : α → Prop) : Prop := ∀ s, ∃ a s', q.run s = .ok (a, s') ∧ post a

/-- From a state in `inv`, `q` answers with a value that meets `post` and leaves a state in `inv`, or it
ends in a fault among `faults`. -/
def Ends (inv : σ → Prop) (q : RunS σ ε α) (post : α → Prop) (faults : Fault ε → Prop) : Prop :=
  ∀ s, inv s → (∃ a s', q.run s = .ok (a, s') ∧ inv s' ∧ post a) ∨ ∃ e, q.run s = .error e ∧ faults e

section Sound
variable {inv : σ → Prop} {post : α → Prop}

theorem Sound.mono {q : RunS σ ε α} {post' : α → Prop} (h : Sound inv q post)
    (himp : ∀ a, post a → post' a) : Sound inv q post' := fun _ _ _ hs hrun =>
  ⟨(h hs hrun).1, himp _ (h hs hrun).2⟩

theorem sound_pure {a : α} (h : post a) : Sound inv (pure a : RunS σ ε α) post := by
  intro s b s' hs hrun
  cases hrun
  exact ⟨hs, h⟩

theorem sound_lift {x : Run ε α} (h : ∀ a, x = .ok a → post a) : Sound inv (liftM x : RunS σ ε α) post := by
  intro s a s' hs hrun
  rw [Run.runS_lift, Run.bind_eq_ok] at hrun
  obtain ⟨b, hb, heq⟩ := hrun
  cases heq
  exact ⟨hs, h a hb⟩

theorem sound_modify {f : σ → σ} (h : ∀ s, inv s → inv (f s)) :
    Sound inv (modify f : RunS σ ε PUnit) fun _ => True := by
  intro s a s' hs hrun
  cases hrun
  exact ⟨h s hs, trivial⟩

theorem Sound.bind {q : RunS σ ε α} {f : α → RunS σ ε β} {post' : β → Prop} (h : Sound inv q post)
    (hf : ∀ a, post a → Sound inv (f a) post') : Sound inv (q >>= f) post' := by
  intro s b s'' hs hrun
  obtain ⟨a, s', ha, hb⟩ := Run.runS_bind_eq_ok.mp hrun
  obtain ⟨hs', hpost⟩ := h hs ha
  exact hf a hpost hs' hb

end Sound

section Returns
variable {post : α → Prop}

theorem Returns.mono {q : RunS σ ε α} {post' : α → Prop} (h : Returns q post)
    (himp : ∀ a, post a → post' a) : Returns q post' := by
  intro s
  obtain ⟨a, s', hrun, ha⟩ := h s
  exact ⟨a, s', hrun, himp a ha⟩

theorem returns_pure {a : α} (h : post a) : Returns (pure a : RunS σ ε α) post := fun s => ⟨a, s, rfl, h⟩

theorem returns_lift {x : Run ε α} (h : ∃ a, x = .ok a ∧ post a) : Returns (liftM x : RunS σ ε α) post := by
  obtain ⟨a, rfl, ha⟩ := h
  exact fun s => ⟨a, s, rfl, ha⟩

theorem returns_modify (f : σ → σ) : Returns (modify f : RunS σ ε PUnit) fun _ => True := fun s =>
  ⟨⟨⟩, f s, rfl, trivial⟩

theorem returns_get : Returns (get : RunS σ ε σ) fun _ => True := fun s => ⟨s, s, rfl, trivial⟩

theorem Returns.bind {q : RunS σ ε α} {f : α → RunS σ ε β} {post' : β → Prop} (h : Returns q post)
    (hf : ∀ a, post a → Returns (f a) post') : Returns (q >>= f) post' := by
  intro s
  obtain ⟨a, s', ha, hpost⟩ := h s
  obtain ⟨b, s'', hb, hpost'⟩ := hf a hpost s'
  exact ⟨b, s'', Run.runS_bind_eq_ok.mpr ⟨a, s', ha, hb⟩, hpost'⟩

end Returns

section Ends
variable {inv : σ → Prop} {post : α → Prop} {faults : Fault ε → Prop}

variable {q : RunS σ ε α}

theorem Returns.ends (h : Returns q post) : Ends (fun _ => True) q post faults := by
  intro s _
  obtain ⟨a, s', hrun, ha⟩ := h s
  exact .inl ⟨a, s', hrun, trivial, ha⟩

theorem Ends.mono_faults {faults' : Fault ε → Prop} (h : Ends inv q post faults)
    (himp : ∀ e, faults e → faults' e) : Ends inv q post faults' := by
  intro s hs
  refine (h s hs).imp_right ?_
  rintro ⟨e, hrun, he⟩
  exact ⟨e, hrun, himp e he⟩

theorem ends_pure {a : α} (h : post a) : Ends inv (pure a : RunS σ ε α) post faults :=
  fun s hs => .inl ⟨a, s, rfl, hs, h⟩

theorem ends_lift_ok {x : Run ε α} (h : ∃ a, x = .ok a ∧ post a) : Ends inv (liftM x : RunS σ ε α) post faults := by
  obtain ⟨a, rfl, ha⟩ := h
  exact fun s hs => .inl ⟨a, s, rfl, hs, ha⟩

theorem ends_lift_error {x : Run ε α} (h : ∃ e, x = .error e ∧ faults e) :
    Ends inv (liftM x : RunS σ ε α) post faults := by
  obtain ⟨e, rfl, he⟩ := h
  exact fun s _ => .inr ⟨e, rfl, he⟩

theorem ends_modify {f : σ → σ} (h : ∀ s, inv s → inv (f s)) :
    Ends inv (modify f : RunS σ ε PUnit) (fun _ => True) faults :=
  fun s hs => .inl ⟨⟨⟩, f s, rfl, h s hs, trivial⟩

theorem Ends.bind {f : α → RunS σ ε β} {post' : β → Prop} (h : Ends inv q post faults)
    (hf : ∀ a, post a → Ends inv (f a) post' faults) : Ends inv (q >>= f) post' faults := by
  intro s hs
  obtain ⟨a, s', ha, hs', hpost⟩ | ⟨e, he, hfault⟩ := h s hs
  · rw [Run.runS_bind_ok ha]
    exact hf a hpost s' hs'
  · exact .inr ⟨e, Run.runS_bind_error he, hfault⟩

end Ends

/-! ### Halving -/

def bisect (fits : ℕ → RunS σ ε Bool) : ℕ → ℕ → ℕ → RunS σ ε ℕ
  | 0, low, _ => pure low
  | rounds + 1, low, high =>
    if low < high then do
      let middle := low + (high - low) / 2
      if ← fits middle then bisect fits rounds low middle
      else bisect fits rounds (min (middle + 1) 4294967295) high
    else pure low

variable {rounds low high : ℕ} {P : ℕ → Prop} {fits : ℕ → RunS σ ε Bool}

theorem bisect_sound {inv : σ → Prop} (hfits : ∀ m, low ≤ m → m < high → Sound inv (fits m) fun b => b = true ↔ P m)
    (hmono : ∀ m m', low ≤ m → m ≤ m' → m' < high → P m → P m') (hle : low ≤ high)
    (hmax : high ≤ 4294967295) (hrounds : high - low ≤ rounds) : Sound inv (bisect fits rounds low high) fun r =>
      low ≤ r ∧ r ≤ high ∧ (∀ m, low ≤ m → m < r → ¬ P m) ∧ (r < high → P r) := by
  induction rounds generalizing low high with
  | zero =>
    obtain rfl : low = high := by omega
    exact sound_pure ⟨le_rfl, le_rfl, fun m h₁ h₂ => by omega, fun h => by omega⟩
  | succ rounds ih =>
    rw [bisect]
    by_cases hlt : low < high
    · rw [if_pos hlt]
      refine (hfits (low + (high - low) / 2) (by omega) (by omega)).bind fun b hb => ?_
      cases b with
      | true =>
        have hP := hb.mp rfl
        rw [if_pos rfl]
        refine (ih (fun m h₁ h₂ => hfits m h₁ (by omega)) (fun m m' h₁ h₂ h₃ => hmono m m' h₁ h₂ (by omega))
          (by omega) (by omega) (by omega)).mono ?_
        rintro r ⟨h₁, h₂, hbelow, hr⟩
        refine ⟨h₁, by omega, hbelow, fun _ => ?_⟩
        obtain hr' | rfl := Nat.lt_or_eq_of_le h₂
        · exact hr hr'
        · exact hP
      | false =>
        have hP : ¬ P (low + (high - low) / 2) := by simpa using hb
        rw [if_neg (by simp), min_eq_left (by omega)]
        refine (ih (fun m h₁ h₂ => hfits m (by omega) h₂) (fun m m' h₁ h₂ h₃ => hmono m m' (by omega) h₂ h₃)
          (by omega) hmax (by omega)).mono ?_
        rintro r ⟨h₁, h₂, hbelow, hr⟩
        refine ⟨by omega, h₂, fun m hm hmr hPm => ?_, hr⟩
        obtain hsmall | hlarge := le_or_gt m (low + (high - low) / 2)
        · exact hP (hmono m _ hm hsmall (by omega) hPm)
        · exact hbelow m hlarge hmr hPm
    · rw [if_neg hlt]
      exact sound_pure ⟨le_rfl, hle, fun m h₁ h₂ => by omega, fun h => absurd h hlt⟩

theorem bisect_returns (hfits : ∀ m, low ≤ m → m < high → Returns (fits m) fun _ => True) (hle : low ≤ high)
    (hmax : high ≤ 4294967295) : Returns (bisect fits rounds low high) fun r => low ≤ r ∧ r ≤ high := by
  induction rounds generalizing low high with
  | zero => exact returns_pure ⟨le_rfl, hle⟩
  | succ rounds ih =>
    rw [bisect]
    split_ifs with hlt
    · refine (hfits _ (by omega) (by omega)).bind fun b _ => ?_
      cases b with
      | true =>
        rw [if_pos rfl]
        exact (ih (fun m h₁ h₂ => hfits m h₁ (by omega)) (by omega) (by omega)).mono fun r hr => ⟨hr.1, by omega⟩
      | false =>
        rw [if_neg (by simp)]
        exact (ih (fun m h₁ h₂ => hfits m (by omega) h₂) (by omega) hmax).mono fun r hr => ⟨by omega, hr.2⟩
    · exact returns_pure ⟨le_rfl, hle⟩

def LeastUpTo (P : ℕ → Prop) (cap : ℕ) : Option ℕ → Prop
  | some v => 1 ≤ v ∧ v ≤ cap ∧ P v ∧ ∀ m, 1 ≤ m → m < v → ¬ P m
  | none => ∀ m, 1 ≤ m → m ≤ cap → ¬ P m

theorem LeastUpTo.le {cap v m : ℕ} (h : LeastUpTo P cap (some v)) (hm : 1 ≤ m) (hP : P m) :
    v ≤ m := not_lt.mp fun hlt => h.2.2.2 m hm hlt hP

theorem LeastUpTo.unique {cap a b : ℕ} (ha : LeastUpTo P cap (some a)) (hb : LeastUpTo P cap (some b)) : a = b :=
  le_antisymm (ha.le hb.1 hb.2.2.1) (hb.le ha.1 ha.2.2.1)

theorem exists_leastUpTo {cap m : ℕ} (hm : 1 ≤ m) (hle : m ≤ cap) (hP : P m) : ∃ v, LeastUpTo P cap (some v) := by
  classical
  have hex : ∃ m, 1 ≤ m ∧ P m := ⟨m, hm, hP⟩
  obtain ⟨h₁, h₂⟩ := Nat.find_spec hex
  exact ⟨Nat.find hex, h₁, (Nat.find_min' hex ⟨hm, hP⟩).trans hle, h₂, fun k hk hlt hPk =>
    Nat.find_min hex hlt ⟨hk, hPk⟩⟩

end Foundation.Query
