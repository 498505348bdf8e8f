import Mathlib.Data.Finset.Basic
import Typhon.Foundation.Machine
import Typhon.Input.Bindings

/-! Pointer buttons. The first press of a button pins who gets its events: the client, or the compositor when a binding
takes the press. -/

namespace Typhon.Input
open Foundation

inductive NativePointerButtonDelivery where
  | client
  | compositor
deriving DecidableEq

structure PointerButtonPressState where
  button : ℕ
  delivery : Option NativePointerButtonDelivery
deriving DecidableEq

structure NativePointerButtonEvent where
  button : ℕ
  pressed : Bool
  delivery : NativePointerButtonDelivery
deriving DecidableEq

structure PointerInputState where
  bindingManager : AstreaBindingManager
  modifiers : ModifierMask
  keyboardShortcutsInhibited : Bool
  pressedPointerButtons : List PointerButtonPressState

structure PointerButtonEffect where
  pointerButtons : List NativePointerButtonEvent
  action : Option ℕ
deriving DecidableEq

def AstreaBindingManager.handlePointerButton (m : AstreaBindingManager) (modifiers : ModifierMask) (button : ℕ)
    (pressed inhibited : Bool) : Option CompiledBindingMatch :=
  m.matchBinding modifiers (if pressed then .pointerPress else .pointerRelease) (.pointerButton button) false inhibited

def pinned (l : List PointerButtonPressState) (button : ℕ) : Option NativePointerButtonDelivery :=
  (l.find? fun state => decide (state.button = button)).bind (·.delivery)

namespace PointerInputState

variable (s : PointerInputState)

def pointerButtonDelivery (button : ℕ) : Option NativePointerButtonDelivery := pinned s.pressedPointerButtons button

def setPointerButtonPressed (button : ℕ) (pressed : Bool) : PointerInputState :=
  if pressed then
    if s.pressedPointerButtons.any fun state => decide (state.button = button) then s
    else { s with pressedPointerButtons := s.pressedPointerButtons ++ [⟨button, none⟩] }
  else { s with pressedPointerButtons := s.pressedPointerButtons.filter fun state => decide (state.button ≠ button) }

def pinIn (button : ℕ) (delivery : NativePointerButtonDelivery) :
    List PointerButtonPressState → List PointerButtonPressState
  | [] => []
  | state :: rest =>
    if state.button = button then
      (if state.delivery.isNone then { state with delivery := some delivery } else state) :: rest
    else state :: pinIn button delivery rest

def pinPointerButtonDelivery (button : ℕ) (delivery : NativePointerButtonDelivery) :
    PointerInputState := { s with pressedPointerButtons := pinIn button delivery s.pressedPointerButtons }

def handlePointerButton (button : ℕ) (pressed : Bool) :
    PointerInputState × PointerButtonEffect :=
  let sequenceOwnerBefore := s.pointerButtonDelivery button
  let s := s.setPointerButtonPressed button pressed
  let bindingMatch := s.bindingManager.handlePointerButton s.modifiers button pressed s.keyboardShortcutsInhibited
  let bindingConsumed := bindingMatch.isSome
  let (s, delivery, routeEvent) : PointerInputState × NativePointerButtonDelivery × Bool :=
    if pressed then
      match sequenceOwnerBefore with
      | some delivery => (s, delivery, decide (delivery = .client))
      | none =>
        let delivery := if bindingConsumed then .compositor else .client
        (s.pinPointerButtonDelivery button delivery, delivery, decide (delivery = .client))
    else
      match sequenceOwnerBefore with
      | some delivery => (s, delivery, true)
      | none => (s, .client, !bindingConsumed)
  (s, ⟨if routeEvent then [⟨button, pressed, delivery⟩] else [], bindingMatch.map (·.action)⟩)

end PointerInputState

/-! ### Runs -/

inductive PointerInput where
  | button (device button : ℕ) (pressed : Bool)
  | modifiers (modifiers : ModifierMask)
  | inhibition (inhibited : Bool)
deriving DecidableEq

structure PointerSession where
  state : PointerInputState
  log : List NativePointerButtonEvent
  held : Finset (ℕ × ℕ)
  startedBy : ℕ → Option NativePointerButtonDelivery

namespace PointerSession

def step (s : PointerSession) : PointerInput → PointerSession
  | .modifiers modifiers => { s with state := { s.state with modifiers } }
  | .inhibition inhibited => { s with state := { s.state with keyboardShortcutsInhibited := inhibited } }
  | .button device button pressed =>
    let (state, effect) := s.state.handlePointerButton button pressed
    { state
      log := s.log ++ effect.pointerButtons
      held := if pressed then insert (device, button) s.held else s.held.erase (device, button)
      startedBy :=
        if pressed ∧ ∀ pair ∈ s.held, pair.2 ≠ button then
          Function.update s.startedBy button (some (if effect.action.isSome then .compositor else .client))
        else s.startedBy }

def Alternates (s : PointerSession) : PointerInput → Prop
  | .button device button pressed => (device, button) ∈ s.held ↔ pressed = false
  | _ => True

def Exclusive (s : PointerSession) : PointerInput → Prop
  | .button _ button true => ∀ pair ∈ s.held, pair.2 ≠ button
  | _ => True

instance (s : PointerSession) : DecidablePred s.Alternates
  | .button _ _ _ => inferInstanceAs (Decidable (_ ↔ _))
  | .modifiers _ | .inhibition _ => .isTrue trivial

instance (s : PointerSession) : DecidablePred s.Exclusive
  | .button _ _ true => inferInstanceAs (Decidable (∀ _ ∈ _, _))
  | .button _ _ false | .modifiers _ | .inhibition _ => .isTrue trivial

def clientPresses (button : ℕ) (log : List NativePointerButtonEvent) : List Bool :=
  log.filterMap fun event => if event.button = button ∧ event.delivery = .client then some event.pressed else none

def start (bindingManager : AstreaBindingManager) (modifiers : ModifierMask) (inhibited : Bool) : PointerSession :=
  ⟨⟨bindingManager, modifiers, inhibited, []⟩, [], ∅, fun _ => none⟩

/-! ### The pinned owner -/

theorem pinIn_append {l : List PointerButtonPressState} {button : ℕ} (delivery : NativePointerButtonDelivery)
    (h : ∀ state ∈ l, state.button ≠ button) :
    PointerInputState.pinIn button delivery (l ++ [⟨button, none⟩]) = l ++ [⟨button, some delivery⟩] := by
  induction l with
  | nil => simp [PointerInputState.pinIn]
  | cons state rest ih =>
    rw [List.cons_append, PointerInputState.pinIn, if_neg (h state (List.mem_cons_self ..)),
      ih fun other hother => h other (List.mem_cons_of_mem _ hother), List.cons_append]

theorem pinned_append {l : List PointerButtonPressState} {button : ℕ} (delivery : NativePointerButtonDelivery)
    (h : ∀ state ∈ l, state.button ≠ button) (other : ℕ) :
    pinned (l ++ [⟨button, some delivery⟩]) other = if other = button then some delivery else pinned l other := by
  unfold pinned
  rw [List.find?_append]
  split_ifs with hother
  · subst hother
    rw [List.find?_eq_none.mpr fun state hstate => by simpa using h state hstate]
    simp
  · have hlast : ([⟨button, some delivery⟩] : List PointerButtonPressState).find?
        (fun state => decide (state.button = other)) = none := by
      simpa using Ne.symm hother
    rw [hlast, Option.or_none]

theorem pinned_filter (l : List PointerButtonPressState) (button other : ℕ) :
    pinned (l.filter fun state => decide (state.button ≠ button)) other =
      if other = button then none else pinned l other := by
  unfold pinned
  rw [List.find?_filter]
  split_ifs with hother
  · subst hother
    rw [List.find?_eq_none.mpr fun state _ => by simp]
    rfl
  · congr 2
    funext state
    by_cases hstate : state.button = other
    · simp [hstate, hother]
    · simp [hstate]

/-- A button that somebody holds is pinned to who took its press, and no other button has a state. -/
structure Pinned (s : PointerSession) : Prop where
  one : ∀ pair ∈ s.held, ∀ pair' ∈ s.held, pair.2 = pair'.2 → pair = pair'
  owner : ∀ pair ∈ s.held, ∃ owner, s.startedBy pair.2 = some owner ∧
    pinned s.state.pressedPointerButtons pair.2 = some owner
  known : ∀ state ∈ s.state.pressedPointerButtons, ∃ pair ∈ s.held, pair.2 = state.button
  told : ∀ button, Alternating (clientPresses button s.log) ∧ ((clientPresses button s.log).length % 2 = 1 ↔
    (∃ pair ∈ s.held, pair.2 = button) ∧ s.startedBy button = some .client)

theorem pinned_start (bindingManager : AstreaBindingManager) (modifiers : ModifierMask) (inhibited : Bool) :
    Pinned (start bindingManager modifiers inhibited) :=
  ⟨nofun, nofun, nofun, fun _ => ⟨alternating_nil, by simp [start, clientPresses]⟩⟩

variable {s : PointerSession} {device button : ℕ}

theorem handlePointerButton_press (hfree : ∀ state ∈ s.state.pressedPointerButtons, state.button ≠ button) :
    ∃ owner : NativePointerButtonDelivery, ∃ action : Option ℕ, (owner = .compositor ↔ action.isSome) ∧
      s.state.handlePointerButton button true =
        ({ s.state with pressedPointerButtons := s.state.pressedPointerButtons ++ [⟨button, some owner⟩] },
          ⟨if owner = .client then [⟨button, true, owner⟩] else [], action⟩) := by
  have hnone : s.state.pointerButtonDelivery button = none := by
    unfold PointerInputState.pointerButtonDelivery pinned
    rw [List.find?_eq_none.mpr fun state hstate => by simpa using hfree state hstate]
    rfl
  have hany : (s.state.pressedPointerButtons.any fun state => decide (state.button = button)) = false := by
    simpa using hfree
  unfold PointerInputState.handlePointerButton PointerInputState.setPointerButtonPressed
  simp only [hnone, hany, if_true, if_false, Bool.false_eq_true]
  unfold PointerInputState.pinPointerButtonDelivery
  simp only [pinIn_append _ hfree]
  generalize s.state.bindingManager.handlePointerButton s.state.modifiers button true
    s.state.keyboardShortcutsInhibited = bindingMatch
  cases bindingMatch with
  | none => exact ⟨.client, none, by simp, by simp⟩
  | some binding => exact ⟨.compositor, some binding.action, by simp, by simp⟩

theorem handlePointerButton_release {owner : NativePointerButtonDelivery}
    (howner : pinned s.state.pressedPointerButtons button = some owner) :
    ∃ action : Option ℕ, s.state.handlePointerButton button false = ({ s.state with
          pressedPointerButtons :=
            s.state.pressedPointerButtons.filter fun state => decide (state.button ≠ button) },
        ⟨[⟨button, false, owner⟩], action⟩) := by
  have hsome : s.state.pointerButtonDelivery button = some owner := howner
  unfold PointerInputState.handlePointerButton PointerInputState.setPointerButtonPressed
  simp only [hsome, Bool.false_eq_true, if_false, if_true]
  exact ⟨_, rfl⟩

theorem clientPresses_append (button : ℕ) (log events : List NativePointerButtonEvent) :
    clientPresses button (log ++ events) = clientPresses button log ++ clientPresses button events :=
  List.filterMap_append

theorem Pinned.press (h : Pinned s) (hfree : ∀ pair ∈ s.held, pair.2 ≠ button) :
    Pinned (s.step (.button device button true)) := by
  have hstates : ∀ state ∈ s.state.pressedPointerButtons, state.button ≠ button := by
    intro state hstate heq
    obtain ⟨pair, hpair, hbutton⟩ := h.known state hstate
    exact hfree pair hpair (hbutton.trans heq)
  obtain ⟨owner, action, haction, heq⟩ := handlePointerButton_press hstates
  have howner : (if action.isSome then NativePointerButtonDelivery.compositor else .client) = owner := by
    cases owner with
    | client => rw [if_neg fun hsome => nomatch haction.mpr hsome]
    | compositor => rw [if_pos (haction.mp rfl)]
  unfold step
  simp only [heq, true_and, if_pos hfree, if_true, howner]
  refine ⟨fun pair hpair pair' hpair' hsame => ?_, fun pair hpair => ?_, fun state hstate => ?_, fun other => ?_⟩
  · rcases Finset.mem_insert.mp hpair with rfl | hold <;> rcases Finset.mem_insert.mp hpair' with rfl | hold'
    · rfl
    · exact absurd hsame.symm (hfree pair' hold')
    · exact absurd hsame (hfree pair hold)
    · exact h.one pair hold pair' hold' hsame
  · dsimp only
    rw [pinned_append _ hstates]
    rcases Finset.mem_insert.mp hpair with rfl | hold
    · exact ⟨owner, Function.update_self .., if_pos rfl⟩
    · obtain ⟨owner', hstarted, hpinned⟩ := h.owner pair hold
      rw [Function.update_of_ne (hfree pair hold), if_neg (hfree pair hold)]
      exact ⟨owner', hstarted, hpinned⟩
  · rcases List.mem_append.mp hstate with hstate | hstate
    · obtain ⟨pair, hpair, hbutton⟩ := h.known state hstate
      exact ⟨pair, Finset.mem_insert_of_mem hpair, hbutton⟩
    · rw [List.mem_singleton.mp hstate]
      exact ⟨(device, button), Finset.mem_insert_self .., rfl⟩
  · obtain ⟨halternating, hodd⟩ := h.told other
    dsimp only
    rw [clientPresses_append]
    by_cases hother : other = button
    · subst hother
      have heven : (clientPresses other s.log).length % 2 = 0 := by
        have hnot := mt hodd.mp fun hheld => hheld.1.elim fun pair hpair => hfree pair hpair.1 hpair.2
        omega
      rw [Function.update_self]
      cases owner with
      | client =>
        rw [if_pos rfl, show clientPresses other [⟨other, true, .client⟩] = [true] by simp [clientPresses]]
        refine ⟨halternating.snoc (by simp [heven]), ?_⟩
        rw [List.length_append, List.length_singleton]
        refine iff_of_true (by omega) ⟨⟨(device, other), Finset.mem_insert_self .., rfl⟩, rfl⟩
      | compositor =>
        rw [if_neg nofun, show clientPresses other [] = [] from rfl, List.append_nil]
        refine ⟨halternating, iff_of_false (by omega) fun hboth => nomatch hboth.2⟩
    · have hnone : clientPresses other (if owner = .client then [⟨button, true, owner⟩] else []) = [] := by
        split_ifs
        · simp [clientPresses, Ne.symm hother]
        · rfl
      rw [hnone, List.append_nil, Function.update_of_ne hother]
      refine ⟨halternating, hodd.trans (and_congr_left fun _ => ?_)⟩
      simp [Ne.symm hother]

theorem Pinned.release (h : Pinned s) (hheld : (device, button) ∈ s.held) :
    Pinned (s.step (.button device button false)) := by
  obtain ⟨owner, hstarted, hpinned⟩ := h.owner _ hheld
  obtain ⟨action, heq⟩ := handlePointerButton_release hpinned
  -- nobody else holds the button
  have honly : ∀ pair ∈ s.held.erase (device, button), pair.2 ≠ button := by
    intro pair hpair hsame
    obtain ⟨hne, hmem⟩ := Finset.mem_erase.mp hpair
    exact hne (h.one pair hmem _ hheld hsame)
  unfold step
  simp only [heq, Bool.false_eq_true, false_and, if_false]
  refine ⟨fun pair hpair pair' hpair' => ?_, fun pair hpair => ?_, fun state hstate => ?_, fun other => ?_⟩
  · exact h.one pair (Finset.mem_of_mem_erase hpair) pair' (Finset.mem_of_mem_erase hpair')
  · dsimp only
    rw [pinned_filter, if_neg (honly pair hpair)]
    exact h.owner pair (Finset.mem_of_mem_erase hpair)
  · obtain ⟨hmem, hne⟩ := List.mem_filter.mp hstate
    obtain ⟨pair, hpair, hbutton⟩ := h.known state hmem
    refine ⟨pair, Finset.mem_erase.mpr ⟨?_, hpair⟩, hbutton⟩
    rintro rfl
    exact of_decide_eq_true hne hbutton.symm
  · obtain ⟨halternating, hodd⟩ := h.told other
    dsimp only
    rw [clientPresses_append]
    by_cases hother : other = button
    · subst hother
      have hgone : ¬ ((∃ pair ∈ s.held.erase (device, other), pair.2 = other) ∧ s.startedBy other = some .client) :=
        fun hboth => hboth.1.elim fun pair hpair => honly pair hpair.1 hpair.2
      cases owner with
      | client =>
        have hlength := hodd.mpr ⟨⟨_, hheld, rfl⟩, hstarted⟩
        rw [show clientPresses other [⟨other, false, .client⟩] = [false] by simp [clientPresses]]
        refine ⟨halternating.snoc (by simp [hlength]), iff_of_false ?_ hgone⟩
        rw [List.length_append, List.length_singleton]
        omega
      | compositor =>
        rw [show clientPresses other [⟨other, false, .compositor⟩] = [] by simp [clientPresses], List.append_nil]
        refine ⟨halternating, iff_of_false (fun hlength => ?_) hgone⟩
        have hclient := (hodd.mp hlength).2
        rw [hstarted] at hclient
        exact nomatch hclient
    · have hnone : clientPresses other [⟨button, false, owner⟩] = [] := by simp [clientPresses, Ne.symm hother]
      rw [hnone, List.append_nil]
      refine ⟨halternating, hodd.trans (and_congr_left fun _ => ⟨?_, ?_⟩)⟩
      · rintro ⟨pair, hpair, hbutton⟩
        refine ⟨pair, Finset.mem_erase.mpr ⟨?_, hpair⟩, hbutton⟩
        rintro rfl
        exact hother hbutton.symm
      · rintro ⟨pair, hpair, hbutton⟩
        exact ⟨pair, Finset.mem_of_mem_erase hpair, hbutton⟩

theorem Pinned.step (h : Pinned s) (input : PointerInput) (halternates : s.Alternates input)
    (hexclusive : s.Exclusive input) : Pinned (s.step input) := by
  cases input with
  | modifiers modifiers => exact ⟨h.one, h.owner, h.known, h.told⟩
  | inhibition inhibited => exact ⟨h.one, h.owner, h.known, h.told⟩
  | button device button pressed =>
    cases pressed with
    | true => exact h.press hexclusive
    | false => exact h.release (halternates.mpr rfl)

/-- When no button is held by two devices at once, the client sees each button go down and up in turn, down first; it
has seen it go up once no device holds it; and it does not see the release of a button whose press a binding took. -/
theorem buttons_stay_with_owner {bindingManager : AstreaBindingManager} {modifiers : ModifierMask} {inhibited : Bool}
    {inputs : List PointerInput} {s : PointerSession}
    (hrun : Along step (fun s input => s.Alternates input ∧ s.Exclusive input) inputs
      (start bindingManager modifiers inhibited))
    (hs : s = inputs.foldl step (start bindingManager modifiers inhibited)) (button : ℕ) :
    (∀ i pressed, (clientPresses button s.log)[i]? = some pressed → pressed = decide (i % 2 = 0)) ∧
    ((∀ device, (device, button) ∉ s.held) → (clientPresses button s.log).getLast? ≠ some true) ∧
    ∀ device, (device, button) ∈ s.held → s.startedBy button = some .compositor →
      clientPresses button (s.step (.button device button false)).log = clientPresses button s.log := by
  have hpinned : Pinned s := by
    rw [hs]
    exact hrun.invariant Pinned (fun s input h hinput => h.step input hinput.1 hinput.2) (pinned_start _ _ _)
  obtain ⟨halternating, hodd⟩ := hpinned.told button
  refine ⟨halternating, fun hnone => halternating.getLast?_ne_true ?_, fun device hheld hstarted => ?_⟩
  · have hnot := mt hodd.mp fun hboth => hboth.1.elim fun pair hpair => hnone pair.1 (by rw [← hpair.2]; exact hpair.1)
    omega
  · obtain ⟨owner, hstarted', hpin⟩ := hpinned.owner _ hheld
    obtain rfl : owner = .compositor := Option.some.inj (hstarted'.symm.trans hstarted)
    obtain ⟨action, heq⟩ := handlePointerButton_release hpin
    unfold PointerSession.step
    simp only [heq]
    rw [clientPresses_append]
    simp [clientPresses]

def superLeft : BindingSpec :=
  ⟨⟨false, false, true, false⟩, .pointerPress, .pointerButton 272, .other 0, .disabled, .respect⟩

def superLeftManager : AstreaBindingManager :=
  match AstreaBindingManager.fromSpecs [superLeft] with
  | .ok manager => manager
  | .error _ => ⟨⟨[], [], []⟩, fun _ => false⟩

def takenRun : List PointerInput :=
  [.modifiers ⟨false, false, true, false⟩, .button 1 272 true, .modifiers ⟨false, false, false, false⟩,
    .button 1 272 false, .button 2 272 true, .modifiers ⟨false, false, true, false⟩, .button 2 272 false]

theorem buttons_stay_with_owner_takenRun :
    clientPresses 272 (takenRun.foldl step (start superLeftManager ⟨false, false, false, false⟩ false)).log =
      [true, false] ∧
    (clientPresses 272 (takenRun.foldl step (start superLeftManager ⟨false, false, false, false⟩ false)).log).getLast? ≠
      some true := by
  have hrun : Along step (fun s input => s.Alternates input ∧ s.Exclusive input) takenRun
      (start superLeftManager ⟨false, false, false, false⟩ false) := by decide +kernel
  refine ⟨by decide +kernel, (buttons_stay_with_owner hrun rfl 272).2.1 fun device hheld => ?_⟩
  have hnone : (takenRun.foldl step (start superLeftManager ⟨false, false, false, false⟩ false)).held = ∅ := by
    decide +kernel
  rw [hnone] at hheld
  exact absurd hheld (Finset.notMem_empty _)

def sharedRun : List PointerInput :=
  [.modifiers ⟨false, false, true, false⟩, .button 1 272 true, .button 2 272 true, .button 1 272 false]

theorem release_of_taken_press : (∃ table, CompiledBindingTable.compile [superLeft] = .ok table ∧
      superLeftManager = ⟨table, fun _ => false⟩) ∧
    Along step Alternates (sharedRun ++ [.button 2 272 false])
      (start superLeftManager ⟨false, false, false, false⟩ false) ∧
    (sharedRun.foldl step (start superLeftManager ⟨false, false, false, false⟩ false)).startedBy 272 =
      some .compositor ∧
    clientPresses 272 (sharedRun.foldl step (start superLeftManager ⟨false, false, false, false⟩ false)).log = [] ∧
    clientPresses 272 ((sharedRun ++ [PointerInput.button 2 272 false]).foldl step
      (start superLeftManager ⟨false, false, false, false⟩ false)).log = [false] := by
  exact ⟨⟨_, rfl, rfl⟩, by decide +kernel, by decide +kernel, by decide +kernel, by decide +kernel⟩

end PointerSession
end Typhon.Input
