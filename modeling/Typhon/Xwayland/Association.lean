import Typhon.Foundation.HashMap
import Typhon.Foundation.Machine

/-! Windows of X11 clients are joined to Wayland surfaces by a serial that both sides announce, in any order. A
window that is mapped again announces a new serial; the surface of the latest one is its surface. -/

namespace Typhon.Xwayland
open Foundation HashMap

abbrev X11WindowHandle := ℕ ×ₗ ℕ

def X11WindowHandle.generation (window : X11WindowHandle) : ℕ := (ofLex window).1

structure WaylandAssociation where
  generation : ℕ
  surfaceId : ℕ
  deriving DecidableEq

structure AssociatedSurface where
  generation : ℕ
  serial : ℕ
  surfaceId : ℕ
  mapSerial : ℕ
  deriving DecidableEq

structure X11Association where
  window : X11WindowHandle
  mapSerial : ℕ
  deriving DecidableEq

inductive SurfaceAssociationJoinError where
  | duplicateWaylandSerial
  | duplicateWaylandSurface
  | duplicateX11Serial
  | generationMismatch
  deriving DecidableEq

inductive XwmAssociationEvent where
  | associated (generation : ℕ) (window : X11WindowHandle) (surfaceId : ℕ)
  | removed (generation : ℕ) (window : X11WindowHandle) (surfaceId : ℕ)
  deriving DecidableEq

structure SurfaceAssociationJoin where
  waylandBySerial : HashMap ℕ WaylandAssociation
  x11BySerial : HashMap ℕ X11Association
  serialByX11 : HashMap X11WindowHandle ℕ
  completed : HashMap X11WindowHandle AssociatedSurface
  events : List XwmAssociationEvent

namespace SurfaceAssociationJoin

abbrev Answer := SurfaceAssociationJoin × Except SurfaceAssociationJoinError Unit

variable (s : SurfaceAssociationJoin)

def completeIfReady (serial : ℕ) : Answer :=
  match s.waylandBySerial.lookup serial, s.x11BySerial.lookup serial with
  | some wayland, some x11 =>
    if wayland.generation ≠ x11.window.generation then
      ({ s with
          waylandBySerial := s.waylandBySerial.erase serial
          x11BySerial := s.x11BySerial.erase serial
          serialByX11 := s.serialByX11.erase x11.window }, .error .generationMismatch)
    else if (s.completed.lookup x11.window).isSome then (s, .ok ())
    else
      ({ s with
          completed := s.completed.insert x11.window
            ⟨wayland.generation, serial, wayland.surfaceId, x11.mapSerial⟩
          events := s.events ++ [.associated wayland.generation x11.window wayland.surfaceId] }, .ok ())
  | _, _ => (s, .ok ())

def commitWayland (generation serial surfaceId : ℕ) : Answer :=
  if (s.waylandBySerial.lookup serial).isSome then (s, .error .duplicateWaylandSerial)
  else if anyValue (fun association => association.surfaceId = surfaceId) s.waylandBySerial then
    (s, .error .duplicateWaylandSurface)
  else completeIfReady { s with waylandBySerial := s.waylandBySerial.insert serial ⟨generation, surfaceId⟩ } serial

def noteX11SerialForMap (window : X11WindowHandle) (serial mapSerial : ℕ) : Answer :=
  if (s.x11BySerial.lookup serial).isSome then
    if s.serialByX11.lookup window = some serial then s.completeIfReady serial
    else (s, .error .duplicateX11Serial)
  else
    completeIfReady
      { s with
        serialByX11 := s.serialByX11.insert window serial
        completed := if (s.serialByX11.lookup window).isSome then s.completed.erase window else s.completed
        x11BySerial := s.x11BySerial.insert serial ⟨window, mapSerial⟩ } serial

def serialOfSurface (surfaceId : ℕ) : Option ℕ :=
  ((matching (fun association => association.surfaceId = surfaceId) s.waylandBySerial).sort (· ≤ ·)).head?

def dropCompleted (window : X11WindowHandle) : SurfaceAssociationJoin :=
  match s.completed.lookup window with
  | none => s
  | some association =>
    { s with
      completed := s.completed.erase window
      events := s.events ++ [.removed association.generation window association.surfaceId] }

def removeWaylandSurface (surfaceId : ℕ) : SurfaceAssociationJoin :=
  match s.serialOfSurface surfaceId with
  | none => s
  | some serial =>
    let s' := { s with waylandBySerial := s.waylandBySerial.erase serial }
    match s.x11BySerial.lookup serial with
    | none => s'
    | some x11 =>
      let s' := { s' with x11BySerial := s.x11BySerial.erase serial }
      if s.serialByX11.lookup x11.window = some serial then
        dropCompleted { s' with serialByX11 := s.serialByX11.erase x11.window } x11.window
      else s'

def removeX11Window (window : X11WindowHandle) : SurfaceAssociationJoin :=
  let serials := (matching (fun association => association.window = window) s.x11BySerial).sort (· ≤ ·)
  dropCompleted
    { s with
      serialByX11 := s.serialByX11.erase window
      x11BySerial := eraseAll s.x11BySerial serials
      waylandBySerial := eraseAll s.waylandBySerial serials } window

def clearGeneration (generation : ℕ) : SurfaceAssociationJoin :=
  let windows := (s.serialByX11.keys.filter fun window => window.generation = generation).sort (· ≤ ·)
  let s := windows.foldl removeX11Window s
  let serials :=
    (matching (fun association => association.generation = generation) s.waylandBySerial).sort (· ≤ ·)
  { s with
    waylandBySerial := eraseAll s.waylandBySerial serials
    x11BySerial := eraseAll s.x11BySerial serials }

end SurfaceAssociationJoin

inductive AssociationCall where
  | commitWayland (generation serial surfaceId : ℕ)
  | noteX11SerialForMap (window : X11WindowHandle) (serial mapSerial : ℕ)
  | removeWaylandSurface (surfaceId : ℕ)
  | removeX11Window (window : X11WindowHandle)
  | clearGeneration (generation : ℕ)
  deriving DecidableEq

namespace SurfaceAssociationJoin

def step (s : SurfaceAssociationJoin) : AssociationCall → SurfaceAssociationJoin
  | .commitWayland generation serial surfaceId => (s.commitWayland generation serial surfaceId).1
  | .noteX11SerialForMap window serial mapSerial => (s.noteX11SerialForMap window serial mapSerial).1
  | .removeWaylandSurface surfaceId => s.removeWaylandSurface surfaceId
  | .removeX11Window window => s.removeX11Window window
  | .clearGeneration generation => s.clearGeneration generation

def start : SurfaceAssociationJoin := ⟨∅, ∅, ∅, ∅, []⟩

def latest (s : SurfaceAssociationJoin) (window : X11WindowHandle) : Option (ℕ × ℕ) :=
  (s.serialByX11.lookup window).bind fun serial =>
    (s.waylandBySerial.lookup serial).bind fun wayland =>
      if wayland.generation = window.generation then some (serial, wayland.surfaceId) else none

def Joined (s : SurfaceAssociationJoin) : Prop :=
  ∀ window, (s.completed.lookup window).map (fun association => (association.serial, association.surfaceId)) =
    s.latest window

/-- A surface does not announce an old serial of a window that is not joined, nor one of another generation of a window
that is. -/
def Timely (s : SurfaceAssociationJoin) : AssociationCall → Prop
  | .commitWayland generation serial surfaceId =>
    s.waylandBySerial.lookup serial = none →
      ¬anyValue (fun association => association.surfaceId = surfaceId) s.waylandBySerial = true →
        ∀ x11 ∈ s.x11BySerial.lookup serial, s.serialByX11.lookup x11.window = some serial ∨
          ((s.completed.lookup x11.window).isSome = true ↔ generation = x11.window.generation)
  | _ => True

instance (s : SurfaceAssociationJoin) (call : AssociationCall) : Decidable (s.Timely call) :=
  match call with
  | .commitWayland generation serial surfaceId =>
    inferInstanceAs (Decidable (s.waylandBySerial.lookup serial = none →
      ¬anyValue (fun association => association.surfaceId = surfaceId) s.waylandBySerial = true →
        ∀ x11 ∈ s.x11BySerial.lookup serial, s.serialByX11.lookup x11.window = some serial ∨
          ((s.completed.lookup x11.window).isSome = true ↔ generation = x11.window.generation)))
  | .noteX11SerialForMap .. | .removeWaylandSurface _ | .removeX11Window _ | .clearGeneration _ => .isTrue trivial

structure Sound (s : SurfaceAssociationJoin) : Prop where
  owner : ∀ window serial, s.serialByX11.lookup window = some serial →
    ∃ x11, s.x11BySerial.lookup serial = some x11 ∧ x11.window = window
  generations : ∀ serial wayland x11, s.waylandBySerial.lookup serial = some wayland →
    s.x11BySerial.lookup serial = some x11 → wayland.generation = x11.window.generation
  surfaces : ∀ serial serial' wayland wayland', s.waylandBySerial.lookup serial = some wayland →
    s.waylandBySerial.lookup serial' = some wayland' → wayland.surfaceId = wayland'.surfaceId → serial = serial'
  joined : s.Joined

variable {s s' : SurfaceAssociationJoin} {window : X11WindowHandle} {serial : ℕ} {x11 : X11Association}

theorem Sound.ne_serial (h : s.Sound) {serial' : ℕ} (hx11 : s.x11BySerial.lookup serial = some x11)
    (hwindow : window ≠ x11.window) (hcurrent : s.serialByX11.lookup window = some serial') : serial' ≠ serial := by
  rintro rfl
  obtain ⟨x11', hx11', hsame⟩ := h.owner window serial' hcurrent
  cases hx11.symm.trans hx11'
  exact hwindow hsame.symm

theorem latest_congr (hserial : s'.serialByX11.lookup window = s.serialByX11.lookup window)
    (hwayland : ∀ serial, s.serialByX11.lookup window = some serial →
      s'.waylandBySerial.lookup serial = s.waylandBySerial.lookup serial) : s'.latest window = s.latest window := by
  unfold latest
  rw [hserial]
  cases hcurrent : s.serialByX11.lookup window with
  | none => rfl
  | some serial =>
    rw [Option.bind_some, Option.bind_some, hwayland serial hcurrent]

theorem latest_of_none (h : s.serialByX11.lookup window = none) : s.latest window = none := by
  rw [latest, h]
  rfl

theorem Sound.completed_of_current (h : s.Sound) (hcurrent : s.serialByX11.lookup window = some serial)
    (hnone : s.waylandBySerial.lookup serial = none) : s.completed.lookup window = none := by
  have hjoined := h.joined window
  rw [latest, hcurrent, Option.bind_some, hnone] at hjoined
  exact Option.map_eq_none_iff.mp hjoined

theorem lookup_dropCompleted (s : SurfaceAssociationJoin) (window window' : X11WindowHandle) :
    (s.dropCompleted window).completed.lookup window' =
      if window' = window then none else s.completed.lookup window' := by
  unfold dropCompleted
  split
  · rename_i hnone
    split_ifs with heq
    · rw [heq, hnone]
    · rfl
  · exact lookup_erase _ _ _

theorem dropCompleted_maps (s : SurfaceAssociationJoin) (window : X11WindowHandle) :
    (s.dropCompleted window).waylandBySerial = s.waylandBySerial ∧
      (s.dropCompleted window).x11BySerial = s.x11BySerial ∧ (s.dropCompleted window).serialByX11 = s.serialByX11 := by
  unfold dropCompleted
  split <;> exact ⟨rfl, rfl, rfl⟩

theorem Sound.restrict (h : s.Sound) (hwayland : ∀ serial, s'.waylandBySerial.lookup serial = none ∨
      s'.waylandBySerial.lookup serial = s.waylandBySerial.lookup serial)
    (hx11 : ∀ serial, s'.x11BySerial.lookup serial = none ∨
      s'.x11BySerial.lookup serial = s.x11BySerial.lookup serial)
    (hwindow : ∀ window, s'.serialByX11.lookup window = none ∧ s'.completed.lookup window = none ∨
      (s'.serialByX11.lookup window = s.serialByX11.lookup window ∧
        s'.completed.lookup window = s.completed.lookup window) ∧
      ∀ serial, s.serialByX11.lookup window = some serial →
        s'.x11BySerial.lookup serial = s.x11BySerial.lookup serial ∧
          s'.waylandBySerial.lookup serial = s.waylandBySerial.lookup serial) : s'.Sound := by
  have hold : ∀ {α : Type} {a b : Option α} {x : α}, a = none ∨ a = b → a = some x → b = some x := by
    rintro α a b x (rfl | rfl) hx
    · cases hx
    · exact hx
  refine ⟨fun window serial hcurrent => ?_, fun serial wayland x11 hw hx => ?_,
    fun serial serial' wayland wayland' hw hw' => ?_, fun window => ?_⟩
  · rcases hwindow window with ⟨hnone, -⟩ | ⟨⟨hserial, -⟩, hkept⟩
    · exact absurd (hnone.symm.trans hcurrent) nofun
    · rw [(hkept serial (hserial ▸ hcurrent)).1]
      exact h.owner window serial (hserial ▸ hcurrent)
  · exact h.generations serial wayland x11 (hold (hwayland serial) hw) (hold (hx11 serial) hx)
  · exact h.surfaces serial serial' wayland wayland' (hold (hwayland serial) hw) (hold (hwayland serial') hw')
  · rcases hwindow window with ⟨hnone, hcompleted⟩ | ⟨⟨hserial, hcompleted⟩, hkept⟩
    · rw [hcompleted, latest_of_none hnone]
      rfl
    · rw [hcompleted, latest_congr hserial fun serial hcurrent => (hkept serial hcurrent).2]
      exact h.joined window

theorem lookup_erase_cases {κ υ : Type} [DecidableEq κ] (m : HashMap κ υ) (k k' : κ) :
    (m.erase k).lookup k' = none ∨ (m.erase k).lookup k' = m.lookup k' := by
  rw [lookup_erase]
  split_ifs
  · exact .inl rfl
  · exact .inr rfl

theorem lookup_eraseAll_cases {κ υ : Type} [DecidableEq κ] (m : HashMap κ υ) (ks : List κ) (k : κ) :
    (eraseAll m ks).lookup k = none ∨ (eraseAll m ks).lookup k = m.lookup k := by
  rw [lookup_eraseAll]
  split_ifs
  · exact .inl rfl
  · exact .inr rfl

theorem lookup_erase_ne {κ υ : Type} [DecidableEq κ] {m : HashMap κ υ} {k k' : κ} (h : k' ≠ k) :
    (m.erase k).lookup k' = m.lookup k' := by
  rw [lookup_erase, if_neg h]

theorem lookup_serialOfSurface {surfaceId : ℕ} (h : s.serialOfSurface surfaceId = some serial) :
    ∃ wayland, s.waylandBySerial.lookup serial = some wayland ∧ wayland.surfaceId = surfaceId := by
  have hmem := (Finset.mem_sort _).mp (List.mem_of_head? h)
  rw [mem_matching] at hmem
  obtain ⟨wayland, hwayland, hsurface⟩ := (Option.any_eq_true _ _).mp hmem
  exact ⟨wayland, hwayland, of_decide_eq_true hsurface⟩

theorem sound_removeWaylandSurface (h : s.Sound) (surfaceId : ℕ) : (s.removeWaylandSurface surfaceId).Sound := by
  unfold removeWaylandSurface
  split
  · exact h
  rename_i serial hserial
  dsimp only
  split
  · rename_i hnone
    refine h.restrict (fun _ => lookup_erase_cases _ _ _) (fun _ => .inr rfl) fun window => .inr ⟨⟨rfl, rfl⟩, ?_⟩
    refine fun serial' hcurrent => ⟨rfl, lookup_erase_ne ?_⟩
    rintro rfl
    obtain ⟨x11, hx11, -⟩ := h.owner window serial' hcurrent
    exact absurd (hnone.symm.trans hx11) nofun
  rename_i x11 hx11
  split
  · obtain ⟨hwayland, hx11', hserial'⟩ := dropCompleted_maps { s with
      waylandBySerial := s.waylandBySerial.erase serial, x11BySerial := s.x11BySerial.erase serial
      serialByX11 := s.serialByX11.erase x11.window } x11.window
    refine h.restrict (fun _ => ?_) (fun _ => ?_) fun window => ?_
    · rw [hwayland]
      exact lookup_erase_cases _ _ _
    · rw [hx11']
      exact lookup_erase_cases _ _ _
    · rw [hwayland, hx11', hserial', lookup_dropCompleted]
      by_cases heq : window = x11.window
      · rw [if_pos heq, heq, lookup_erase, if_pos rfl]
        exact .inl ⟨rfl, rfl⟩
      · rw [if_neg heq]
        refine .inr ⟨⟨lookup_erase_ne heq, rfl⟩, fun serial' hcurrent => ?_⟩
        have hne := h.ne_serial hx11 heq hcurrent
        exact ⟨lookup_erase_ne hne, lookup_erase_ne hne⟩
  · rename_i hold
    refine h.restrict (fun _ => lookup_erase_cases _ _ _) (fun _ => lookup_erase_cases _ _ _)
      fun window => .inr ⟨⟨rfl, rfl⟩, fun serial' hcurrent => ?_⟩
    have hne : serial' ≠ serial := by
      rintro rfl
      obtain ⟨x11', hx11', rfl⟩ := h.owner window serial' hcurrent
      cases hx11.symm.trans hx11'
      exact hold hcurrent
    exact ⟨lookup_erase_ne hne, lookup_erase_ne hne⟩

theorem removeX11Window_maps (s : SurfaceAssociationJoin) (window : X11WindowHandle) :
    let serials := (matching (fun association => association.window = window) s.x11BySerial).sort (· ≤ ·)
    (s.removeX11Window window).waylandBySerial = eraseAll s.waylandBySerial serials ∧
      (s.removeX11Window window).x11BySerial = eraseAll s.x11BySerial serials ∧
      (s.removeX11Window window).serialByX11 = s.serialByX11.erase window :=
  dropCompleted_maps _ _

theorem sound_removeX11Window (h : s.Sound) (window : X11WindowHandle) : (s.removeX11Window window).Sound := by
  obtain ⟨hwayland, hx11, hserial⟩ := removeX11Window_maps s window
  refine h.restrict (fun _ => ?_) (fun _ => ?_) fun window' => ?_
  · rw [hwayland]
    exact lookup_eraseAll_cases _ _ _
  · rw [hx11]
    exact lookup_eraseAll_cases _ _ _
  · rw [hwayland, hx11, hserial, removeX11Window, lookup_dropCompleted]
    by_cases heq : window' = window
    · rw [if_pos heq, heq, lookup_erase, if_pos rfl]
      exact .inl ⟨rfl, rfl⟩
    · rw [if_neg heq]
      refine .inr ⟨⟨lookup_erase_ne heq, rfl⟩, fun serial hcurrent => ?_⟩
      -- the current serial of another window is registered to that window
      have hkept : serial ∉
          (matching (fun association => association.window = window) s.x11BySerial).sort (· ≤ ·) := by
        rw [Finset.mem_sort, mem_matching]
        obtain ⟨x11, hx11, rfl⟩ := h.owner window' serial hcurrent
        simp [hx11, heq]
      rw [lookup_eraseAll, lookup_eraseAll, if_neg hkept, if_neg hkept]
      exact ⟨rfl, rfl⟩

theorem sound_foldl_removeX11Window (h : s.Sound) (windows : List X11WindowHandle) :
    (windows.foldl removeX11Window s).Sound ∧
      ∀ window, (windows.foldl removeX11Window s).serialByX11.lookup window =
        if window ∈ windows then none else s.serialByX11.lookup window := by
  induction windows generalizing s with
  | nil => exact ⟨h, fun window => by simp⟩
  | cons window windows ih =>
    obtain ⟨hsound, hserial⟩ := ih (sound_removeX11Window h window)
    refine ⟨hsound, fun window' => ?_⟩
    rw [List.foldl_cons, hserial window', (removeX11Window_maps s window).2.2, lookup_erase]
    by_cases hk : window' = window <;> by_cases hks : window' ∈ windows <;> simp [hk, hks]

theorem sound_clearGeneration (h : s.Sound) (generation : ℕ) : (s.clearGeneration generation).Sound := by
  unfold clearGeneration
  set windows := (s.serialByX11.keys.filter fun window => window.generation = generation).sort (· ≤ ·) with hwindows
  obtain ⟨hsound, hserial⟩ := sound_foldl_removeX11Window h windows
  dsimp only
  generalize windows.foldl removeX11Window s = t at hsound hserial ⊢
  refine hsound.restrict (fun _ => lookup_eraseAll_cases _ _ _) (fun _ => lookup_eraseAll_cases _ _ _)
    fun window => .inr ⟨⟨rfl, rfl⟩, fun serial hcurrent => ?_⟩
  -- no window of the generation is left, so no current serial is one of the generation
  have hother : window.generation ≠ generation := by
    intro hgeneration
    have hold := (hserial window).symm.trans hcurrent
    split_ifs at hold with hmem
    refine hmem ?_
    rw [hwindows, Finset.mem_sort, Finset.mem_filter]
    exact ⟨mem_keys_of_lookup hold, hgeneration⟩
  have hkept : serial ∉ (matching (fun association => association.generation = generation)
      t.waylandBySerial).sort (· ≤ ·) := by
    rw [Finset.mem_sort, mem_matching]
    intro hmem
    obtain ⟨wayland, hwayland, hsame⟩ := (Option.any_eq_true _ _).mp hmem
    obtain ⟨x11, hx11, rfl⟩ := hsound.owner window serial hcurrent
    exact hother ((hsound.generations serial wayland x11 hwayland hx11).symm.trans (of_decide_eq_true hsame))
  rw [lookup_eraseAll, lookup_eraseAll, if_neg hkept, if_neg hkept]
  exact ⟨rfl, rfl⟩

section commit
variable {generation surfaceId : ℕ} (hserial : s.waylandBySerial.lookup serial = none)
  (hsurface : ¬anyValue (fun association => association.surfaceId = surfaceId) s.waylandBySerial = true)
include hserial hsurface

theorem commitWayland_eq : s.commitWayland generation serial surfaceId =
    completeIfReady { s with waylandBySerial := s.waylandBySerial.insert serial ⟨generation, surfaceId⟩ } serial := by
  rw [commitWayland, hserial, if_neg (by nofun), if_neg hsurface]

omit hserial in
theorem surfaces_insert (h : s.Sound) (serial₁ serial₂ : ℕ) (wayland wayland' : WaylandAssociation)
    (h₁ : (s.waylandBySerial.insert serial ⟨generation, surfaceId⟩).lookup serial₁ = some wayland)
    (h₂ : (s.waylandBySerial.insert serial ⟨generation, surfaceId⟩).lookup serial₂ = some wayland')
    (hsame : wayland.surfaceId = wayland'.surfaceId) : serial₁ = serial₂ := by
  have hnew : ∀ serial' wayland', s.waylandBySerial.lookup serial' = some wayland' → wayland'.surfaceId ≠ surfaceId :=
    fun serial' wayland' hlookup hid => hsurface (anyValue_eq_true.mpr ⟨serial', wayland', hlookup, by simpa⟩)
  rw [lookup_insert] at h₁ h₂
  split_ifs at h₁ h₂ with heq₁ heq₂ heq₂
  · exact heq₁.trans heq₂.symm
  · cases h₁
    exact absurd hsame.symm (hnew _ _ h₂)
  · cases h₂
    exact absurd hsame (hnew _ _ h₁)
  · exact h.surfaces serial₁ serial₂ wayland wayland' h₁ h₂ hsame

theorem sound_insertWayland (h : s.Sound) (hcurrent : ∀ window, s.serialByX11.lookup window ≠ some serial)
    (hgeneration : ∀ x11, s.x11BySerial.lookup serial = some x11 → generation = x11.window.generation) :
    Sound { s with waylandBySerial := s.waylandBySerial.insert serial ⟨generation, surfaceId⟩ } := by
  refine ⟨h.owner, fun serial' wayland x11 hw hx => ?_, surfaces_insert hsurface h, fun window => ?_⟩
  · dsimp only at hw hx
    rw [lookup_insert] at hw
    split_ifs at hw with heq
    · cases hw
      exact hgeneration x11 (heq ▸ hx)
    · exact h.generations serial' wayland x11 hw hx
  · refine (h.joined window).trans (Eq.symm (latest_congr ?_ fun serial' hserial' => ?_))
    · rfl
    · refine (lookup_insert _ _ _ _).trans (if_neg ?_)
      rintro rfl
      exact hcurrent window hserial'

theorem sound_commitWayland (h : s.Sound)
    (htimely : ∀ x11 ∈ s.x11BySerial.lookup serial, s.serialByX11.lookup x11.window = some serial ∨
      ((s.completed.lookup x11.window).isSome = true ↔ generation = x11.window.generation)) :
    (s.commitWayland generation serial surfaceId).1.Sound := by
  rw [commitWayland_eq hserial hsurface]
  have hself : (s.waylandBySerial.insert serial ⟨generation, surfaceId⟩).lookup serial =
      some ⟨generation, surfaceId⟩ := by rw [lookup_insert, if_pos rfl]
  unfold completeIfReady
  dsimp only
  rw [hself]
  cases hx11 : s.x11BySerial.lookup serial with
  | none =>
    refine sound_insertWayland hserial hsurface h (fun window hcurrent => ?_) fun x11 hx11' => ?_
    · obtain ⟨x11, hx11', -⟩ := h.owner window serial hcurrent
      exact absurd (hx11.symm.trans hx11') nofun
    · exact absurd (hx11.symm.trans hx11') nofun
  | some x11 =>
    dsimp only
    replace htimely := htimely x11 hx11
    by_cases hgeneration : generation = x11.window.generation
    · rw [if_neg (not_not.mpr hgeneration)]
      cases hcompleted : s.completed.lookup x11.window with
      | some association =>
        -- the window is joined, so the serial is an old one of it
        refine sound_insertWayland hserial hsurface h (fun window hcurrent => ?_) fun x11' hx11' => ?_
        · obtain ⟨x11', hx11', rfl⟩ := h.owner window serial hcurrent
          cases hx11.symm.trans hx11'
          exact absurd ((h.completed_of_current hcurrent hserial).symm.trans hcompleted) nofun
        · cases hx11.symm.trans hx11'
          exact hgeneration
      | none =>
        have hcurrent : s.serialByX11.lookup x11.window = some serial :=
          htimely.resolve_right fun hjoined => absurd (hjoined.mpr hgeneration) (by rw [hcompleted]; nofun)
        rw [Option.isSome_none, if_neg Bool.false_ne_true]
        refine ⟨h.owner, fun serial' wayland x11' hw hx => ?_, surfaces_insert hsurface h, fun window => ?_⟩
        · dsimp only at hw hx
          rw [lookup_insert] at hw
          split_ifs at hw with heq
          · cases hw
            rw [heq] at hx
            cases hx11.symm.trans hx
            exact hgeneration
          · exact h.generations serial' wayland x11' hw hx
        · dsimp only
          rw [lookup_insert]
          split_ifs with heq
          · rw [latest, heq]
            dsimp only
            rw [hcurrent, Option.bind_some, hself, Option.bind_some, if_pos hgeneration]
            rfl
          · refine (h.joined window).trans (Eq.symm (latest_congr ?_ fun serial' hserial' => ?_))
            · rfl
            · exact (lookup_insert _ _ _ _).trans (if_neg (h.ne_serial hx11 heq hserial'))
    · rw [if_pos hgeneration]
      have hcompleted : s.completed.lookup x11.window = none := by
        rcases htimely with hcurrent | hjoined
        · exact h.completed_of_current hcurrent hserial
        · exact Option.not_isSome_iff_eq_none.mp fun hsome => hgeneration (hjoined.mp hsome)
      refine h.restrict (fun serial' => ?_) (fun _ => lookup_erase_cases _ _ _) fun window => ?_
      · dsimp only
        rw [erase_insert_self]
        exact lookup_erase_cases _ _ _
      · dsimp only
        rw [erase_insert_self]
        by_cases heq : window = x11.window
        · rw [heq, lookup_erase, if_pos rfl]
          exact .inl ⟨rfl, hcompleted⟩
        · refine .inr ⟨⟨lookup_erase_ne heq, rfl⟩, fun serial' hcurrent => ?_⟩
          have hne := h.ne_serial hx11 heq hcurrent
          exact ⟨lookup_erase_ne hne, lookup_erase_ne hne⟩

theorem not_joined_commitWayland (hx11 : s.x11BySerial.lookup serial = some x11)
    (hold : s.serialByX11.lookup x11.window ≠ some serial)
    (hlate : ¬((s.completed.lookup x11.window).isSome = true ↔ generation = x11.window.generation)) :
    ¬(s.commitWayland generation serial surfaceId).1.Joined := by
  rw [commitWayland_eq hserial hsurface]
  unfold completeIfReady
  dsimp only
  rw [lookup_insert, if_pos rfl, hx11]
  dsimp only
  intro hjoined
  replace hjoined := hjoined x11.window
  by_cases hgeneration : generation = x11.window.generation
  · have hnone : s.completed.lookup x11.window = none :=
      Option.not_isSome_iff_eq_none.mp fun hsome => hlate ⟨fun _ => hgeneration, fun _ => hsome⟩
    rw [if_neg (not_not.mpr hgeneration), hnone, if_neg (by nofun)] at hjoined
    dsimp only at hjoined
    rw [lookup_insert, if_pos rfl] at hjoined
    obtain ⟨serial', hserial', hlatest⟩ := Option.bind_eq_some_iff.mp hjoined.symm
    obtain ⟨wayland, -, hlatest⟩ := Option.bind_eq_some_iff.mp hlatest
    split_ifs at hlatest
    cases hlatest
    exact hold hserial'
  · obtain ⟨association, hsome⟩ : ∃ association, s.completed.lookup x11.window = some association := by
      rw [← Option.isSome_iff_exists]
      by_contra hnone
      exact hlate ⟨fun hsome => absurd hsome hnone, fun hsame => absurd hsame hgeneration⟩
    rw [if_pos hgeneration, latest_of_none (by dsimp only; rw [lookup_erase, if_pos rfl])] at hjoined
    dsimp only at hjoined
    rw [hsome] at hjoined
    cases hjoined

end commit

theorem Sound.completeIfReady_current (h : s.Sound) (hcurrent : s.serialByX11.lookup window = some serial) :
    (s.completeIfReady serial).1.Sound := by
  unfold completeIfReady
  split
  · rename_i wayland x11 hwayland hx11
    obtain ⟨x11', hx11', rfl⟩ := h.owner window serial hcurrent
    cases hx11.symm.trans hx11'
    have hgeneration := h.generations serial wayland x11 hwayland hx11
    have hjoined := h.joined x11.window
    rw [latest, hcurrent, Option.bind_some, hwayland, Option.bind_some, if_pos hgeneration] at hjoined
    obtain ⟨association, hcompleted, -⟩ := Option.map_eq_some_iff.mp hjoined
    rw [if_neg (not_not.mpr hgeneration), hcompleted, Option.isSome_some, if_pos rfl]
    exact h
  · exact h

section NewSerial
variable {window' : X11WindowHandle} {serial' mapSerial : ℕ} {wayland : WaylandAssociation} (h : s.Sound)
  (hnone : s.x11BySerial.lookup serial = none)
include h

theorem lookup_renewed (window window' : X11WindowHandle) :
    (if (s.serialByX11.lookup window).isSome then s.completed.erase window else s.completed).lookup window' =
      if window' = window then none else s.completed.lookup window' := by
  split
  · exact lookup_erase _ _ _
  · rename_i hfirst
    split_ifs with heq
    · have hjoined := h.joined window
      rw [latest_of_none (Option.not_isSome_iff_eq_none.mp hfirst)] at hjoined
      rw [heq]
      exact Option.map_eq_none_iff.mp hjoined
    · rfl

theorem generations_insertX11 (hnew : ∀ wayland, s.waylandBySerial.lookup serial = some wayland →
      wayland.generation = window.generation) (hw : s.waylandBySerial.lookup serial' = some wayland)
    (hx : (s.x11BySerial.insert serial ⟨window, mapSerial⟩).lookup serial' = some x11) :
    wayland.generation = x11.window.generation := by
  rw [lookup_insert] at hx
  split_ifs at hx with heq
  · cases hx
    exact hnew wayland (heq ▸ hw)
  · exact h.generations serial' wayland x11 hw hx

include hnone

theorem ne_of_unknown (hcurrent : s.serialByX11.lookup window' = some serial') : serial' ≠ serial := by
  rintro rfl
  obtain ⟨x11, hx11, -⟩ := h.owner window' serial' hcurrent
  exact absurd (hnone.symm.trans hx11) nofun

theorem owner_insertX11 (hcurrent : (s.serialByX11.insert window serial).lookup window' = some serial') :
    ∃ x11, (s.x11BySerial.insert serial ⟨window, mapSerial⟩).lookup serial' = some x11 ∧ x11.window = window' := by
  rw [lookup_insert] at hcurrent ⊢
  split_ifs at hcurrent with heq
  · cases hcurrent
    rw [if_pos rfl, heq]
    exact ⟨_, rfl, rfl⟩
  · rw [if_neg (ne_of_unknown h hnone hcurrent)]
    exact h.owner window' serial' hcurrent

end NewSerial

theorem sound_noteX11SerialForMap (h : s.Sound) (window : X11WindowHandle) (serial mapSerial : ℕ) :
    (s.noteX11SerialForMap window serial mapSerial).1.Sound := by
  unfold noteX11SerialForMap
  split
  · split
    · rename_i hcurrent
      exact h.completeIfReady_current hcurrent
    · exact h
  rename_i hnew
  have hnone : s.x11BySerial.lookup serial = none := Option.not_isSome_iff_eq_none.mp hnew
  have hdropped := lookup_renewed h window
  generalize (if (s.serialByX11.lookup window).isSome then s.completed.erase window else s.completed) = completed
    at hdropped ⊢
  unfold completeIfReady
  dsimp only
  rw [lookup_insert, if_pos rfl]
  cases hwayland : s.waylandBySerial.lookup serial with
  | none =>
    refine ⟨fun _ _ => owner_insertX11 h hnone, fun _ _ _ => generations_insertX11 h
      fun wayland hw => absurd (hwayland.symm.trans hw) nofun, h.surfaces, fun window' => ?_⟩
    dsimp only
    rw [hdropped]
    split_ifs with heq
    · rw [latest, heq]
      dsimp only
      rw [lookup_insert, if_pos rfl, Option.bind_some, hwayland]
      rfl
    · refine (h.joined window').trans (Eq.symm (latest_congr ?_ fun serial' _ => rfl))
      exact (lookup_insert _ _ _ _).trans (if_neg heq)
  | some wayland =>
    dsimp only
    by_cases hgeneration : wayland.generation = window.generation
    · rw [if_neg (not_not.mpr hgeneration), hdropped, if_pos rfl, Option.isSome_none, if_neg Bool.false_ne_true]
      refine ⟨fun _ _ => owner_insertX11 h hnone, fun _ _ _ => generations_insertX11 h
        fun wayland' hw => ?_, h.surfaces, fun window' => ?_⟩
      · cases hwayland.symm.trans hw
        exact hgeneration
      · dsimp only
        rw [lookup_insert, hdropped]
        split_ifs with heq
        · rw [latest, heq]
          dsimp only
          rw [lookup_insert, if_pos rfl, Option.bind_some, hwayland, Option.bind_some, if_pos hgeneration]
          rfl
        · refine (h.joined window').trans (Eq.symm (latest_congr ?_ fun serial' _ => rfl))
          exact (lookup_insert _ _ _ _).trans (if_neg heq)
    · rw [if_pos hgeneration]
      refine h.restrict (fun _ => lookup_erase_cases _ _ _) (fun serial' => ?_) fun window' => ?_
      · dsimp only
        rw [erase_insert_self]
        exact lookup_erase_cases _ _ _
      · dsimp only
        rw [erase_insert_self, erase_insert_self, hdropped]
        by_cases heq : window' = window
        · rw [if_pos heq, heq, lookup_erase, if_pos rfl]
          exact .inl ⟨rfl, rfl⟩
        · rw [if_neg heq]
          refine .inr ⟨⟨lookup_erase_ne heq, rfl⟩, fun serial' hcurrent => ?_⟩
          have hne := ne_of_unknown h hnone hcurrent
          exact ⟨lookup_erase_ne hne, lookup_erase_ne hne⟩

theorem sound_step (h : s.Sound) {call : AssociationCall} (htimely : s.Timely call) : (s.step call).Sound := by
  cases call with
  | commitWayland generation serial surfaceId =>
    rw [step]
    cases hserial : s.waylandBySerial.lookup serial with
    | some wayland =>
      rw [commitWayland, hserial]
      exact h
    | none =>
      by_cases hsurface : anyValue (fun association => association.surfaceId = surfaceId) s.waylandBySerial = true
      · rw [commitWayland, hserial, if_neg (by nofun), if_pos hsurface]
        exact h
      · exact sound_commitWayland hserial hsurface h (htimely hserial hsurface)
  | noteX11SerialForMap window serial mapSerial => exact sound_noteX11SerialForMap h window serial mapSerial
  | removeWaylandSurface surfaceId => exact sound_removeWaylandSurface h surfaceId
  | removeX11Window window => exact sound_removeX11Window h window
  | clearGeneration generation => exact sound_clearGeneration h generation

theorem joined_step_iff (h : s.Sound) (call : AssociationCall) : (s.step call).Joined ↔ s.Timely call := by
  refine ⟨fun hjoined => ?_, fun htimely => (sound_step h htimely).joined⟩
  cases call with
  | commitWayland generation serial surfaceId =>
    intro hserial hsurface x11 hx11
    by_contra hlate
    push Not at hlate
    exact not_joined_commitWayland hserial hsurface hx11 hlate.1 (fun hiff => by tauto) hjoined
  | noteX11SerialForMap window serial mapSerial => trivial
  | removeWaylandSurface surfaceId => trivial
  | removeX11Window window => trivial
  | clearGeneration generation => trivial

theorem sound_start : start.Sound :=
  ⟨fun window _ h => absurd ((lookup_empty window).symm.trans h) nofun,
    fun serial _ _ h => absurd ((lookup_empty serial).symm.trans h) nofun,
    fun serial _ _ _ h => absurd ((lookup_empty serial).symm.trans h) nofun, fun _ => rfl⟩

theorem Sound.completed (h : s.Sound) {association : AssociatedSurface}
    (hcompleted : s.completed.lookup window = some association) :
    s.serialByX11.lookup window = some association.serial ∧
      ∃ wayland, s.waylandBySerial.lookup association.serial = some wayland ∧
        wayland.surfaceId = association.surfaceId := by
  have hjoined := h.joined window
  rw [hcompleted] at hjoined
  obtain ⟨serial, hserial, hlatest⟩ := Option.bind_eq_some_iff.mp hjoined.symm
  obtain ⟨wayland, hwayland, hlatest⟩ := Option.bind_eq_some_iff.mp hlatest
  split_ifs at hlatest
  obtain ⟨rfl, hsurface⟩ := Prod.mk.inj (Option.some.inj hlatest)
  exact ⟨hserial, wayland, hwayland, hsurface⟩

theorem Sound.window_unique (h : s.Sound) {window' : X11WindowHandle} {association association' : AssociatedSurface}
    (hcompleted : s.completed.lookup window = some association)
    (hcompleted' : s.completed.lookup window' = some association')
    (hsame : association.surfaceId = association'.surfaceId) : window = window' := by
  obtain ⟨hserial, wayland, hwayland, hsurface⟩ := h.completed hcompleted
  obtain ⟨hserial', wayland', hwayland', hsurface'⟩ := h.completed hcompleted'
  have hserials : association.serial = association'.serial :=
    h.surfaces _ _ wayland wayland' hwayland hwayland' (hsurface.trans (hsame.trans hsurface'.symm))
  obtain ⟨x11, hx11, rfl⟩ := h.owner window _ hserial
  obtain ⟨x11', hx11', rfl⟩ := h.owner window' _ hserial'
  rw [hserials] at hx11
  cases hx11.symm.trans hx11'
  rfl

theorem removeWaylandSurface_lookup (h : s.Sound) {surfaceId : ℕ} {wayland : WaylandAssociation}
    (hwayland : (s.removeWaylandSurface surfaceId).waylandBySerial.lookup serial = some wayland) :
    wayland.surfaceId ≠ surfaceId := by
  intro hsurface
  unfold removeWaylandSurface at hwayland
  cases hfound : s.serialOfSurface surfaceId with
  | none =>
    rw [hfound] at hwayland
    have hmem : serial ∈ (matching (fun association => association.surfaceId = surfaceId)
        s.waylandBySerial).sort (· ≤ ·) := by
      rw [Finset.mem_sort, mem_matching, hwayland]
      simpa using hsurface
    rw [serialOfSurface, List.head?_eq_none_iff] at hfound
    rw [hfound] at hmem
    cases hmem
  | some serial' =>
    obtain ⟨wayland', hwayland', hsurface'⟩ := lookup_serialOfSurface hfound
    have hmaps : (s.removeWaylandSurface surfaceId).waylandBySerial = s.waylandBySerial.erase serial' := by
      rw [removeWaylandSurface, hfound]
      dsimp only
      split
      · rfl
      split
      · exact (dropCompleted_maps _ _).1
      · rfl
    rw [← removeWaylandSurface, hmaps, lookup_erase] at hwayland
    split_ifs at hwayland with heq
    exact heq (h.surfaces serial serial' wayland wayland' hwayland hwayland' (hsurface.trans hsurface'.symm))

theorem commit_note_comm {generation surfaceId : ℕ} (mapSerial : ℕ) (hserial : s.waylandBySerial.lookup serial = none)
    (hsurface : ¬anyValue (fun association => association.surfaceId = surfaceId) s.waylandBySerial = true)
    (hx11 : s.x11BySerial.lookup serial = none) :
    (s.step (.commitWayland generation serial surfaceId)).step (.noteX11SerialForMap window serial mapSerial) =
      (s.step (.noteX11SerialForMap window serial mapSerial)).step (.commitWayland generation serial surfaceId) := by
  have hcommit : s.step (.commitWayland generation serial surfaceId) =
      { s with waylandBySerial := s.waylandBySerial.insert serial ⟨generation, surfaceId⟩ } := by
    rw [step, commitWayland_eq hserial hsurface, completeIfReady]
    dsimp only
    rw [lookup_insert, if_pos rfl, hx11]
  have hnote : s.step (.noteX11SerialForMap window serial mapSerial) =
      { s with
        serialByX11 := s.serialByX11.insert window serial
        completed := if (s.serialByX11.lookup window).isSome then s.completed.erase window else s.completed
        x11BySerial := s.x11BySerial.insert serial ⟨window, mapSerial⟩ } := by
    rw [step, noteX11SerialForMap, hx11, if_neg (by nofun), completeIfReady]
    dsimp only
    rw [hserial]
  rw [hcommit, hnote, step, step, noteX11SerialForMap, commitWayland]
  dsimp only
  rw [hx11, hserial, Option.isSome_none, if_neg Bool.false_ne_true, Option.isSome_none, if_neg Bool.false_ne_true,
    if_neg hsurface]

end SurfaceAssociationJoin

open SurfaceAssociationJoin in
theorem joined_to_latest_serial {calls : List AssociationCall} {s : SurfaceAssociationJoin}
    (hrun : Along step Timely calls start) (hs : s = calls.foldl step start) : s.Joined ∧
    (∀ window window' association association', s.completed.lookup window = some association →
      s.completed.lookup window' = some association' → association.surfaceId = association'.surfaceId →
        window = window') ∧
    (∀ surfaceId window association, (s.removeWaylandSurface surfaceId).completed.lookup window = some association →
      association.surfaceId ≠ surfaceId) ∧
    (∀ window generation serial surfaceId mapSerial, s.waylandBySerial.lookup serial = none →
      ¬HashMap.anyValue (fun association => association.surfaceId = surfaceId) s.waylandBySerial = true →
      s.x11BySerial.lookup serial = none →
      (s.step (.commitWayland generation serial surfaceId)).step (.noteX11SerialForMap window serial mapSerial) =
        (s.step (.noteX11SerialForMap window serial mapSerial)).step (.commitWayland generation serial surfaceId)) ∧
    ∀ call, (s.step call).Joined ↔ s.Timely call := by
  have h : s.Sound := by
    rw [hs]
    exact hrun.invariant Sound (fun _ _ h htimely => sound_step h htimely) sound_start
  refine ⟨h.joined, fun window window' association association' => h.window_unique,
    fun surfaceId window association hcompleted hsurface => ?_,
    fun window generation serial surfaceId mapSerial => commit_note_comm mapSerial, joined_step_iff h⟩
  obtain ⟨-, wayland, hwayland, hsame⟩ := (sound_removeWaylandSurface h surfaceId).completed hcompleted
  exact removeWaylandSurface_lookup h hwayland (hsame.trans hsurface)

def remappedWindow : List AssociationCall :=
  [.noteX11SerialForMap (toLex (1, 10)) 1 0, .noteX11SerialForMap (toLex (1, 10)) 2 1, .commitWayland 1 2 42,
    .commitWayland 1 1 41, .removeWaylandSurface 41]

theorem joined_to_latest_serial_remapped :
    (remappedWindow.foldl SurfaceAssociationJoin.step SurfaceAssociationJoin.start).latest (toLex (1, 10)) =
      some (2, 42) ∧
    ((remappedWindow.foldl SurfaceAssociationJoin.step SurfaceAssociationJoin.start).completed.lookup
      (toLex (1, 10))).map (fun association => (association.serial, association.surfaceId)) =
        (remappedWindow.foldl SurfaceAssociationJoin.step SurfaceAssociationJoin.start).latest (toLex (1, 10)) := by
  have hrun : Along SurfaceAssociationJoin.step SurfaceAssociationJoin.Timely remappedWindow
      SurfaceAssociationJoin.start := by decide +kernel
  exact ⟨by decide +kernel, (joined_to_latest_serial hrun rfl).1 _⟩

def lateSurface : List AssociationCall :=
  [.noteX11SerialForMap (toLex (1, 10)) 1 0, .noteX11SerialForMap (toLex (1, 10)) 2 1, .commitWayland 1 1 41,
    .commitWayland 1 2 42]

theorem late_surface_joined :
    (lateSurface.foldl SurfaceAssociationJoin.step SurfaceAssociationJoin.start).latest (toLex (1, 10)) =
      some (2, 42) ∧
    (lateSurface.foldl SurfaceAssociationJoin.step SurfaceAssociationJoin.start).completed.lookup (toLex (1, 10)) =
      some ⟨1, 1, 41, 0⟩ := by
  decide +kernel

end Typhon.Xwayland
