import Mathlib.Data.List.Sort
import Mathlib.Logic.Function.Basic
import Typhon.Foundation.SwapRemove
import Typhon.Foundation.Word64

/-! Which keys the keyboards hold together. A key goes down with the first keyboard that presses it and up with the
last one that releases it or is removed. -/

namespace Typhon.Input
open Foundation

def linuxKeyCodeCount : ℕ := 0x300

inductive KeyboardAggregateTransition where
  | none
  | pressed
  | released
  deriving DecidableEq

def keyWordCount : ℕ := (linuxKeyCodeCount + 63) / 64

structure KeyboardSourceState where
  device : ℕ
  pressed : Vector (BitVec 64) keyWordCount

namespace KeyboardSourceState

def new (device : ℕ) : KeyboardSourceState := ⟨device, Vector.replicate keyWordCount 0⟩

variable (source : KeyboardSourceState)

def isPressed (keyIndex : ℕ) : Bool :=
  (source.pressed[keyIndex / 64]?.getD 0) &&& (1#64 <<< (keyIndex % 64)) != 0#64

def setPressed (keyIndex : ℕ) (pressed : Bool) : KeyboardSourceState :=
  let word := source.pressed[keyIndex / 64]?.getD 0
  let mask := 1#64 <<< (keyIndex % 64)
  { source with
    pressed := source.pressed.setIfInBounds (keyIndex / 64) (if pressed then word ||| mask else word &&& ~~~mask) }

/-! ### The words of a keyboard -/

theorem isPressed_eq (key : ℕ) : source.isPressed key = (source.pressed[key / 64]?.getD 0).getLsbD (key % 64) :=
  U64.and_mask_ne_zero _ (Nat.mod_lt _ (by decide))

@[simp] theorem isPressed_new (device key : ℕ) : (new device).isPressed key = false := by
  rw [isPressed_eq, new, Vector.getElem?_replicate]
  split_ifs <;> simp

theorem isPressed_setPressed {code : ℕ} (hcode : code < linuxKeyCodeCount) (pressed : Bool) (key : ℕ) :
    (source.setPressed code pressed).isPressed key = if key = code then pressed else source.isPressed key := by
  have hword : code / 64 < keyWordCount := by
    unfold linuxKeyCodeCount at hcode
    unfold keyWordCount linuxKeyCodeCount
    omega
  simp only [isPressed_eq, setPressed, ← BitVec.twoPow_eq]
  by_cases hsame : code / 64 = key / 64
  · have hlt : code % 64 < 64 := Nat.mod_lt _ (by decide)
    rw [← hsame, Vector.getElem?_setIfInBounds_self_of_lt hword, Option.getD_some]
    by_cases hkey : key = code
    · subst hkey
      cases pressed <;> simp [hlt]
    · have hne : key % 64 ≠ code % 64 := by omega
      cases pressed <;> simp [hkey, hne, Nat.mod_lt key (by decide : 0 < 64)]
  · have hkey : key ≠ code := fun h => hsame (by rw [h])
    rw [Vector.getElem?_setIfInBounds_ne hsame, if_neg hkey]

end KeyboardSourceState

structure KeyboardSourceLedger where
  sources : List KeyboardSourceState
  aggregateCounts : ℕ → ℕ

def keyIndex (code : ℕ) : Option ℕ := if code < linuxKeyCodeCount then some code else none

def isModifierKey (code : ℕ) : Bool := decide (code ∈ [29, 97, 42, 54, 56, 100, 125, 126, 58, 69, 70])

namespace KeyboardSourceLedger

def empty : KeyboardSourceLedger := ⟨[], fun _ => 0⟩

variable (l : KeyboardSourceLedger)

def findSource (device : ℕ) : Option ℕ :=
  l.sources.findIdx? fun source => decide (source.device = device)

def pressFromSource (sourceIndex keyIndex : ℕ) :
    KeyboardAggregateTransition × KeyboardSourceLedger :=
  if l.sources[sourceIndex]?.any (·.isPressed keyIndex) then (.none, l)
  else if U32.top < l.aggregateCounts keyIndex + 1 then (.none, l)
  else
    (if l.aggregateCounts keyIndex = 0 then .pressed else .none,
      { sources := l.sources.modify sourceIndex (·.setPressed keyIndex true)
        aggregateCounts := Function.update l.aggregateCounts keyIndex (l.aggregateCounts keyIndex + 1) })

def press (device code : ℕ) : KeyboardAggregateTransition × KeyboardSourceLedger :=
  match keyIndex code with
  | none => (.none, l)
  | some keyIndex =>
    match l.findSource device with
    | none =>
      let l := { l with sources := l.sources ++ [KeyboardSourceState.new device] }
      l.pressFromSource (l.sources.length - 1) keyIndex
    | some sourceIndex => l.pressFromSource sourceIndex keyIndex

def release (device code : ℕ) : KeyboardAggregateTransition × KeyboardSourceLedger :=
  match keyIndex code with
  | none => (.none, l)
  | some keyIndex =>
    match l.findSource device with
    | none => (.none, l)
    | some sourceIndex =>
      if l.sources[sourceIndex]?.all (!·.isPressed keyIndex) then (.none, l)
      else
        let l := { l with sources := l.sources.modify sourceIndex (·.setPressed keyIndex false) }
        if l.aggregateCounts keyIndex = 0 then (.none, l)
        else
          let count := l.aggregateCounts keyIndex - 1
          (if count = 0 then .released else .none,
            { l with aggregateCounts := Function.update l.aggregateCounts keyIndex count })

def dropKey (source : KeyboardSourceState) (counts : ℕ → ℕ) (released : List ℕ) (keyIndex : ℕ) :
    (ℕ → ℕ) × List ℕ :=
  if !source.isPressed keyIndex then (counts, released)
  else if counts keyIndex = 0 then (counts, released)
  else
    let count := counts keyIndex - 1
    (Function.update counts keyIndex count, if count = 0 then released ++ [keyIndex] else released)

def releaseOrder (left right : ℕ) : Bool :=
  if isModifierKey left = isModifierKey right then decide (left ≤ right) else isModifierKey right

def removeSource (device : ℕ) : List ℕ × KeyboardSourceLedger :=
  match l.findSource device with
  | none => ([], l)
  | some sourceIndex =>
    match l.sources[sourceIndex]? with
    | none => ([], l)
    | some source =>
      let (counts, released) := (List.range linuxKeyCodeCount).foldl
        (fun (counts, released) keyIndex => dropKey source counts released keyIndex) (l.aggregateCounts, [])
      (released.insertionSort (releaseOrder · ·), ⟨swapRemove l.sources sourceIndex, counts⟩)

def isLogicallyPressed (code : ℕ) : Bool :=
  (keyIndex code).any fun index => decide (l.aggregateCounts index ≠ 0)

/-! ### What the keyboards hold -/

structure Sound (held : ℕ → ℕ → Bool) (l : KeyboardSourceLedger) : Prop where
  distinct : (l.sources.map (·.device)).Nodup
  counted : ∀ k < linuxKeyCodeCount, l.aggregateCounts k = l.sources.countP (·.isPressed k)
  known : ∀ source ∈ l.sources, ∀ k < linuxKeyCodeCount, source.isPressed k = true → held source.device k = true

variable {held : ℕ → ℕ → Bool} {l : KeyboardSourceLedger} {device code : ℕ}

theorem findSource_eq_some {i : ℕ} (h : l.findSource device = some i) :
    ∃ before source after, l.sources = before ++ source :: after ∧ before.length = i ∧ source.device = device := by
  obtain ⟨hi, hdevice, -⟩ := List.findIdx?_eq_some_iff_getElem.1 h
  refine ⟨l.sources.take i, l.sources[i], l.sources.drop (i + 1), ?_, ?_, by simpa using hdevice⟩
  · rw [List.getElem_cons_drop hi, List.take_append_drop]
  · rw [List.length_take, Nat.min_eq_left (Nat.le_of_lt hi)]

theorem findSource_eq_none (h : l.findSource device = none) : ∀ source ∈ l.sources, source.device ≠ device := by
  simpa [findSource] using h

def hold (held : ℕ → ℕ → Bool) (device code : ℕ) (pressed : Bool) : ℕ → ℕ → Bool :=
  Function.update held device (Function.update (held device) code pressed)

theorem hold_apply (held : ℕ → ℕ → Bool) (device code : ℕ) (pressed : Bool) (d k : ℕ) :
    hold held device code pressed d k = if d = device ∧ k = code then pressed else held d k := by
  by_cases hd : d = device
  · subst hd
    by_cases hk : k = code <;> simp [hold, hk]
  · simp [hold, hd]

theorem Sound.modify {before after : List KeyboardSourceState} {source : KeyboardSourceState} (pressed : Bool)
    (h : l.Sound held) (hl : l.sources = before ++ source :: after) (hdevice : source.device = device)
    (hcode : code < linuxKeyCodeCount) (hchange : source.isPressed code = !pressed) :
    Sound (hold held device code pressed)
      ⟨before ++ source.setPressed code pressed :: after, Function.update l.aggregateCounts code
        (if pressed then l.aggregateCounts code + 1 else l.aggregateCounts code - 1)⟩ := by
  obtain ⟨hdistinct, hcounted, hknown⟩ := h
  rw [hl] at hdistinct hcounted hknown
  refine ⟨?_, fun k hlt => ?_, ?_⟩
  · simpa [KeyboardSourceState.setPressed] using hdistinct
  · rcases eq_or_ne k code with rfl | hk
    · have hk := hcounted k hlt
      cases pressed <;> simp [source.isPressed_setPressed hcode, hchange] at hk ⊢ <;> omega
    · have hk' := hcounted k hlt
      simpa [List.countP_cons, source.isPressed_setPressed hcode, hk] using hk'
  · have hother : ∀ other ∈ before ++ after, other.device ≠ device := by
      intro other hmem heq
      rw [List.map_append, List.map_cons, List.nodup_middle, ← List.map_append, List.nodup_cons] at hdistinct
      exact hdistinct.1 (hdevice ▸ heq ▸ List.mem_map_of_mem hmem)
    intro other hmem k hlt hk
    rw [hold_apply]
    rcases List.mem_append.1 hmem with hbefore | hafter
    · rw [if_neg fun h => hother other (List.mem_append_left _ hbefore) h.1]
      exact hknown other (List.mem_append_left _ hbefore) k hlt hk
    rcases List.mem_cons.1 hafter with rfl | hafter
    · rw [source.isPressed_setPressed hcode] at hk
      split_ifs with hcase
      · rwa [if_pos hcase.2] at hk
      · rw [if_neg fun hk' => hcase ⟨hdevice, hk'⟩] at hk
        exact hknown source (List.mem_append_right _ List.mem_cons_self) k hlt hk
    · rw [if_neg fun h => hother other (List.mem_append_right _ hafter) h.1]
      exact hknown other (List.mem_append_right _ (List.mem_cons_of_mem _ hafter)) k hlt hk

theorem Sound.mono {held' : ℕ → ℕ → Bool} (h : l.Sound held)
    (hheld : ∀ source ∈ l.sources, ∀ k < linuxKeyCodeCount, source.isPressed k = true → held' source.device k =
      true) : l.Sound held' :=
  ⟨h.distinct, h.counted, hheld⟩

theorem Sound.push (h : l.Sound held) (hnew : ∀ source ∈ l.sources, source.device ≠ device) :
    Sound held ⟨l.sources ++ [.new device], l.aggregateCounts⟩ := by
  obtain ⟨hdistinct, hcounted, hknown⟩ := h
  refine ⟨?_, fun k hlt => ?_, fun source hmem k hlt hk => ?_⟩
  · rw [List.map_append, List.map_singleton, List.nodup_append]
    refine ⟨hdistinct, List.nodup_singleton _, ?_⟩
    simpa [KeyboardSourceState.new] using hnew
  · simpa using hcounted k hlt
  · rcases List.mem_append.1 hmem with hmem | hmem
    · exact hknown source hmem k hlt hk
    · rw [List.mem_singleton.1 hmem, KeyboardSourceState.isPressed_new] at hk
      cases hk

theorem isLogicallyPressed_of_lt (hcode : code < linuxKeyCodeCount) :
    l.isLogicallyPressed code = decide (l.aggregateCounts code ≠ 0) := by
  simp [isLogicallyPressed, keyIndex, hcode]

theorem modify_middle {before after : List KeyboardSourceState} {source : KeyboardSourceState}
    (f : KeyboardSourceState → KeyboardSourceState) :
    (before ++ source :: after).modify before.length f = before ++ f source :: after := by
  induction before with
  | nil => rfl
  | cons _ before ih => rw [List.cons_append, List.length_cons, List.modify_succ_cons, ih, List.cons_append]

theorem dropKey_eq (source : KeyboardSourceState) (counts : ℕ → ℕ) (released : List ℕ) (key : ℕ) :
    dropKey source counts released key =
      (Function.update counts key (if source.isPressed key = true then counts key - 1 else counts key),
        if source.isPressed key = true ∧ counts key = 1 then released ++ [key] else released) := by
  simp only [dropKey]
  by_cases hpressed : source.isPressed key = true
  · by_cases hzero : counts key = 0
    · have hupdate : Function.update counts key 0 = counts := by rw [← hzero, Function.update_eq_self]
      simp [hpressed, hzero, hupdate]
    · have hone : counts key - 1 = 0 ↔ counts key = 1 := by omega
      simp [hpressed, hzero, hone]
  · simp [hpressed]

theorem press_ne_released (device code : ℕ) : (l.press device code).1 ≠ .released := by
  have hfrom : ∀ (l : KeyboardSourceLedger) i k, (l.pressFromSource i k).1 ≠ .released := by
    intro l i k
    rw [pressFromSource]
    split_ifs <;> simp
  rw [press]
  split
  · simp
  · split <;> exact hfrom _ _ _

theorem release_ne_pressed (device code : ℕ) : (l.release device code).1 ≠ .pressed := by
  rw [release]
  split
  · simp
  · split
    · simp
    · dsimp only
      split_ifs <;> simp

theorem foldl_dropKey {keys : List ℕ} (hnodup : keys.Nodup) (source : KeyboardSourceState) (counts : ℕ → ℕ)
    (released : List ℕ) :
    keys.foldl (fun (counts, released) keyIndex => dropKey source counts released keyIndex) (counts, released) =
      (fun k => if k ∈ keys ∧ source.isPressed k = true then counts k - 1 else counts k,
        released ++ keys.filter fun k => decide (source.isPressed k = true ∧ counts k = 1)) := by
  induction keys generalizing counts released with
  | nil => simp
  | cons key keys ih =>
    obtain ⟨hkey, hkeys⟩ := List.nodup_cons.1 hnodup
    change keys.foldl _ (dropKey source counts released key) = _
    rw [dropKey_eq, ih hkeys]
    refine Prod.ext (funext fun k => ?_) ?_
    · rcases eq_or_ne k key with rfl | hne
      · simp [hkey]
      · simp [hne]
    · have hfilter : keys.filter (fun k => decide (source.isPressed k = true ∧ Function.update counts key
          (if source.isPressed key = true then counts key - 1 else counts key) k = 1)) =
          keys.filter fun k => decide (source.isPressed k = true ∧ counts k = 1) :=
        List.filter_congr fun k hk => by rw [Function.update_of_ne (ne_of_mem_of_not_mem hk hkey)]
      dsimp only
      rw [hfilter, List.filter_cons]
      split_ifs <;> simp_all

def drop (held : ℕ → ℕ → Bool) (device : ℕ) : ℕ → ℕ → Bool := Function.update held device fun _ => false

theorem removeSource_spec (h : l.Sound held) (device : ℕ) :
    Sound (drop held device) (l.removeSource device).2 ∧ (l.removeSource device).1.Nodup ∧
      ∀ c, (l.removeSource device).2.isLogicallyPressed c =
        (l.isLogicallyPressed c && decide (c ∉ (l.removeSource device).1)) := by
  rcases hfind : l.findSource device with _ | i
  · rw [removeSource, hfind]
    refine ⟨h.mono fun source hsource k hlt hk => ?_, List.nodup_nil, fun c => by simp⟩
    rw [drop, Function.update_of_ne (findSource_eq_none hfind source hsource)]
    exact h.known source hsource k hlt hk
  · obtain ⟨before, source, after, hl, rfl, rfl⟩ := findSource_eq_some hfind
    have hsource : l.sources[before.length]? = some source := by rw [hl]; simp
    have hperm : (swapRemove l.sources before.length).Perm (before ++ after) := hl ▸ swapRemove_middle ..
    have hdistinct := h.distinct
    rw [hl, List.map_append, List.map_cons, List.nodup_middle, ← List.map_append, List.nodup_cons] at hdistinct
    simp only [removeSource, hfind, hsource, foldl_dropKey List.nodup_range, List.nil_append]
    refine ⟨⟨?_, fun k hlt => ?_, fun other hmem k hlt hk => ?_⟩, ?_, fun c => ?_⟩
    · exact (hperm.map _).nodup_iff.2 hdistinct.2
    · have hcount := h.counted k hlt
      rw [hl, List.countP_append, List.countP_cons] at hcount
      rw [hperm.countP_eq, List.countP_append]
      simp only [List.mem_range, hlt, true_and]
      split_ifs at hcount ⊢ with hpressed <;> omega
    · have hmem' := hperm.mem_iff.1 hmem
      have hne : other.device ≠ source.device := fun heq => hdistinct.1 (heq ▸ List.mem_map_of_mem hmem')
      rw [drop, Function.update_of_ne hne]
      refine h.known other ?_ k hlt hk
      rw [hl]
      exact List.mem_append.2 ((List.mem_append.1 hmem').imp id (List.mem_cons_of_mem _))
    · exact (List.perm_insertionSort _ _).nodup_iff.2 (List.nodup_range.filter _)
    · by_cases hlt : c < linuxKeyCodeCount
      · rw [isLogicallyPressed_of_lt hlt, isLogicallyPressed_of_lt hlt]
        simp only [List.mem_insertionSort, List.mem_filter, List.mem_range, hlt, true_and, decide_eq_true_eq]
        by_cases hpressed : source.isPressed c = true
        · have hone : l.aggregateCounts c - 1 ≠ 0 ↔ l.aggregateCounts c ≠ 0 ∧ l.aggregateCounts c ≠ 1 := by omega
          simp [hpressed, hone]
        · simp [hpressed]
      · simp [isLogicallyPressed, keyIndex, hlt]

end KeyboardSourceLedger
end Typhon.Input
