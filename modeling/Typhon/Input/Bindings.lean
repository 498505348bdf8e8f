import Mathlib.Data.List.Lex
import Typhon.Foundation.BinarySearch
import Typhon.Input.Keyboard

/-! The compiled table of key and button bindings, and the manager that asks it. Buckets are ranges of one list of
candidates, and a bucket is found by binary search. -/

namespace Typhon.Input
open Foundation

structure ModifierMask where
  alt : Bool
  shift : Bool
  super : Bool
  ctrl : Bool
  deriving DecidableEq

namespace ModifierMask

def bits (m : ModifierMask) : ℕ := m.alt.toNat + 2 * m.shift.toNat + 4 * m.super.toNat + 8 * m.ctrl.toNat

end ModifierMask

inductive BindingTrigger where
  | press
  | release
  | pointerPress
  | pointerRelease
  deriving DecidableEq

inductive BindingInput where
  | physicalKey (code : ℕ)
  | keySym (keysym : ℕ)
  | pointerButton (button : ℕ)
  deriving DecidableEq

inductive BindingActionDefinition where
  | emitShortcut (namespace' name : String)
  | systemAction (action : ℕ)
  | other (action : ℕ)
  deriving DecidableEq

inductive RepeatPolicy where
  | disabled
  | enabled
  deriving DecidableEq

inductive InhibitionPolicy where
  | respect
  | bypass
  deriving DecidableEq

structure BindingSpec where
  modifiers : ModifierMask
  trigger : BindingTrigger
  input : BindingInput
  action : BindingActionDefinition
  repeat' : RepeatPolicy
  inhibition : InhibitionPolicy
  deriving DecidableEq

structure BindingLookupKey where
  trigger : BindingTrigger
  input : BindingInput
  modifiers : ModifierMask
  deriving DecidableEq

def BindingTrigger.rank : BindingTrigger → ℕ
  | .press => 0
  | .release => 1
  | .pointerPress => 2
  | .pointerRelease => 3

def BindingInput.rank : BindingInput → ℕ × ℕ
  | .physicalKey code => (0, code)
  | .keySym keysym => (1, keysym)
  | .pointerButton button => (2, button)

def BindingLookupKey.rank (key : BindingLookupKey) : List ℕ :=
  [key.trigger.rank, key.input.rank.1, key.input.rank.2, key.modifiers.bits]

inductive BindingAvailability where
  | always
  | systemAction (action : ℕ)
  deriving DecidableEq

def BindingAvailability.fromAction : BindingActionDefinition → BindingAvailability
  | .systemAction action => .systemAction action
  | _ => .always

def BindingAvailability.isAvailable (capabilities : ℕ → Bool) : BindingAvailability → Bool
  | .always => true
  | .systemAction action => capabilities action

inductive BindingSequenceEffect where
  | none
  | altTabStep
  deriving DecidableEq

def classifySequenceEffect : BindingActionDefinition → BindingSequenceEffect
  | .emitShortcut namespace' name =>
    if namespace' = "astrea-shell" ∧ (name = "alt_tab_next" ∨ name = "alt_tab_previous") then .altTabStep else .none
  | _ => .none

structure CompiledBinding where
  id : ℕ
  trigger : BindingTrigger
  input : BindingInput
  modifiers : ModifierMask
  action : ℕ
  availability : BindingAvailability
  repeat' : RepeatPolicy
  inhibition : InhibitionPolicy
  definitionOrder : ℕ
  sequenceEffect : BindingSequenceEffect
  deriving DecidableEq

def CompiledBinding.lookupKey (b : CompiledBinding) : BindingLookupKey := ⟨b.trigger, b.input, b.modifiers⟩

inductive BindingTableCompileError where
  | tooManyBindings
  | tooManyActions
  deriving DecidableEq

inductive AstreaShortcutPhase where
  | pressed
  | released
  | repeated
deriving DecidableEq

def shortcutPhase : BindingTrigger → Bool → AstreaShortcutPhase
  | .press, repeated | .pointerPress, repeated => if repeated then .repeated else .pressed
  | .release, _ | .pointerRelease, _ => .released

structure CompiledBindingMatch where
  binding : ℕ
  action : ℕ
  phase : AstreaShortcutPhase
  repeat' : RepeatPolicy
  inhibition : InhibitionPolicy
deriving DecidableEq

structure BindingRange where
  key : BindingLookupKey
  start : ℕ
  stop : ℕ
deriving DecidableEq

def BindingLookupKey.cmp (left right : BindingLookupKey) : Ordering :=
  if left.rank < right.rank then .lt else if left.rank = right.rank then .eq else .gt

structure KeyboardSymbolicIdentity where
  keysym : ℕ
  modifiers : ModifierMask
  deriving DecidableEq

structure KeyboardSymbolicSnapshot where
  raw : Option KeyboardSymbolicIdentity
  translated : Option KeyboardSymbolicIdentity
  deriving DecidableEq

structure CompiledBindingTable where
  bindings : List CompiledBinding
  buckets : List BindingRange
  candidates : List ℕ

namespace CompiledBindingTable

def compileSpec (index : ℕ) (spec : BindingSpec) : Except BindingTableCompileError CompiledBinding :=
  if U32.top < index then .error .tooManyBindings
  else .ok
    { id := index
      trigger := spec.trigger
      input := spec.input
      modifiers := spec.modifiers
      action := index
      availability := .fromAction spec.action
      repeat' := spec.repeat'
      inhibition := spec.inhibition
      definitionOrder := index
      sequenceEffect := classifySequenceEffect spec.action }

def compileSpecs : ℕ → List BindingSpec → Except BindingTableCompileError (List CompiledBinding)
  | _, [] => .ok []
  | index, spec :: specs => do
    let binding ← compileSpec index spec
    let bindings ← compileSpecs (index + 1) specs
    return binding :: bindings

def definitionBefore (left right : CompiledBinding) : Bool :=
  if left.lookupKey = right.lookupKey then decide (right.definitionOrder ≤ left.definitionOrder)
  else decide (left.lookupKey.rank ≤ right.lookupKey.rank)

def pushBinding (state : List BindingRange × List ℕ) (binding : CompiledBinding) : List BindingRange × List ℕ :=
  let (buckets, candidates) := state
  let buckets :=
    if buckets.getLast?.map (·.key) = some binding.lookupKey then buckets
    else buckets ++ [⟨binding.lookupKey, candidates.length, candidates.length⟩]
  (buckets.dropLast ++ (buckets.getLast?.map fun bucket => { bucket with stop := bucket.stop + 1 }).toList,
    candidates ++ [binding.id])

def compile (specs : List BindingSpec) : Except BindingTableCompileError CompiledBindingTable := do
  let bindings ← compileSpecs 0 specs
  if U32.top < bindings.length then .error .tooManyActions
  else
    let (buckets, candidates) :=
      (bindings.insertionSort (definitionBefore · ·)).foldl pushBinding ([], [])
    return { bindings, buckets, candidates }

variable (table : CompiledBindingTable)

def binding (id : ℕ) : Option CompiledBinding :=
  table.bindings[id]?.filter fun binding => decide (binding.id = id)

def passes (repeated inhibited : Bool) (systemCapabilities : ℕ → Bool) (binding : CompiledBinding) : Bool :=
  !((repeated && decide (binding.repeat' ≠ .enabled)) || (inhibited && decide (binding.inhibition ≠ .bypass)) ||
    !binding.availability.isAvailable systemCapabilities)

def matchOf (repeated : Bool) (binding : CompiledBinding) : CompiledBindingMatch where
  binding := binding.id
  action := binding.action
  phase := shortcutPhase binding.trigger repeated
  repeat' := binding.repeat'
  inhibition := binding.inhibition

def matchBinding (modifiers : ModifierMask) (trigger : BindingTrigger)
    (input : BindingInput) (repeated inhibited : Bool) (systemCapabilities : ℕ → Bool) :
      Option CompiledBindingMatch := do
  let bucketIndex ← binarySearchBy (fun bucket => bucket.key.cmp ⟨trigger, input, modifiers⟩) table.buckets
  let bucket ← table.buckets[bucketIndex]?
  if bucket.start ≤ bucket.stop ∧ bucket.stop ≤ table.candidates.length then
    ((table.candidates.drop bucket.start).take (bucket.stop - bucket.start)).findSome? fun id => do
      let binding ← table.binding id
      if passes repeated inhibited systemCapabilities binding then some (matchOf repeated binding) else none
  else none

def laterOf (winner : Option CompiledBindingMatch) (candidate : CompiledBindingMatch) :
    Option CompiledBindingMatch :=
  let candidateOrder := (table.binding candidate.binding).elim 0 (·.definitionOrder)
  let winnerOrder := (winner.bind fun matched => table.binding matched.binding).elim 0 (·.definitionOrder)
  if winner.isNone || decide (winnerOrder < candidateOrder) then some candidate else winner

/-- The physical key and both keysyms are looked up, and the binding that was defined last is kept. -/
def matchKeyboardBinding (systemCapabilities : ℕ → Bool)
    (physicalModifiers : ModifierMask) (trigger : BindingTrigger) (code : ℕ)
    (symbolic : Option KeyboardSymbolicSnapshot) (repeated inhibited : Bool) : Option CompiledBindingMatch :=
  let bySymbol (identity : KeyboardSymbolicIdentity) :=
    table.matchBinding identity.modifiers trigger (.keySym identity.keysym) repeated inhibited systemCapabilities
  let physical :=
    table.matchBinding physicalModifiers trigger (.physicalKey code) repeated inhibited systemCapabilities
  let raw := (symbolic.bind (·.raw)).bind bySymbol
  let translated := (symbolic.bind (·.translated)).bind bySymbol
  [physical, raw, translated].reduceOption.foldl table.laterOf none

end CompiledBindingTable

structure AstreaBindingManager where
  table : CompiledBindingTable
  systemCapabilities : ℕ → Bool

namespace AstreaBindingManager

def fromSpecs (specs : List BindingSpec) : Except BindingTableCompileError AstreaBindingManager := do
  return ⟨← CompiledBindingTable.compile specs, fun _ => false⟩

def matchBinding (m : AstreaBindingManager) (modifiers : ModifierMask) (trigger : BindingTrigger)
    (input : BindingInput) (repeated inhibited : Bool) : Option CompiledBindingMatch :=
  m.table.matchBinding modifiers trigger input repeated inhibited m.systemCapabilities

end AstreaBindingManager
end Typhon.Input
