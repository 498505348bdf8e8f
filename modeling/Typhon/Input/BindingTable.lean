import Mathlib.Order.Bounds.Basic
import Typhon.Input.Bindings

/-! In the compiled table the binding that was defined last wins. -/

namespace Typhon.Input
open Foundation CompiledBindingTable BindingLookupKey

/-! ### Keys and their ranks -/

theorem ModifierMask.bits_injective {m m' : ModifierMask} (h : m.bits = m'.bits) : m = m' := by
  obtain ⟨alt, shift, super, ctrl⟩ := m
  obtain ⟨alt', shift', super', ctrl'⟩ := m'
  revert h
  cases alt <;> cases shift <;> cases super <;> cases ctrl <;> cases alt' <;> cases shift' <;> cases super' <;>
    cases ctrl' <;> decide

variable {key key' : BindingLookupKey}

theorem BindingLookupKey.rank_injective (h : key.rank = key'.rank) : key = key' := by
  obtain ⟨trigger, input, modifiers⟩ := key
  obtain ⟨trigger', input', modifiers'⟩ := key'
  unfold rank at h
  simp only [List.cons.injEq, and_true] at h
  obtain ⟨htrigger, hkind, hcode, hbits⟩ := h
  obtain rfl := ModifierMask.bits_injective hbits
  obtain rfl : trigger = trigger' := by cases trigger <;> cases trigger' <;> simp_all [BindingTrigger.rank]
  obtain rfl : input = input' := by cases input <;> cases input' <;> simp_all [BindingInput.rank]
  rfl

theorem BindingLookupKey.cmp_eq_iff : key.cmp key' = .eq ↔ key = key' := by
  unfold cmp
  constructor
  · intro h
    split_ifs at h with hlt heq
    exact rank_injective heq
  · rintro rfl
    rw [if_neg (lt_irrefl _), if_pos rfl]

theorem BindingLookupKey.cmp_lt_iff : key.cmp key' = .lt ↔ key.rank < key'.rank := by
  unfold cmp
  split_ifs with hlt heq <;> simp [hlt]

theorem BindingLookupKey.cmp_gt_of (h : key'.rank < key.rank) : key.cmp key' = .gt := by
  unfold cmp
  rw [if_neg (lt_asymm h), if_neg (ne_of_gt h)]

namespace CompiledBindingTable

theorem definitionBefore_iff {left right : CompiledBinding} : definitionBefore left right = true ↔
    left.lookupKey.rank < right.lookupKey.rank ∨
      left.lookupKey = right.lookupKey ∧ right.definitionOrder ≤ left.definitionOrder := by
  unfold definitionBefore
  split_ifs with hkey
  · rw [decide_eq_true_eq, hkey]
    exact ⟨fun h => .inr ⟨rfl, h⟩, fun h => (h.resolve_left (lt_irrefl _)).2⟩
  · rw [decide_eq_true_eq, ← not_lt]
    constructor
    · intro hnot
      rcases lt_trichotomy left.lookupKey.rank right.lookupKey.rank with hlt | heq | hgt
      · exact .inl hlt
      · exact absurd (rank_injective heq) hkey
      · exact absurd hgt hnot
    · exact fun h => lt_asymm (h.resolve_right fun h => hkey h.1)

theorem definitionBefore_total (left right : CompiledBinding) :
    definitionBefore left right = true ∨ definitionBefore right left = true := by
  rw [definitionBefore_iff, definitionBefore_iff]
  rcases lt_trichotomy left.lookupKey.rank right.lookupKey.rank with hlt | heq | hgt
  · exact .inl (.inl hlt)
  · have hkey := rank_injective heq
    rcases le_total left.definitionOrder right.definitionOrder with hle | hle
    · exact .inr (.inr ⟨hkey.symm, hle⟩)
    · exact .inl (.inr ⟨hkey, hle⟩)
  · exact .inr (.inl hgt)

theorem definitionBefore_trans {a b c : CompiledBinding} (hab : definitionBefore a b = true)
    (hbc : definitionBefore b c = true) : definitionBefore a c = true := by
  rw [definitionBefore_iff] at *
  rcases hab with hab | ⟨hab, hab'⟩ <;> rcases hbc with hbc | ⟨hbc, hbc'⟩
  · exact .inl (hab.trans hbc)
  · exact .inl (hbc ▸ hab)
  · exact .inl (hab ▸ hbc)
  · exact .inr ⟨hab.trans hbc, hbc'.trans hab'⟩

theorem pairwise_sorted (bindings : List CompiledBinding) :
    (bindings.insertionSort (definitionBefore · ·)).Pairwise fun a b => definitionBefore a b = true := by
  have : Std.Total (fun a b => definitionBefore a b = true) := ⟨definitionBefore_total⟩
  have : IsTrans CompiledBinding (fun a b => definitionBefore a b = true) := ⟨fun _ _ _ => definitionBefore_trans⟩
  exact List.pairwise_insertionSort _ _

/-! ### The compiled bindings -/

def compiled (index : ℕ) (spec : BindingSpec) : CompiledBinding where
  id := index
  trigger := spec.trigger
  input := spec.input
  modifiers := spec.modifiers
  action := index
  availability := .fromAction spec.action
  repeat' := spec.repeat'
  inhibition := spec.inhibition
  definitionOrder := index
  sequenceEffect := classifySequenceEffect spec.action

theorem getElem?_compileSpecs {index : ℕ} {specs : List BindingSpec} {bindings : List CompiledBinding}
    (h : compileSpecs index specs = .ok bindings) (i : ℕ) : bindings[i]? = specs[i]?.map (compiled (index + i)) := by
  induction specs generalizing index bindings i with
  | nil =>
    obtain rfl : [] = bindings := by simpa [compileSpecs, pure, Except.pure] using h
    simp
  | cons spec specs ih =>
    unfold compileSpecs at h
    unfold compileSpec at h
    split_ifs at h with hmax
    · exact nomatch h
    cases hrest : compileSpecs (index + 1) specs with
    | error e =>
      rw [hrest] at h
      exact nomatch h
    | ok rest =>
      rw [hrest] at h
      obtain rfl : compiled index spec :: rest = bindings := by
        simpa [pure, Except.pure, bind, Except.bind, compiled] using h
      cases i with
      | zero => rfl
      | succ i =>
        rw [List.getElem?_cons_succ, List.getElem?_cons_succ, ih hrest]
        congr 2
        omega

end CompiledBindingTable

/-! ### Ranges -/

namespace CompiledBindingTable

/-- The buckets after part of the sorted bindings: keys increase, and each range holds the bindings with its key. -/
structure Grouped (sorted : List CompiledBinding) (buckets : List BindingRange) (candidates : List ℕ) : Prop where
  ids : candidates = sorted.map (·.id)
  increasing : buckets.Pairwise fun a b => a.key.rank < b.key.rank
  bounds : ∀ bucket ∈ buckets, bucket.start < bucket.stop ∧ bucket.stop ≤ sorted.length
  range : ∀ bucket ∈ buckets, (sorted.drop bucket.start).take (bucket.stop - bucket.start) =
    sorted.filter fun binding => decide (binding.lookupKey = bucket.key)
  covers : ∀ binding ∈ sorted, ∃ bucket ∈ buckets, bucket.key = binding.lookupKey
  last : ∀ bucket ∈ buckets.getLast?, bucket.stop = sorted.length

theorem grouped_nil : Grouped [] [] [] := ⟨rfl, List.Pairwise.nil, nofun, nofun, nofun, nofun⟩

section Push
variable {sorted : List CompiledBinding} {binding : CompiledBinding}
  (hsorted : ∀ old ∈ sorted, definitionBefore old binding = true)

theorem range_append {bucket : BindingRange} (hbounds : bucket.start < bucket.stop ∧ bucket.stop ≤ sorted.length)
    (hrange : (sorted.drop bucket.start).take (bucket.stop - bucket.start) =
      sorted.filter fun binding => decide (binding.lookupKey = bucket.key)) (hkey : bucket.key ≠ binding.lookupKey) :
    ((sorted ++ [binding]).drop bucket.start).take (bucket.stop - bucket.start) =
      (sorted ++ [binding]).filter fun binding => decide (binding.lookupKey = bucket.key) := by
  rw [List.drop_append_of_le_length (by omega), List.take_append_of_le_length (by rw [List.length_drop]; omega),
    List.filter_append, hrange]
  simp [Ne.symm hkey]

theorem Grouped.concat {front : List BindingRange} {last : BindingRange}
    (hincreasing : front.Pairwise fun a b => a.key.rank < b.key.rank)
    (hfront : ∀ bucket ∈ front, bucket.key.rank < last.key.rank)
    (hbounds : ∀ bucket ∈ front, bucket.start < bucket.stop ∧ bucket.stop ≤ sorted.length)
    (hranges : ∀ bucket ∈ front, (sorted.drop bucket.start).take (bucket.stop - bucket.start) =
      sorted.filter fun binding => decide (binding.lookupKey = bucket.key))
    (hkey : last.key = binding.lookupKey) (hstart : last.start ≤ sorted.length) (hstop : last.stop = sorted.length + 1)
    (hrange : sorted.drop last.start = sorted.filter fun binding => decide (binding.lookupKey = last.key))
    (hcovers : ∀ old ∈ sorted, last.key = old.lookupKey ∨ ∃ bucket ∈ front, bucket.key = old.lookupKey) :
    Grouped (sorted ++ [binding]) (front ++ [last]) (sorted.map (·.id) ++ [binding.id]) := by
  have hlength : (sorted ++ [binding]).length = sorted.length + 1 := List.length_append
  have hlast : last ∈ front ++ [last] := List.mem_append_right _ (List.mem_singleton_self _)
  refine ⟨by simp, ?_, fun bucket hbucket => ?_, fun bucket hbucket => ?_, fun other hother => ?_,
    fun bucket hbucket => ?_⟩
  · refine List.pairwise_append.mpr ⟨hincreasing, List.pairwise_singleton _ _, fun bucket hbucket other hother => ?_⟩
    rw [List.mem_singleton.mp hother]
    exact hfront bucket hbucket
  · rcases List.mem_append.mp hbucket with hbucket | hbucket
    · have := hbounds bucket hbucket
      omega
    · rw [List.mem_singleton.mp hbucket]
      omega
  · rcases List.mem_append.mp hbucket with hbucket | hbucket
    · refine range_append (hbounds bucket hbucket) (hranges bucket hbucket) fun heq => ?_
      exact lt_irrefl _ (heq.trans hkey.symm ▸ hfront bucket hbucket)
    · rw [List.mem_singleton.mp hbucket, List.take_of_length_le (by rw [List.length_drop]; omega),
        List.drop_append_of_le_length hstart, List.filter_append, hrange]
      simp [hkey]
  · rcases List.mem_append.mp hother with hother | hother
    · rcases hcovers other hother with hkey | ⟨bucket, hbucket, hkey⟩
      · exact ⟨last, hlast, hkey⟩
      · exact ⟨bucket, List.mem_append_left _ hbucket, hkey⟩
    · rw [List.mem_singleton.mp hother]
      exact ⟨last, hlast, hkey⟩
  · obtain rfl : last = bucket := by simpa using hbucket
    omega

include hsorted in
theorem Grouped.push {buckets : List BindingRange} {candidates : List ℕ} (h : Grouped sorted buckets candidates) :
    Grouped (sorted ++ [binding]) (pushBinding (buckets, candidates) binding).1
      (pushBinding (buckets, candidates) binding).2 := by
  have hlength : candidates.length = sorted.length := by rw [h.ids, List.length_map]
  unfold pushBinding
  dsimp only
  by_cases hsame : buckets.getLast?.map (·.key) = some binding.lookupKey
  · rw [if_pos hsame]
    obtain ⟨last, hlast, hkey⟩ := Option.map_eq_some_iff.mp hsame
    obtain ⟨front, rfl⟩ : ∃ front, buckets = front ++ [last] := List.getLast?_eq_some_iff.mp hlast
    have hstop : last.stop = sorted.length := h.last last hlast
    have hmem : last ∈ front ++ [last] := List.mem_append_right _ (List.mem_singleton_self _)
    obtain ⟨hpair, -, hfront⟩ := List.pairwise_append.mp h.increasing
    have hrange := h.range last hmem
    rw [List.take_of_length_le (by rw [List.length_drop]; omega)] at hrange
    rw [hlast, List.dropLast_concat, h.ids]
    refine .concat hpair (fun bucket hbucket => hfront bucket hbucket last (List.mem_singleton_self _))
      (fun bucket hbucket => h.bounds bucket (List.mem_append_left _ hbucket))
      (fun bucket hbucket => h.range bucket (List.mem_append_left _ hbucket)) hkey ?_ ?_ hrange fun old hold => ?_
    · have := h.bounds last hmem
      dsimp only
      omega
    · dsimp only
      omega
    · obtain ⟨bucket, hbucket, hbkey⟩ := h.covers old hold
      rcases List.mem_append.mp hbucket with hbucket | hbucket
      · exact .inr ⟨bucket, hbucket, hbkey⟩
      · exact .inl (List.mem_singleton.mp hbucket ▸ hbkey)
  · rw [if_neg hsame, List.getLast?_concat, List.dropLast_concat, hlength, h.ids]
    -- every bucket has a smaller key: the last one holds a binding from before
    have hall : ∀ bucket ∈ buckets, bucket.key.rank < binding.lookupKey.rank := by
      cases hlast : buckets.getLast? with
      | none =>
        rw [List.getLast?_eq_none_iff.mp hlast]
        exact nofun
      | some last =>
        obtain ⟨front, rfl⟩ : ∃ front, buckets = front ++ [last] := List.getLast?_eq_some_iff.mp hlast
        have hmem : last ∈ front ++ [last] := List.mem_append_right _ (List.mem_singleton_self _)
        have hfilter := congrArg List.length (h.range last hmem)
        have hbounds := h.bounds last hmem
        rw [List.length_take, List.length_drop] at hfilter
        obtain ⟨old, hold⟩ := List.exists_mem_of_length_pos
          (show 0 < (sorted.filter fun binding => decide (binding.lookupKey = last.key)).length by omega)
        obtain ⟨hold, hkey⟩ := List.mem_filter.mp hold
        rw [decide_eq_true_eq] at hkey
        have hlt : last.key.rank < binding.lookupKey.rank := by
          rcases definitionBefore_iff.mp (hsorted old hold) with hlt | ⟨heq, -⟩
          · exact hkey ▸ hlt
          · exact absurd (by rw [hlast, Option.map_some, ← hkey, heq]) hsame
        intro bucket hbucket
        rcases List.mem_append.mp hbucket with hbucket | hbucket
        · exact ((List.pairwise_append.mp h.increasing).2.2 bucket hbucket last (List.mem_singleton_self _)).trans hlt
        · rw [List.mem_singleton.mp hbucket]
          exact hlt
    have hnew : ∀ old ∈ sorted, old.lookupKey ≠ binding.lookupKey := by
      intro old hmem heq
      obtain ⟨bucket, hbucket, hkey⟩ := h.covers old hmem
      exact lt_irrefl _ (hkey.trans heq ▸ hall bucket hbucket)
    refine .concat h.increasing hall h.bounds h.range rfl le_rfl rfl ?_ fun old hold => .inr (h.covers old hold)
    rw [List.drop_length, List.filter_eq_nil_iff.mpr fun old hmem => by simpa using hnew old hmem]

end Push

theorem grouped_foldl {done rest : List CompiledBinding} {buckets : List BindingRange} {candidates : List ℕ}
    (h : Grouped done buckets candidates)
    (hsorted : (done ++ rest).Pairwise fun a b => definitionBefore a b = true) :
    Grouped (done ++ rest) (rest.foldl pushBinding (buckets, candidates)).1
      (rest.foldl pushBinding (buckets, candidates)).2 := by
  induction rest generalizing done buckets candidates with
  | nil =>
    rw [List.append_nil]
    exact h
  | cons binding rest ih =>
    have hbefore : ∀ old ∈ done, definitionBefore old binding = true := fun old hold =>
      (List.pairwise_append.mp hsorted).2.2 old hold binding (List.mem_cons_self ..)
    have hassoc : done ++ binding :: rest = done ++ [binding] ++ rest := by simp
    rw [hassoc] at hsorted ⊢
    exact ih (h.push hbefore) hsorted

/-! ### The last definition wins -/

/-- A query finds the specs with its trigger, input and modifiers whose policies admit it and whose system action is
available. -/
def Admits (key : BindingLookupKey) (repeated inhibited : Bool) (systemCapabilities : ℕ → Bool) (spec : BindingSpec) :
    Prop :=
  spec.trigger = key.trigger ∧ spec.input = key.input ∧ spec.modifiers = key.modifiers ∧
    (repeated = true → spec.repeat' = .enabled) ∧ (inhibited = true → spec.inhibition = .bypass) ∧
    (BindingAvailability.fromAction spec.action).isAvailable systemCapabilities = true

/-- The greatest index of a spec with the property, if there is one, together with the match of that spec. -/
def LastOf (specs : List BindingSpec) (admits : BindingSpec → Prop) (repeated : Bool) :
    Option CompiledBindingMatch → Prop
  | none => ∀ spec ∈ specs, ¬ admits spec
  | some matched => ∃ spec, specs[matched.binding]? = some spec ∧
    matched = matchOf repeated (compiled matched.binding spec) ∧
    IsGreatest {index | ∃ spec, specs[index]? = some spec ∧ admits spec} matched.binding

variable {specs : List BindingSpec} {table : CompiledBindingTable}

theorem compile_eq_ok (h : compile specs = .ok table) : compileSpecs 0 specs = .ok table.bindings ∧
    Grouped (table.bindings.insertionSort (definitionBefore · ·)) table.buckets table.candidates := by
  unfold compile at h
  cases hspecs : compileSpecs 0 specs with
  | error e =>
    rw [hspecs] at h
    exact nomatch h
  | ok bindings =>
    rw [hspecs] at h
    simp only [bind, Except.bind] at h
    split_ifs at h with hmax
    simp only [pure, Except.pure, Except.ok.injEq] at h
    rw [← h]
    refine ⟨rfl, ?_⟩
    have hgrouped := grouped_foldl grouped_nil (pairwise_sorted bindings)
    rwa [List.nil_append] at hgrouped

theorem mem_bindings (h : compile specs = .ok table) {binding : CompiledBinding} : binding ∈ table.bindings ↔
    ∃ spec, specs[binding.id]? = some spec ∧ binding = compiled binding.id spec := by
  have hget := getElem?_compileSpecs (compile_eq_ok h).1
  simp only [Nat.zero_add] at hget
  constructor
  · intro hmem
    obtain ⟨i, hi⟩ := List.mem_iff_getElem?.mp hmem
    rw [hget] at hi
    obtain ⟨spec, hspec, rfl⟩ := Option.map_eq_some_iff.mp hi
    exact ⟨spec, hspec, rfl⟩
  · rintro ⟨spec, hspec, heq⟩
    refine List.mem_of_getElem? (i := binding.id) ?_
    rw [hget, hspec, Option.map_some, ← heq]

theorem binding_eq (h : compile specs = .ok table) {index : ℕ} {spec : BindingSpec}
    (hspec : specs[index]? = some spec) : table.binding index = some (compiled index spec) := by
  have hget := getElem?_compileSpecs (compile_eq_ok h).1 index
  rw [Nat.zero_add] at hget
  unfold binding
  rw [hget, hspec, Option.map_some, Option.filter_some]
  exact if_pos (decide_eq_true rfl)

theorem admits_iff {key : BindingLookupKey} {repeated inhibited : Bool} {systemCapabilities : ℕ → Bool} {index : ℕ}
    {spec : BindingSpec} : Admits key repeated inhibited systemCapabilities spec ↔
      (compiled index spec).lookupKey = key ∧
        passes repeated inhibited systemCapabilities (compiled index spec) = true := by
  obtain ⟨trigger, input, modifiers⟩ := key
  unfold Admits passes CompiledBinding.lookupKey compiled
  cases repeated <;> cases inhibited <;> simp [and_assoc]

theorem increasing_buckets {buckets : List BindingRange} (h : buckets.Pairwise fun a b => a.key.rank < b.key.rank)
    (key : BindingLookupKey) : Increasing (fun bucket : BindingRange => bucket.key.cmp key) buckets := by
  refine h.imp fun {a b} hab hnot => cmp_gt_of ?_
  have hle : ¬ a.key.rank < key.rank := fun hlt => hnot (cmp_lt_iff.mpr hlt)
  exact (not_lt.mp hle).trans_lt hab

theorem lastOf_findSome? (h : compile specs = .ok table) (key : BindingLookupKey) (repeated inhibited : Bool)
    (systemCapabilities : ℕ → Bool) : LastOf specs (Admits key repeated inhibited systemCapabilities) repeated
      ((((table.bindings.insertionSort (definitionBefore · ·)).filter fun binding =>
        decide (binding.lookupKey = key)).map (·.id)).findSome? fun id => do
          let binding ← table.binding id
          if passes repeated inhibited systemCapabilities binding then some (matchOf repeated binding) else none) := by
  rw [List.findSome?_map]
  have hmem : ∀ binding, binding ∈ (table.bindings.insertionSort (definitionBefore · ·)).filter
      (fun binding => decide (binding.lookupKey = key)) ↔ binding ∈ table.bindings ∧ binding.lookupKey = key := by
    intro binding
    rw [List.mem_filter, List.mem_insertionSort, decide_eq_true_eq]
  have hadmitted : ∀ index spec, specs[index]? = some spec → Admits key repeated inhibited systemCapabilities spec →
      compiled index spec ∈
        (table.bindings.insertionSort (definitionBefore · ·)).filter
          (fun binding => decide (binding.lookupKey = key)) := by
    intro index spec hspec hadmits
    exact (hmem _).mpr ⟨(mem_bindings h).mpr ⟨spec, hspec, rfl⟩, (admits_iff.mp hadmits).1⟩
  have hfun : ∀ index spec, specs[index]? = some spec → Admits key repeated inhibited systemCapabilities spec →
      (table.binding index).bind (fun binding =>
        if passes repeated inhibited systemCapabilities binding then some (matchOf repeated binding) else none) ≠
          none := by
    intro index spec hspec hadmits
    rw [binding_eq h hspec, Option.bind_some, if_pos (admits_iff.mp hadmits).2]
    exact nofun
  cases hfind : List.findSome? _ _ with
  | none =>
    intro spec hspec hadmits
    obtain ⟨index, hindex⟩ := List.mem_iff_getElem?.mp hspec
    exact hfun index spec hindex hadmits (List.findSome?_eq_none_iff.mp hfind _ (hadmitted index spec hindex hadmits))
  | some matched =>
    obtain ⟨before, binding, after, hsplit, hmatch, hbefore⟩ := List.findSome?_eq_some_iff.mp hfind
    have hin := (hmem binding).mp (by rw [hsplit]; simp)
    obtain ⟨spec, hspec, hbinding⟩ := (mem_bindings h).mp hin.1
    have hpasses : passes repeated inhibited systemCapabilities binding = true ∧ matchOf repeated binding =
      matched := by
      have hvalue : (table.binding binding.id).bind (fun binding =>
          if passes repeated inhibited systemCapabilities binding then some (matchOf repeated binding) else none) =
          some matched := hmatch
      rw [binding_eq h hspec, ← hbinding, Option.bind_some] at hvalue
      split_ifs at hvalue with hpasses
      exact ⟨hpasses, Option.some.inj hvalue⟩
    have hid : matched.binding = binding.id := by rw [← hpasses.2]; rfl
    refine ⟨spec, by rw [hid]; exact hspec, by rw [hid, ← hbinding, hpasses.2], ?_, ?_⟩
    · rw [hid]
      refine ⟨spec, hspec, admits_iff.mpr ⟨by rw [← hbinding]; exact hin.2, by rw [← hbinding]; exact hpasses.1⟩⟩
    · rintro index ⟨spec', hspec', hadmits⟩
      have hmem' := hadmitted index spec' hspec' hadmits
      rw [hsplit, List.mem_append, List.mem_cons] at hmem'
      rcases hmem' with hmem' | heq | hmem'
      · exact absurd (hbefore _ hmem') (hfun index spec' hspec' hadmits)
      · rw [hid, ← heq]
        exact Nat.le_refl _
      · -- what stands after it was defined before it
        have hpairwise := (pairwise_sorted table.bindings).filter
          fun binding => decide (binding.lookupKey = key)
        rw [hsplit] at hpairwise
        have hlater := List.rel_of_pairwise_cons (List.pairwise_append.mp hpairwise).2.1 hmem'
        have hkey : binding.lookupKey = (compiled index spec').lookupKey :=
          hin.2.trans (admits_iff.mp hadmits).1.symm
        have horder := (definitionBefore_iff.mp hlater).resolve_left
          (by rw [hkey]; exact lt_irrefl _)
        rw [hid]
        have hdefinition : binding.definitionOrder = binding.id := by rw [hbinding]; rfl
        rw [← hdefinition]
        exact horder.2

theorem lastOf_matchBinding (h : compile specs = .ok table) (modifiers : ModifierMask) (trigger : BindingTrigger)
    (input : BindingInput) (repeated inhibited : Bool) (systemCapabilities : ℕ → Bool) :
    LastOf specs (Admits ⟨trigger, input, modifiers⟩ repeated inhibited systemCapabilities) repeated
      (table.matchBinding modifiers trigger input repeated inhibited systemCapabilities) := by
  obtain ⟨-, hgrouped⟩ := compile_eq_ok h
  have hincreasing := increasing_buckets hgrouped.increasing ⟨trigger, input, modifiers⟩
  unfold matchBinding
  cases hsearch : binarySearchBy (fun bucket : BindingRange => bucket.key.cmp ⟨trigger, input, modifiers⟩)
      table.buckets with
  | none =>
    intro spec hspec hadmits
    obtain ⟨index, hindex⟩ := List.mem_iff_getElem?.mp hspec
    have hmem : compiled index spec ∈
        table.bindings.insertionSort (definitionBefore · ·) :=
      (List.mem_insertionSort _).mpr ((mem_bindings h).mpr ⟨spec, hindex, rfl⟩)
    obtain ⟨bucket, hbucket, hkey⟩ := hgrouped.covers _ hmem
    refine (binarySearchBy_eq_none hincreasing).mp hsearch bucket hbucket (cmp_eq_iff.mpr ?_)
    exact hkey.trans (admits_iff.mp hadmits).1
  | some index =>
    obtain ⟨bucket, hbucket, hkey⟩ := Option.map_eq_some_iff.mp ((binarySearchBy_eq_some hincreasing).mp hsearch)
    have hmem := List.mem_of_getElem? hbucket
    have hkey := cmp_eq_iff.mp hkey
    obtain ⟨hlt, hstop⟩ := hgrouped.bounds bucket hmem
    have hcandidates := hgrouped.ids
    have hlength : table.candidates.length =
        (table.bindings.insertionSort (definitionBefore · ·)).length := by
      rw [hcandidates, List.length_map]
    have hlast := lastOf_findSome? h ⟨trigger, input, modifiers⟩ repeated inhibited systemCapabilities
    rw [← hkey, ← hgrouped.range bucket hmem, List.map_take, List.map_drop, ← hcandidates, hkey] at hlast
    simp only [bind, Option.bind_some, hbucket]
    rw [if_pos ⟨hlt.le, by omega⟩]
    exact hlast

/-! ### Keys of the keyboard -/

def KeyAdmits (physicalModifiers : ModifierMask) (trigger : BindingTrigger) (code : ℕ)
    (symbolic : Option KeyboardSymbolicSnapshot) (repeated inhibited : Bool) (systemCapabilities : ℕ → Bool)
    (spec : BindingSpec) : Prop :=
  Admits ⟨trigger, .physicalKey code, physicalModifiers⟩ repeated inhibited systemCapabilities spec ∨
    ∃ identity, (symbolic.bind (·.raw) = some identity ∨ symbolic.bind (·.translated) = some identity) ∧
      Admits ⟨trigger, .keySym identity.keysym, identity.modifiers⟩ repeated inhibited systemCapabilities spec

variable {repeated : Bool} {p q : BindingSpec → Prop}

theorem LastOf.congr {result : Option CompiledBindingMatch}
    (h : LastOf specs p repeated result) (hpq : ∀ spec, q spec ↔ p spec) : LastOf specs q repeated result := by
  obtain rfl : q = p := funext fun spec => propext (hpq spec)
  exact h

theorem LastOf.or_of_le {won : CompiledBindingMatch} (h : LastOf specs p repeated (some won))
    (hle : ∀ index spec, specs[index]? = some spec → q spec → index ≤ won.binding) :
    LastOf specs (fun spec => p spec ∨ q spec) repeated (some won) := by
  obtain ⟨spec, hspec, heq, ⟨spec', hspec', hp⟩, hmax⟩ := h
  refine ⟨spec, hspec, heq, ⟨spec', hspec', .inl hp⟩, ?_⟩
  rintro index ⟨found, hfound, hp | hq⟩
  · exact hmax ⟨found, hfound, hp⟩
  · exact hle index found hfound hq

theorem LastOf.laterOf (hcompile : compile specs = .ok table)
    {winner : Option CompiledBindingMatch} {candidate : CompiledBindingMatch} (hwinner : LastOf specs p repeated winner)
    (hcandidate : LastOf specs q repeated (some candidate)) :
    LastOf specs (fun spec => p spec ∨ q spec) repeated (table.laterOf winner candidate) := by
  obtain ⟨spec, hspec, -, -, hmax⟩ := id hcandidate
  unfold CompiledBindingTable.laterOf
  rw [binding_eq hcompile hspec]
  cases winner with
  | none =>
    refine (hcandidate.or_of_le fun index found hfound hp => ?_).congr fun _ => or_comm
    exact absurd hp (hwinner found (List.mem_of_getElem? hfound))
  | some won =>
    obtain ⟨wonSpec, hwonSpec, -, -, hwonMax⟩ := id hwinner
    simp only [Option.isNone_some, Bool.false_or, Option.bind_some, binding_eq hcompile hwonSpec, Option.elim_some,
      decide_eq_true_eq]
    change LastOf specs _ repeated (if won.binding < candidate.binding then some candidate else some won)
    split_ifs with hlt
    · refine (hcandidate.or_of_le fun index found hfound hp => ?_).congr fun _ => or_comm
      exact (hwonMax ⟨found, hfound, hp⟩).trans hlt.le
    · exact hwinner.or_of_le fun index found hfound hq => (hmax ⟨found, hfound, hq⟩).trans (not_lt.mp hlt)

theorem LastOf.merge (hcompile : compile specs = .ok table)
    {winner candidate : Option CompiledBindingMatch} (hwinner : LastOf specs p repeated winner)
    (hcandidate : LastOf specs q repeated candidate) :
    LastOf specs (fun spec => p spec ∨ q spec) repeated (candidate.toList.foldl table.laterOf winner) := by
  cases candidate with
  | some candidate => exact hwinner.laterOf hcompile hcandidate
  | none =>
    cases winner with
    | none => exact fun spec hspec hboth => hboth.elim (hwinner spec hspec) (hcandidate spec hspec)
    | some won =>
      exact hwinner.or_of_le fun index found hfound hq =>
        absurd hq (hcandidate found (List.mem_of_getElem? hfound))

theorem lastOf_bySymbol (hcompile : compile specs = .ok table) (identity : Option KeyboardSymbolicIdentity)
    (trigger : BindingTrigger) (repeated inhibited : Bool) (systemCapabilities : ℕ → Bool) :
    LastOf specs (fun spec => ∃ found, identity = some found ∧
        Admits ⟨trigger, .keySym found.keysym, found.modifiers⟩ repeated inhibited systemCapabilities spec) repeated
      (identity.bind fun identity => table.matchBinding identity.modifiers trigger (.keySym identity.keysym) repeated
        inhibited systemCapabilities) := by
  cases identity with
  | none => exact fun spec _ hfound => nomatch hfound.choose_spec.1
  | some found =>
    refine (lastOf_matchBinding hcompile found.modifiers trigger (.keySym found.keysym) repeated inhibited
      systemCapabilities).congr fun spec => ⟨?_, fun hadmits => ⟨found, rfl, hadmits⟩⟩
    rintro ⟨other, heq, hadmits⟩
    exact Option.some.inj heq ▸ hadmits

theorem lastOf_matchKeyboardBinding (hcompile : compile specs = .ok table) (systemCapabilities : ℕ → Bool)
    (physicalModifiers : ModifierMask) (trigger : BindingTrigger) (code : ℕ)
    (symbolic : Option KeyboardSymbolicSnapshot) (repeated inhibited : Bool) :
    LastOf specs (KeyAdmits physicalModifiers trigger code symbolic repeated inhibited systemCapabilities) repeated
      (table.matchKeyboardBinding systemCapabilities physicalModifiers trigger code symbolic repeated inhibited) := by
  have hnothing : LastOf specs (fun _ => False) repeated none := fun _ _ => id
  have hphysical := hnothing.merge hcompile
    (lastOf_matchBinding hcompile physicalModifiers trigger (.physicalKey code) repeated inhibited systemCapabilities)
  have hraw := hphysical.merge hcompile
    (lastOf_bySymbol hcompile (symbolic.bind (·.raw)) trigger repeated inhibited systemCapabilities)
  have hall := hraw.merge hcompile
    (lastOf_bySymbol hcompile (symbolic.bind (·.translated)) trigger repeated inhibited systemCapabilities)
  have hfold : ∀ a b c : Option CompiledBindingMatch, [a, b, c].reduceOption.foldl table.laterOf none =
      c.toList.foldl table.laterOf (b.toList.foldl table.laterOf (a.toList.foldl table.laterOf none)) := by
    intro a b c
    cases a <;> cases b <;> cases c <;> rfl
  unfold matchKeyboardBinding
  dsimp only
  rw [hfold]
  refine hall.congr fun spec => ?_
  unfold KeyAdmits
  constructor
  · rintro (hphysical | ⟨identity, hraw | htranslated, hadmits⟩)
    · exact .inl (.inl (.inr hphysical))
    · exact .inl (.inr ⟨identity, hraw, hadmits⟩)
    · exact .inr ⟨identity, htranslated, hadmits⟩
  · rintro (((hfalse | hphysical) | ⟨identity, hraw, hadmits⟩) | ⟨identity, htranslated, hadmits⟩)
    · exact hfalse.elim
    · exact .inl hphysical
    · exact .inr ⟨identity, .inl hraw, hadmits⟩
    · exact .inr ⟨identity, .inr htranslated, hadmits⟩

/-- Every lookup gives the match of the spec with the greatest index among those that admit the query, system action
included, and nothing when there is none. -/
theorem last_definition_wins (hcompile : compile specs = .ok table) (systemCapabilities : ℕ → Bool)
    (modifiers : ModifierMask) (trigger : BindingTrigger) (repeated inhibited : Bool) :
    (∀ input, LastOf specs (Admits ⟨trigger, input, modifiers⟩ repeated inhibited systemCapabilities) repeated
      (table.matchBinding modifiers trigger input repeated inhibited systemCapabilities)) ∧
    ∀ code symbolic, LastOf specs (KeyAdmits modifiers trigger code symbolic repeated inhibited systemCapabilities)
      repeated (table.matchKeyboardBinding systemCapabilities modifiers trigger code symbolic repeated inhibited) :=
  ⟨fun input => lastOf_matchBinding hcompile modifiers trigger input repeated inhibited systemCapabilities,
    fun code symbolic => lastOf_matchKeyboardBinding hcompile systemCapabilities modifiers trigger code symbolic
      repeated inhibited⟩

def noModifiers : ModifierMask := ⟨false, false, false, false⟩

def threeForQ : List BindingSpec :=
  [⟨noModifiers, .press, .physicalKey 16, .other 0, .disabled, .respect⟩,
    ⟨noModifiers, .press, .physicalKey 16, .other 1, .disabled, .respect⟩,
    ⟨noModifiers, .press, .keySym 113, .other 2, .disabled, .respect⟩]

def threeForQTable : CompiledBindingTable :=
  match compile threeForQ with
  | .ok table => table
  | .error _ => ⟨[], [], []⟩

theorem last_definition_wins_threeForQ : compile threeForQ = .ok threeForQTable ∧
    (threeForQTable.matchKeyboardBinding (fun _ => false) noModifiers .press 16 (some ⟨some ⟨113, noModifiers⟩, none⟩)
      false false).map (·.binding) = some 2 ∧
    IsGreatest {index | ∃ spec, threeForQ[index]? = some spec ∧
      Admits ⟨.press, .physicalKey 16, noModifiers⟩ false false (fun _ => false) spec} 1 := by
  have hcompile : compile threeForQ = .ok threeForQTable := rfl
  have hlast := (last_definition_wins hcompile (fun _ => false) noModifiers .press false false).1 (.physicalKey 16)
  have hmatch : threeForQTable.matchBinding noModifiers .press (.physicalKey 16) false false (fun _ => false) =
      some ⟨1, 1, .pressed, .disabled, .respect⟩ := by decide +kernel
  rw [hmatch] at hlast
  obtain ⟨spec, -, -, hgreatest⟩ := hlast
  exact ⟨hcompile, by decide +kernel, hgreatest⟩

def suspendOfQ : BindingSpec := ⟨noModifiers, .press, .physicalKey 16, .systemAction 0, .disabled, .respect⟩

theorem unavailable_action : ∃ table, compile [suspendOfQ] = .ok table ∧
    table.matchBinding noModifiers .press (.physicalKey 16) false false (fun _ => false) = none ∧
    suspendOfQ.trigger = .press ∧ suspendOfQ.input = .physicalKey 16 ∧ suspendOfQ.modifiers = noModifiers :=
  ⟨_, rfl, by decide +kernel, rfl, rfl, rfl⟩

end CompiledBindingTable
end Typhon.Input
