import Mathlib.Data.Finset.Image
import Mathlib.Data.Fintype.Card
import Typhon.Foundation.Machine
import Typhon.Input.Keyboard

/-! The keyboard ledger against the set of keys that the devices hold. -/

namespace Typhon.Input
open Foundation

namespace KeyboardSourceLedger
variable {l : KeyboardSourceLedger} {device code : ℕ}

/-! ### Operations -/

inductive Operation where
  | press (device code : ℕ)
  | release (device code : ℕ)
  | removeSource (device : ℕ)
  | clear
deriving DecidableEq

def clear (_ : KeyboardSourceLedger) : KeyboardSourceLedger := empty

def apply (l : KeyboardSourceLedger) : Operation → KeyboardSourceLedger
  | .press device code => (l.press device code).2
  | .release device code => (l.release device code).2
  | .removeSource device => (l.removeSource device).2
  | .clear => l.clear

def Operation.hold (held : Finset (ℕ × ℕ)) : Operation → Finset (ℕ × ℕ)
  | .press device code => if code < linuxKeyCodeCount then insert (device, code) held else held
  | .release device code => held.erase (device, code)
  | .removeSource device => held.filter fun pair => pair.1 ≠ device
  | .clear => ∅

def unionKeys (held : Finset (ℕ × ℕ)) : Finset ℕ := held.image Prod.snd

def Operation.device? : Operation → Option ℕ
  | .press device _ | .release device _ | .removeSource device => some device
  | .clear => none

/-! ### Exactness -/

def Holds (l : KeyboardSourceLedger) (device key : ℕ) : Prop :=
  ∃ source ∈ l.sources, source.device = device ∧ source.isPressed key = true

structure Exact (devices : Finset ℕ) (held : Finset (ℕ × ℕ)) (l : KeyboardSourceLedger) : Prop where
  distinct : (l.sources.map (·.device)).Nodup
  counted : ∀ k < linuxKeyCodeCount, l.aggregateCounts k = l.sources.countP (·.isPressed k)
  among : ∀ source ∈ l.sources, source.device ∈ devices
  holds : ∀ d k, (d, k) ∈ held ↔ k < linuxKeyCodeCount ∧ l.Holds d k

variable {devices : Finset ℕ} {held : Finset (ℕ × ℕ)}

theorem exact_empty : Exact devices ∅ empty :=
  ⟨List.nodup_nil, fun _ _ => rfl, nofun, fun d k => by simp [Holds, empty]⟩

theorem Exact.sound (h : Exact devices held l) : Sound (fun _ _ => true) l :=
  ⟨h.distinct, h.counted, fun _ _ _ _ _ => rfl⟩

theorem mem_unionKeys {k : ℕ} : k ∈ unionKeys held ↔ ∃ d, (d, k) ∈ held := by
  simp [unionKeys]

theorem Exact.count_eq_zero_iff (h : Exact devices held l) (hcode : code < linuxKeyCodeCount) :
    l.aggregateCounts code = 0 ↔ code ∉ unionKeys held := by
  rw [h.counted code hcode, List.countP_eq_zero, mem_unionKeys]
  constructor
  · rintro hnone ⟨d, hd⟩
    obtain ⟨-, source, hsource, -, hpressed⟩ := (h.holds d code).mp hd
    exact hnone source hsource hpressed
  · intro hnone source hsource hpressed
    exact hnone ⟨source.device, (h.holds _ _).mpr ⟨hcode, source, hsource, rfl, hpressed⟩⟩

theorem Exact.count_eq_card (h : Exact devices held l) (hcode : code < linuxKeyCodeCount) :
    l.aggregateCounts code = (held.filter fun pair => pair.2 = code).card := by
  have hdistinct : ((l.sources.filter (·.isPressed code)).map (·.device)).Nodup :=
    h.distinct.sublist (List.filter_sublist.map _)
  rw [h.counted code hcode, List.countP_eq_length_filter, ← List.length_map (·.device),
    ← List.toFinset_card_of_nodup hdistinct]
  refine (Finset.card_bij (fun d _ => (d, code)) (fun d hd => ?_) (fun d _ d' _ heq => (Prod.mk.inj heq).1) ?_)
  · obtain ⟨source, hsource, rfl⟩ := List.mem_map.mp (List.mem_toFinset.mp hd)
    obtain ⟨hmem, hpressed⟩ := List.mem_filter.mp hsource
    exact Finset.mem_filter.mpr ⟨(h.holds _ _).mpr ⟨hcode, source, hmem, rfl, hpressed⟩, rfl⟩
  · rintro ⟨d, k⟩ hpair
    obtain ⟨hheld, rfl⟩ := Finset.mem_filter.mp hpair
    obtain ⟨-, source, hmem, rfl, hpressed⟩ := (h.holds d k).mp hheld
    exact ⟨source.device, List.mem_toFinset.mpr (List.mem_map_of_mem (List.mem_filter.mpr ⟨hmem, hpressed⟩)), rfl⟩

variable {source : KeyboardSourceState}

theorem holds_modify {before after : List KeyboardSourceState} {counts : ℕ → ℕ}
    (hdistinct : (l.sources.map (·.device)).Nodup) (hl : l.sources = before ++ source :: after)
    (hcode : code < linuxKeyCodeCount) (pressed : Bool) (d k : ℕ) : Holds
      ⟨before ++ source.setPressed code pressed :: after, counts⟩ d k ↔
      if d = source.device ∧ k = code then pressed = true else l.Holds d k := by
  rw [hl, List.map_append, List.map_cons, List.nodup_middle, ← List.map_append, List.nodup_cons] at hdistinct
  have hother : ∀ other ∈ before ++ after, other.device ≠ source.device :=
    fun other hmem heq => hdistinct.1 (heq ▸ List.mem_map_of_mem hmem)
  have hrest : ∀ (middle : KeyboardSourceState) d k, (∃ other ∈ before ++ middle :: after, other.device = d ∧
      other.isPressed k = true) ↔ (middle.device = d ∧ middle.isPressed k = true) ∨
        ∃ other ∈ before ++ after, other.device = d ∧ other.isPressed k = true := by
    intro middle d k
    simp only [List.mem_append, List.mem_cons]
    constructor
    · rintro ⟨other, hmem | rfl | hmem, hother⟩
      exacts [.inr ⟨other, .inl hmem, hother⟩, .inl hother, .inr ⟨other, .inr hmem, hother⟩]
    · rintro (hmiddle | ⟨other, hmem, hother⟩)
      exacts [⟨middle, .inr (.inl rfl), hmiddle⟩, ⟨other, hmem.imp_right .inr, hother⟩]
  unfold Holds
  rw [hl]
  dsimp only
  rw [hrest, hrest, source.isPressed_setPressed hcode]
  change source.device = d ∧ _ ∨ _ ↔ _
  by_cases hcase : d = source.device ∧ k = code
  · obtain ⟨rfl, rfl⟩ := hcase
    rw [if_pos rfl, if_pos ⟨rfl, rfl⟩]
    constructor
    · rintro (⟨-, hpressed⟩ | ⟨other, hmem, hdevice, -⟩)
      · exact hpressed
      · exact absurd hdevice (hother other hmem)
    · exact fun hpressed => .inl ⟨rfl, hpressed⟩
  · rw [if_neg hcase]
    refine or_congr_left (and_congr_right fun hdevice => ?_)
    rw [if_neg fun hk => hcase ⟨hdevice.symm, hk⟩]

theorem Exact.count_lt {before after : List KeyboardSourceState}
    (h : Exact devices held l) (hdevices : devices.card < 4294967296) (hl : l.sources = before ++ source :: after)
    (hcode : code < linuxKeyCodeCount) (hpressed : source.isPressed code = false) :
    ¬ U32.top < l.aggregateCounts code + 1 := by
  have hlength : l.sources.length ≤ devices.card := by
    rw [← List.length_map (·.device), ← List.toFinset_card_of_nodup h.distinct]
    refine Finset.card_le_card fun d hd => ?_
    obtain ⟨other, hmem, rfl⟩ := List.mem_map.mp (List.mem_toFinset.mp hd)
    exact h.among other hmem
  have hcount := h.counted code hcode
  rw [hl, List.countP_append, List.countP_cons, hpressed] at hcount
  have hbefore : before.countP (·.isPressed code) ≤ before.length := List.countP_le_length
  have hafter : after.countP (·.isPressed code) ≤ after.length := List.countP_le_length
  rw [hl, List.length_append, List.length_cons] at hlength
  simp only [Bool.false_eq_true, if_false] at hcount
  unfold U32.top
  omega

theorem Exact.among_middle {before after : List KeyboardSourceState} (h : Exact devices held l)
    (hl : l.sources = before ++ source :: after) (pressed : Bool) :
    ∀ other ∈ before ++ source.setPressed code pressed :: after, other.device ∈ devices := by
  intro other hother
  rcases List.mem_append.mp hother with hother | hother
  · exact h.among other (by rw [hl]; exact List.mem_append_left _ hother)
  rcases List.mem_cons.mp hother with rfl | hother
  · exact h.among source (by simp [hl])
  · exact h.among other (by simp [hl, hother])

theorem pressFromSource_exact (before : List KeyboardSourceState) {after : List KeyboardSourceState}
    (h : Exact devices held l) (hdevices : devices.card < 4294967296)
    (hl : l.sources = before ++ source :: after) (hcode : code < linuxKeyCodeCount) :
    Exact devices (insert (source.device, code) held) (l.pressFromSource before.length code).2 ∧
      ((l.pressFromSource before.length code).1 = .pressed ↔ code ∉ unionKeys held) := by
  have hsource : l.sources[before.length]? = some source := by rw [hl]; simp
  have hmem : source ∈ l.sources := by rw [hl]; simp
  rw [pressFromSource, hsource]
  by_cases hpressed : source.isPressed code = true
  · have hheld : (source.device, code) ∈ held := (h.holds _ _).mpr ⟨hcode, source, hmem, rfl, hpressed⟩
    rw [if_pos (by simpa using hpressed), Finset.insert_eq_of_mem hheld]
    refine ⟨h, fun heq => (by cases heq), fun hnot => absurd (mem_unionKeys.mpr ⟨_, hheld⟩) hnot⟩
  · rw [Bool.not_eq_true] at hpressed
    have hroom := h.count_lt hdevices hl hcode hpressed
    have hsound := h.sound.modify true hl rfl hcode hpressed
    rw [if_neg (by simpa using hpressed), if_neg hroom, hl, modify_middle]
    rw [if_pos rfl] at hsound
    refine ⟨⟨hsound.distinct, hsound.counted, h.among_middle hl true, fun d k => ?_⟩, ?_⟩
    · rw [holds_modify h.distinct hl hcode, Finset.mem_insert, Prod.mk.injEq, h.holds d k]
      split_ifs with hcase
      · exact ⟨fun _ => ⟨hcase.2 ▸ hcode, rfl⟩, fun _ => .inl hcase⟩
      · exact or_iff_right hcase
    · rw [← h.count_eq_zero_iff hcode]
      split_ifs with hzero <;> simp [hzero]

theorem press_exact (h : Exact devices held l) (hdevices : devices.card < 4294967296) (hdevice : device ∈ devices) :
    Exact devices (Operation.hold held (.press device code)) (l.press device code).2 ∧
      ((l.press device code).1 = .pressed ↔
        code ∉ unionKeys held ∧ code ∈ unionKeys (Operation.hold held (.press device code))) := by
  have hgains : code < linuxKeyCodeCount → code ∈ unionKeys (Operation.hold held (.press device code)) := fun hcode =>
    mem_unionKeys.mpr ⟨device, by rw [Operation.hold, if_pos hcode]; exact Finset.mem_insert_self ..⟩
  rw [press, keyIndex]
  split_ifs with hcode
  · rw [and_iff_left (hgains hcode), Operation.hold, if_pos hcode]
    dsimp only
    cases hfind : l.findSource device with
    | none =>
      have hnew := findSource_eq_none hfind
      have hpush := h.sound.push hnew
      have hexact : Exact devices held ⟨l.sources ++ [.new device], l.aggregateCounts⟩ := by
        refine ⟨hpush.distinct, hpush.counted, fun source hsource => ?_, fun d k => ?_⟩
        · rcases List.mem_append.mp hsource with hsource | hsource
          · exact h.among source hsource
          · rw [List.mem_singleton.mp hsource]
            exact hdevice
        · rw [h.holds d k]
          simp [Holds, or_and_right, exists_or]
      have hspec := pressFromSource_exact l.sources hexact hdevices rfl hcode
      rw [show l.sources.length = (l.sources ++ [KeyboardSourceState.new device]).length - 1 by simp] at hspec
      exact hspec
    | some i =>
      obtain ⟨before, source, after, hl, rfl, rfl⟩ := findSource_eq_some hfind
      exact pressFromSource_exact before h hdevices hl hcode
  · rw [Operation.hold, if_neg hcode]
    exact ⟨h, fun heq => (by cases heq), fun hboth => absurd hboth.2 hboth.1⟩

theorem release_exact (h : Exact devices held l) :
    Exact devices (Operation.hold held (.release device code)) (l.release device code).2 ∧
      ((l.release device code).1 = .released ↔
        code ∈ unionKeys held ∧ code ∉ unionKeys (Operation.hold held (.release device code))) := by
  -- nothing changes when the device does not hold the key
  have hidle : (device, code) ∉ held → Exact devices (held.erase (device, code)) l ∧
      (KeyboardAggregateTransition.none = .released ↔
        code ∈ unionKeys held ∧ code ∉ unionKeys (held.erase (device, code))) := by
    intro hnot
    rw [Finset.erase_eq_of_notMem hnot]
    exact ⟨h, fun heq => (by cases heq), fun hboth => absurd hboth.1 hboth.2⟩
  change Exact devices (held.erase (device, code)) _ ∧ (_ ↔ _ ∧ code ∉ unionKeys (held.erase (device, code)))
  rw [release, keyIndex]
  split_ifs with hcode
  · dsimp only
    cases hfind : l.findSource device with
    | none =>
      refine hidle fun hheld => ?_
      obtain ⟨-, source, hsource, hdevice, -⟩ := (h.holds _ _).mp hheld
      exact findSource_eq_none hfind source hsource hdevice
    | some i =>
      obtain ⟨before, source, after, hl, rfl, rfl⟩ := findSource_eq_some hfind
      have hsource : l.sources[before.length]? = some source := by rw [hl]; simp
      have hmem : source ∈ l.sources := by rw [hl]; simp
      dsimp only
      rw [hsource]
      by_cases hpressed : source.isPressed code = true
      · have hheld : (source.device, code) ∈ held := (h.holds _ _).mpr ⟨hcode, source, hmem, rfl, hpressed⟩
        have hunion : code ∈ unionKeys held := mem_unionKeys.mpr ⟨_, hheld⟩
        have hpos : l.aggregateCounts code ≠ 0 := fun hzero => (h.count_eq_zero_iff hcode).mp hzero hunion
        have hsound := h.sound.modify false hl rfl hcode hpressed
        rw [if_neg Bool.false_ne_true] at hsound
        rw [if_neg (by simpa using hpressed), if_neg hpos, hl, modify_middle]
        have hexact : Exact devices (held.erase (source.device, code))
            ⟨before ++ source.setPressed code false :: after,
              Function.update l.aggregateCounts code (l.aggregateCounts code - 1)⟩ := by
          refine ⟨hsound.distinct, hsound.counted, h.among_middle hl false, fun d k => ?_⟩
          · rw [holds_modify h.distinct hl hcode, Finset.mem_erase, Ne, Prod.mk.injEq, h.holds d k]
            split_ifs with hcase
            · simp [hcase]
            · exact and_iff_right hcase
        refine ⟨hexact, ?_⟩
        rw [and_iff_right hunion, ← hexact.count_eq_zero_iff hcode]
        dsimp only
        rw [Function.update_self]
        split_ifs with hzero <;> simp [hzero]
      · rw [if_pos (by simpa using hpressed)]
        refine hidle fun hheld => hpressed ?_
        obtain ⟨-, other, hother, hdevice, hother'⟩ := (h.holds _ _).mp hheld
        have hsame := List.inj_on_of_nodup_map h.distinct hother hmem hdevice
        exact hsame ▸ hother'
  · obtain ⟨hexact, hsame⟩ := hidle fun hheld => hcode ((h.holds _ _).mp hheld).1
    exact ⟨hexact, fun heq => (by cases heq), fun hboth => (by cases hsame.mpr hboth)⟩

structure Releases (held : Finset (ℕ × ℕ)) (device : ℕ) (released : List ℕ) : Prop where
  mem : ∀ k, k ∈ released ↔ (device, k) ∈ held ∧ ∀ d, d ≠ device → (d, k) ∉ held
  nodup : released.Nodup
  modifiersLast : released.Pairwise fun k k' => isModifierKey k = true → isModifierKey k' = true

theorem releases_nil (hnot : ∀ k, (device, k) ∉ held) : Releases held device [] :=
  ⟨fun k => ⟨nofun, fun hk => absurd hk.1 (hnot k)⟩, List.nodup_nil, List.Pairwise.nil⟩

theorem releaseOrder_total (a b : ℕ) : releaseOrder a b = true ∨ releaseOrder b a = true := by
  unfold releaseOrder
  cases isModifierKey a <;> cases isModifierKey b <;> simp [Nat.le_total]

theorem releaseOrder_trans {a b c : ℕ} (hab : releaseOrder a b = true) (hbc : releaseOrder b c = true) :
    releaseOrder a c = true := by
  unfold releaseOrder at *
  cases ha : isModifierKey a <;> cases hb : isModifierKey b <;> cases hc : isModifierKey c <;>
    simp [ha, hb, hc] at hab hbc ⊢ <;> omega

theorem removeSource_exact (h : Exact devices held l) :
    Exact devices (Operation.hold held (.removeSource device)) (l.removeSource device).2 ∧
      Releases held device (l.removeSource device).1 := by
  change Exact devices (held.filter fun pair => pair.1 ≠ device) _ ∧ _
  cases hfind : l.findSource device with
  | none =>
    have hnot : ∀ k, (device, k) ∉ held := by
      intro k hheld
      obtain ⟨-, source, hsource, hdevice, -⟩ := (h.holds _ _).mp hheld
      exact findSource_eq_none hfind source hsource hdevice
    have hsame : (held.filter fun pair => pair.1 ≠ device) = held :=
      Finset.filter_true_of_mem fun pair hpair heq => hnot pair.2 (by rw [← heq]; exact hpair)
    rw [removeSource, hfind, hsame]
    exact ⟨h, releases_nil hnot⟩
  | some i =>
    have hsound := (removeSource_spec h.sound device).1
    obtain ⟨before, source, after, hl, rfl, rfl⟩ := findSource_eq_some hfind
    have hsource : l.sources[before.length]? = some source := by rw [hl]; simp
    have hmem : source ∈ l.sources := by rw [hl]; simp
    have hperm : (swapRemove l.sources before.length).Perm (before ++ after) := hl ▸ swapRemove_middle ..
    have hdistinct := h.distinct
    rw [hl, List.map_append, List.map_cons, List.nodup_middle, ← List.map_append, List.nodup_cons] at hdistinct
    have hleft : ∀ other, other ∈ swapRemove l.sources before.length ↔
        other ∈ l.sources ∧ other.device ≠ source.device := by
      intro other
      rw [hperm.mem_iff, hl]
      constructor
      · intro hother
        refine ⟨?_, fun heq => hdistinct.1 (heq ▸ List.mem_map_of_mem hother)⟩
        exact List.mem_append.mpr ((List.mem_append.mp hother).imp_right (List.mem_cons_of_mem _))
      · rintro ⟨hother, hne⟩
        refine List.mem_append.mpr ((List.mem_append.mp hother).imp_right fun hother => ?_)
        exact (List.mem_cons.mp hother).resolve_left fun heq => hne (heq ▸ rfl)
    -- a key with one holder, which is the removed device
    have hone : ∀ k < linuxKeyCodeCount, source.isPressed k = true →
        (l.aggregateCounts k = 1 ↔ ∀ d, d ≠ source.device → (d, k) ∉ held) := by
      intro k hk hpressed
      have hcount := h.counted k hk
      rw [hl, List.countP_append, List.countP_cons, if_pos hpressed] at hcount
      have hzero : l.aggregateCounts k = 1 ↔ (before ++ after).countP (·.isPressed k) = 0 := by
        rw [List.countP_append]
        omega
      rw [hzero, List.countP_eq_zero]
      constructor
      · rintro hnone d hd hheld
        obtain ⟨-, other, hother, rfl, hother'⟩ := (h.holds _ _).mp hheld
        exact hnone other (hperm.mem_iff.mp ((hleft other).mpr ⟨hother, hd⟩)) hother'
      · intro hnone other hother hother'
        obtain ⟨hin, hne⟩ := (hleft other).mp (hperm.mem_iff.mpr hother)
        exact hnone other.device hne ((h.holds _ _).mpr ⟨hk, other, hin, rfl, hother'⟩)
    have hheld : ∀ k, (source.device, k) ∈ held ↔ k < linuxKeyCodeCount ∧ source.isPressed k = true := by
      intro k
      rw [h.holds]
      refine and_congr_right fun _ => ⟨?_, fun hpressed => ⟨source, hmem, rfl, hpressed⟩⟩
      rintro ⟨other, hother, hdevice, hpressed⟩
      exact List.inj_on_of_nodup_map h.distinct hother hmem hdevice ▸ hpressed
    simp only [removeSource, hfind, hsource, foldl_dropKey List.nodup_range, List.nil_append] at hsound ⊢
    refine ⟨⟨hsound.distinct, hsound.counted, fun other hother => h.among other ((hleft other).mp hother).1,
      fun d k => ?_⟩, fun k => ?_, ?_, ?_⟩
    · rw [Finset.mem_filter, h.holds d k, and_assoc]
      refine and_congr_right fun _ => ⟨?_, ?_⟩
      · rintro ⟨⟨other, hother, rfl, hpressed⟩, hne⟩
        exact ⟨other, (hleft other).mpr ⟨hother, hne⟩, rfl, hpressed⟩
      · rintro ⟨other, hother, rfl, hpressed⟩
        obtain ⟨hin, hne⟩ := (hleft other).mp hother
        exact ⟨⟨other, hin, rfl, hpressed⟩, hne⟩
    · rw [List.mem_insertionSort, List.mem_filter, List.mem_range, decide_eq_true_eq, hheld, and_assoc]
      refine and_congr_right fun hk => and_congr_right fun hpressed => hone k hk hpressed
    · exact (List.perm_insertionSort _ _).nodup_iff.mpr (List.nodup_range.filter _)
    · have : Std.Total (fun a b => releaseOrder a b = true) := ⟨releaseOrder_total⟩
      have : IsTrans ℕ (fun a b => releaseOrder a b = true) := ⟨fun _ _ _ => releaseOrder_trans⟩
      refine (List.pairwise_insertionSort _ _).imp fun {a b} hab ha => ?_
      unfold releaseOrder at hab
      split_ifs at hab with hsame
      · rw [← hsame, ha]
      · exact hab

theorem apply_exact (h : Exact devices held l) (hdevices : devices.card < 4294967296) (op : Operation)
    (hop : ∀ device ∈ op.device?, device ∈ devices) : Exact devices (op.hold held) (l.apply op) := by
  cases op with
  | press device code => exact (press_exact h hdevices (hop device rfl)).1
  | release device code => exact (release_exact h).1
  | removeSource device => exact (removeSource_exact h).1
  | clear => exact exact_empty

theorem foldl_apply_exact (h : Exact devices held l) (hdevices : devices.card < 4294967296) {ops : List Operation}
    (hops : ∀ op ∈ ops, ∀ device ∈ op.device?, device ∈ devices) :
    Exact devices (ops.foldl Operation.hold held) (ops.foldl apply l) := by
  induction ops generalizing held l with
  | nil => exact h
  | cons op ops ih =>
    refine ih (apply_exact h hdevices op (hops op (List.mem_cons_self ..))) fun op' hop' => ?_
    exact hops op' (List.mem_cons_of_mem _ hop')

/-- After every run over fewer than 2^32 devices the counts are the numbers of holders, the answers to a press and a
release are the changes of the union, and a removal gives the keys that nobody else holds, modifiers last. -/
theorem ledger_equals_held_keys {devices : Finset ℕ} (hdevices : devices.card < 4294967296) {ops : List Operation}
    (hops : ∀ op ∈ ops, ∀ device ∈ op.device?, device ∈ devices) :
    (∀ code < linuxKeyCodeCount, (ops.foldl apply empty).aggregateCounts code =
      ((ops.foldl Operation.hold ∅).filter fun pair => pair.2 = code).card) ∧
    ∀ device ∈ devices, (∀ code,
        (((ops.foldl apply empty).press device code).1 = .pressed ↔ code ∉ unionKeys (ops.foldl Operation.hold ∅) ∧
          code ∈ unionKeys (Operation.hold (ops.foldl Operation.hold ∅) (.press device code))) ∧
        ((ops.foldl apply empty).press device code).1 ≠ .released ∧
        (((ops.foldl apply empty).release device code).1 = .released ↔ code ∈ unionKeys (ops.foldl Operation.hold ∅) ∧
          code ∉ unionKeys (Operation.hold (ops.foldl Operation.hold ∅) (.release device code))) ∧
        ((ops.foldl apply empty).release device code).1 ≠ .pressed) ∧
      Releases (ops.foldl Operation.hold ∅) device ((ops.foldl apply empty).removeSource device).1 := by
  have hexact : Exact devices (ops.foldl Operation.hold ∅) (ops.foldl apply empty) :=
    foldl_apply_exact exact_empty hdevices hops
  refine ⟨fun code hcode => hexact.count_eq_card hcode, fun device hdevice => ⟨fun code => ?_, ?_⟩⟩
  · exact ⟨(press_exact hexact hdevices hdevice).2, press_ne_released _ _, (release_exact hexact).2,
      release_ne_pressed _ _⟩
  · exact (removeSource_exact hexact).2

def sharedKeyRun : List Operation := [.press 1 30, .press 2 30, .press 1 42, .press 1 42, .release 2 31, .press 1 16]

theorem ledger_equals_held_keys_sharedKeyRun : (sharedKeyRun.foldl apply empty).aggregateCounts 30 = 2 ∧
    Releases (sharedKeyRun.foldl Operation.hold ∅) 1 [16, 42] := by
  have hdevices : ({1, 2} : Finset ℕ).card < 4294967296 := by decide
  have hops : ∀ op ∈ sharedKeyRun, ∀ device ∈ op.device?, device ∈ ({1, 2} : Finset ℕ) := by decide
  obtain ⟨hcounts, hanswers⟩ := ledger_equals_held_keys hdevices hops
  refine ⟨?_, ?_⟩
  · rw [hcounts 30 (by decide)]
    decide
  · have hreleases := (hanswers 1 (by decide)).2
    have hlist : ((sharedKeyRun.foldl apply empty).removeSource 1).1 = [16, 42] := by decide +kernel
    rw [hlist] at hreleases
    exact hreleases

end KeyboardSourceLedger
end Typhon.Input
