import Typhon.Foundation.Fault

/-! A generational arena: a slot vector with a last-in-first-out free list. An id names a slot
and the generation in which it was handed out; a slot whose generation is exhausted is never
handed out again. -/

namespace Foundation

structure ArenaId where
  index : ℕ
  generation : ℕ
  deriving DecidableEq

structure ArenaSlot (α : Type) where
  generation : ℕ
  node : Option α
  deriving DecidableEq

structure Arena (α : Type) where
  slots : List (ArenaSlot α)
  free : List ℕ
  deriving DecidableEq

namespace Arena
variable {α ε : Type}

def empty : Arena α := ⟨[], []⟩

variable (a : Arena α)

def get (id : ArenaId) : Option α :=
  (a.slots[id.index]?.filter fun slot => slot.generation = id.generation).bind ArenaSlot.node

def set (id : ArenaId) (node : α) : Arena α :=
  { a with slots := a.slots.modify id.index fun slot => { slot with node := some node } }

def insert (exhausted : String) (a : Arena α) (node : α) : Run ε (ArenaId × Arena α) :=
  match a.free with
  | index :: rest =>
    match a.slots[index]? with
    | none => Run.panic "index out of bounds"
    | some slot =>
      if slot.node.isSome then Run.panic "assertion failed: slot.node.is_none()"
      else .ok (⟨index, slot.generation⟩,
        ⟨a.slots.set index { slot with node := some node }, rest⟩)
  | [] =>
    if a.slots.length ≤ 4294967295 then
      .ok (⟨a.slots.length, 1⟩, ⟨a.slots ++ [⟨1, some node⟩], []⟩)
    else Run.panic exhausted

def remove (id : ArenaId) : Option (α × Arena α) :=
  match a.slots[id.index]? with
  | none => none
  | some slot =>
    if slot.generation = id.generation then
      match slot.node with
      | none => none
      | some node =>
        if slot.generation < 4294967295 then
          some (node, ⟨a.slots.set id.index ⟨slot.generation + 1, none⟩, id.index :: a.free⟩)
        else some (node, ⟨a.slots.set id.index ⟨slot.generation, none⟩, a.free⟩)
    else none

def mapNodes (f : ArenaId → α → α) (a : Arena α) : Arena α :=
  { a with slots := a.slots.mapIdx fun index slot =>
      { slot with node := slot.node.map (f ⟨index, slot.generation⟩) } }

def liveCount : ℕ := a.slots.countP fun slot => slot.node.isSome

structure FreeValid (a : Arena α) : Prop where
  vacant : ∀ index ∈ a.free, ∃ slot, a.slots[index]? = some slot ∧ slot.node = none
  nodup : a.free.Nodup

variable {node : α} {id : ArenaId} {a : Arena α}

theorem get_eq_some : a.get id = some node ↔ a.slots[id.index]? = some ⟨id.generation, some node⟩ := by
  unfold get
  cases h : a.slots[id.index]? with
  | none => simp
  | some slot =>
    obtain ⟨generation, content⟩ := slot
    by_cases hg : generation = id.generation <;> simp [Option.filter, hg]

theorem get_of_slot_none (h : a.slots[id.index]? = none) : a.get id = none := by
  simp [get, h]

theorem get_of_slot {s : ArenaSlot α} (h : a.slots[id.index]? = some s) :
    a.get id = if s.generation = id.generation then s.node else none := by
  unfold get
  rw [h]
  by_cases hg : s.generation = id.generation <;> simp [Option.filter, hg]

theorem freeValid_empty : (empty : Arena α).FreeValid :=
  ⟨fun _ h => absurd h List.not_mem_nil, List.nodup_nil⟩

theorem get_empty (id : ArenaId) : (empty : Arena α).get id = none := rfl

variable {a a' : Arena α} {exhausted : String}

theorem insert_cases (h : (insert exhausted a node : Run ε _) = .ok (id, a')) :
    (∃ rest generation, a.free = id.index :: rest ∧
      a.slots[id.index]? = some ⟨id.generation, none⟩ ∧ generation = id.generation ∧
      a' = ⟨a.slots.set id.index ⟨generation, some node⟩, rest⟩) ∨
    (a.free = [] ∧ a.slots.length ≤ 4294967295 ∧ id = ⟨a.slots.length, 1⟩ ∧
      a' = ⟨a.slots ++ [⟨1, some node⟩], []⟩) := by
  unfold insert at h
  split at h
  · rename_i index rest hfree
    split at h
    · exact absurd h (by simp [Run.panic])
    · rename_i slot hslot
      obtain ⟨generation, content⟩ := slot
      cases content with
      | some _ => exact absurd h (by simp [Run.panic])
      | none =>
        simp only [Option.isSome_none, Bool.false_eq_true, if_false, Except.ok.injEq,
          Prod.mk.injEq] at h
        obtain ⟨rfl, rfl⟩ := h
        exact .inl ⟨rest, generation, hfree, hslot, rfl, rfl⟩
  · rename_i hfree
    split_ifs at h with hlen
    · simp only [Except.ok.injEq, Prod.mk.injEq] at h
      exact .inr ⟨hfree, hlen, h.1.symm, h.2.symm⟩
    · exact absurd h (by simp [Run.panic])

theorem insert_ok_or_exhausted (exhausted : String) (hv : a.FreeValid) (node : α) :
    (∃ id a', (insert exhausted a node : Run ε _) = .ok (id, a')) ∨
      ((insert exhausted a node : Run ε _) = .error (.panic exhausted) ∧ a.free = [] ∧
        4294967296 ≤ a.slots.length) := by
  unfold insert
  cases hfree : a.free with
  | nil =>
    by_cases hlen : a.slots.length ≤ 4294967295
    · exact .inl ⟨_, _, if_pos hlen⟩
    · exact .inr ⟨if_neg hlen, rfl, by omega⟩
  | cons index rest =>
    obtain ⟨slot, hslot, hnode⟩ := hv.vacant index (by simp [hfree])
    refine .inl ⟨⟨index, slot.generation⟩, ⟨a.slots.set index { slot with node := some node }, rest⟩, ?_⟩
    simp [hslot, hnode]

theorem insert_ok_or_fault (exhausted : String) (a : Arena α) (node : α) :
    (∃ id a', (insert exhausted a node : Run ε _) = .ok (id, a')) ∨
      ∃ fault, (insert exhausted a node : Run ε _) = .error fault ∧
        (a.FreeValid → fault = .panic exhausted ∧ a.free = [] ∧ 4294967296 ≤ a.slots.length) := by
  cases h : (insert exhausted a node : Run ε _) with
  | ok r => exact .inl ⟨r.1, r.2, rfl⟩
  | error fault =>
    refine .inr ⟨fault, rfl, fun hv => ?_⟩
    obtain ⟨id, a', hok⟩ | ⟨herr, hfull⟩ := insert_ok_or_exhausted (ε := ε) exhausted hv node
    · rw [h] at hok
      exact absurd hok (by simp)
    · rw [h, Except.error.injEq] at herr
      exact ⟨herr, hfull⟩

theorem get_insert (h : (insert exhausted a node : Run ε _) = .ok (id, a')) (id' : ArenaId) :
    a'.get id' = if id' = id then some node else a.get id' := by
  obtain ⟨rest, generation, -, hslot, rfl, rfl⟩ | ⟨-, -, rfl, rfl⟩ := insert_cases h
  · have hlt : id.index < a.slots.length := (List.getElem?_eq_some_iff.mp hslot).1
    by_cases hi : id'.index = id.index
    · rw [get_of_slot (s := ⟨id.generation, some node⟩) (by simp [hi, hlt]),
        get_of_slot (s := ⟨id.generation, none⟩) (by rw [hi]; exact hslot)]
      by_cases hg : id.generation = id'.generation
      · rw [if_pos hg, if_pos]
        cases id; cases id'; simp_all
      · have hne : id' ≠ id := fun he => hg (by rw [he])
        rw [if_neg hg, if_neg hne, if_neg hg]
    · have hne : id' ≠ id := fun he => hi (by rw [he])
      rw [if_neg hne]
      simp [get, Ne.symm hi]
  · by_cases hi : id'.index = a.slots.length
    · have hnone : a.get id' = none := get_of_slot_none (by simp [hi])
      rw [get_of_slot (s := ⟨1, some node⟩) (by simp [hi]), hnone]
      by_cases hg : id'.generation = 1
      · rw [if_pos (by simp [hg]), if_pos]
        cases id'; simp_all
      · rw [if_neg (by simpa using Ne.symm hg), if_neg]
        rintro rfl
        exact hg rfl
    · have hne : id' ≠ ⟨a.slots.length, 1⟩ := by
        rintro rfl
        exact hi rfl
      rw [if_neg hne]
      simp only [get]
      rcases Nat.lt_or_gt_of_ne hi with hlt | hgt
      · rw [List.getElem?_append_left hlt]
      · rw [List.getElem?_eq_none (by simpa using hgt), List.getElem?_eq_none hgt.le]

theorem get_of_insert (h : (insert exhausted a node : Run ε _) = .ok (id, a')) : a.get id = none := by
  obtain ⟨rest, generation, -, hslot, -, -⟩ | ⟨-, -, rfl, -⟩ := insert_cases h
  · rw [get_of_slot hslot]
    simp
  · exact get_of_slot_none (by simp)

theorem length_insert (h : (insert exhausted a node : Run ε _) = .ok (id, a')) :
    a.slots.length ≤ a'.slots.length := by
  obtain ⟨rest, generation, -, -, -, rfl⟩ | ⟨-, -, -, rfl⟩ := insert_cases h
  · simp
  · simp

theorem freeValid_insert (hv : a.FreeValid) (h : (insert exhausted a node : Run ε _) = .ok (id, a')) :
    a'.FreeValid := by
  obtain ⟨rest, generation, hfree, hslot, rfl, rfl⟩ | ⟨-, -, -, rfl⟩ := insert_cases h
  · have hnd : (id.index :: rest).Nodup := hfree ▸ hv.nodup
    refine ⟨fun index hmem => ?_, (List.nodup_cons.mp hnd).2⟩
    obtain ⟨slot, hs, hn⟩ := hv.vacant index (hfree ▸ List.mem_cons_of_mem _ hmem)
    have hne : id.index ≠ index := fun he => (List.nodup_cons.mp hnd).1 (he ▸ hmem)
    exact ⟨slot, by simp [hne, hs], hn⟩
  · exact ⟨fun _ hmem => absurd hmem List.not_mem_nil, List.nodup_nil⟩

theorem get_set {old : α} (h : a.get id = some old) (node : α)
    (id' : ArenaId) : (a.set id node).get id' = if id' = id then some node else a.get id' := by
  have hslot := get_eq_some.mp h
  by_cases hi : id'.index = id.index
  · rw [get_of_slot (s := ⟨id.generation, some node⟩) (by simp [set, hi, hslot]),
      get_of_slot (s := ⟨id.generation, some old⟩) (by rw [hi]; exact hslot)]
    by_cases hg : id.generation = id'.generation
    · rw [if_pos hg, if_pos]
      cases id; cases id'; simp_all
    · have hne : id' ≠ id := fun he => hg (by rw [he])
      rw [if_neg hg, if_neg hne, if_neg hg]
  · have hne : id' ≠ id := fun he => hi (by rw [he])
    rw [if_neg hne]
    simp [get, set, Ne.symm hi]

theorem get_mapNodes (f : ArenaId → α → α) (a : Arena α) (id : ArenaId) :
    (a.mapNodes f).get id = (a.get id).map (f id) := by
  rw [get, get, mapNodes, List.getElem?_mapIdx]
  cases a.slots[id.index]? with
  | none => rfl
  | some slot =>
    by_cases h : slot.generation = id.generation
    · simp [Option.filter, h]
    · simp [Option.filter, h]

theorem mapNodes_eq_self {f : ArenaId → α → α}
    (h : ∀ id node, a.get id = some node → f id node = node) : a.mapNodes f = a := by
  obtain ⟨slots, free⟩ := a
  simp only [mapNodes, mk.injEq, and_true]
  refine List.ext_getElem? fun index => ?_
  rw [List.getElem?_mapIdx]
  cases hs : slots[index]? with
  | none => rfl
  | some slot =>
    obtain ⟨generation, node⟩ := slot
    cases node with
    | none => rfl
    | some node =>
      have := h ⟨index, generation⟩ node (get_eq_some.mpr hs)
      simp [this]

theorem freeValid_set (hv : a.FreeValid) {old : α}
    (h : a.get id = some old) (node : α) : (a.set id node).FreeValid := by
  refine ⟨fun index hmem => ?_, hv.nodup⟩
  obtain ⟨slot, hs, hn⟩ := hv.vacant index hmem
  have hne : id.index ≠ index := by
    rintro rfl
    rw [get_eq_some.mp h, Option.some.injEq] at hs
    rw [← hs] at hn
    exact absurd hn (by simp)
  exact ⟨slot, by simp [set, hne, hs], hn⟩

theorem remove_cases (h : a.remove id = some (node, a')) : a.get id = some node ∧ ((id.generation < 4294967295 ∧
        a' = ⟨a.slots.set id.index ⟨id.generation + 1, none⟩, id.index :: a.free⟩) ∨
      (4294967295 ≤ id.generation ∧ a' = ⟨a.slots.set id.index ⟨id.generation, none⟩, a.free⟩)) := by
  unfold remove at h
  split at h
  · exact absurd h (by simp)
  · rename_i slot hslot
    obtain ⟨generation, content⟩ := slot
    cases content with
    | none => exact absurd h (by simp)
    | some node' =>
      simp only at h
      split_ifs at h with hg hlt <;> simp only [Option.some.injEq, Prod.mk.injEq] at h <;>
        obtain ⟨rfl, rfl⟩ := h <;> subst hg
      · exact ⟨get_eq_some.mpr hslot, .inl ⟨hlt, rfl⟩⟩
      · exact ⟨get_eq_some.mpr hslot, .inr ⟨not_lt.mp hlt, rfl⟩⟩

theorem remove_of_get (h : a.get id = some node) : ∃ a', a.remove id = some (node, a') := by
  unfold remove
  rw [get_eq_some.mp h]
  simp only [if_true]
  split_ifs
  · exact ⟨_, rfl⟩
  · exact ⟨_, rfl⟩

theorem get_remove (h : a.remove id = some (node, a')) (id' : ArenaId) :
    a'.get id' = if id' = id then none else a.get id' := by
  obtain ⟨hget, hcases⟩ := remove_cases h
  have hslot := get_eq_some.mp hget
  have hlt : id.index < a.slots.length := (List.getElem?_eq_some_iff.mp hslot).1
  have hset : ∃ generation, a'.slots = a.slots.set id.index ⟨generation, none⟩ := by
    obtain ⟨-, rfl⟩ | ⟨-, rfl⟩ := hcases
    · exact ⟨_, rfl⟩
    · exact ⟨_, rfl⟩
  obtain ⟨generation, hset⟩ := hset
  by_cases hi : id'.index = id.index
  · rw [get_of_slot (s := ⟨generation, none⟩) (by simp [hset, hi, hlt]),
      get_of_slot (s := ⟨id.generation, some node⟩) (by rw [hi]; exact hslot)]
    by_cases hg : id.generation = id'.generation
    · rw [if_pos (show id' = id by cases id; cases id'; simp_all)]
      simp
    · rw [if_neg hg]
      simp
  · have hne : id' ≠ id := fun he => hi (by rw [he])
    rw [if_neg hne]
    simp [get, hset, Ne.symm hi]

theorem freeValid_remove (hv : a.FreeValid) (h : a.remove id = some (node, a')) : a'.FreeValid := by
  obtain ⟨hget, hcases⟩ := remove_cases h
  have hslot := get_eq_some.mp hget
  have hlt : id.index < a.slots.length := (List.getElem?_eq_some_iff.mp hslot).1
  have hnot : id.index ∉ a.free := by
    intro hmem
    obtain ⟨slot, hs, hn⟩ := hv.vacant _ hmem
    rw [hslot, Option.some.injEq] at hs
    rw [← hs] at hn
    exact absurd hn (by simp)
  have hkeep : ∀ generation, ∀ index ∈ a.free, ∃ slot,
      (a.slots.set id.index ⟨generation, none⟩)[index]? = some slot ∧ slot.node = none := by
    intro generation index hmem
    obtain ⟨slot, hs, hn⟩ := hv.vacant index hmem
    have hne : id.index ≠ index := fun he => hnot (he ▸ hmem)
    exact ⟨slot, by simp [hne, hs], hn⟩
  obtain ⟨-, rfl⟩ | ⟨-, rfl⟩ := hcases
  · refine ⟨fun index hmem => ?_, List.nodup_cons.mpr ⟨hnot, hv.nodup⟩⟩
    obtain rfl | hmem := List.mem_cons.mp hmem
    · exact ⟨⟨id.generation + 1, none⟩, by simp [hlt], rfl⟩
    · exact hkeep _ index hmem
  · exact ⟨hkeep _, hv.nodup⟩

/-! ### Live ids -/

def liveIdsFrom : ℕ → List (ArenaSlot α) → List ArenaId
  | _, [] => []
  | i, slot :: slots =>
    if slot.node.isSome then ⟨i, slot.generation⟩ :: liveIdsFrom (i + 1) slots
    else liveIdsFrom (i + 1) slots

def liveIds : List ArenaId := liveIdsFrom 0 a.slots

theorem mem_liveIdsFrom {i : ℕ} {slots : List (ArenaSlot α)} : id ∈ liveIdsFrom i slots ↔
      i ≤ id.index ∧ ∃ node, slots[id.index - i]? = some ⟨id.generation, some node⟩ := by
  induction slots generalizing i with
  | nil => simp [liveIdsFrom]
  | cons slot slots ih =>
    obtain ⟨generation, content⟩ := slot
    have htail : (i ≤ id.index ∧ ∃ node, ((⟨generation, content⟩ : ArenaSlot α) :: slots)[id.index - i]? =
          some ⟨id.generation, some node⟩) ↔
        (id.index = i ∧ generation = id.generation ∧ content.isSome) ∨ id ∈ liveIdsFrom (i + 1) slots := by
      rw [ih]
      rcases Nat.lt_trichotomy id.index i with h | h | h
      · constructor
        · rintro ⟨hle, -⟩
          omega
        · rintro (⟨he, -⟩ | ⟨hle, -⟩) <;> omega
      · subst h
        simp [Option.isSome_iff_exists]
      · have hs : id.index - i = (id.index - (i + 1)) + 1 := by omega
        rw [hs, List.getElem?_cons_succ]
        constructor
        · rintro ⟨-, hn⟩
          exact .inr ⟨h, hn⟩
        · rintro (⟨he, -⟩ | ⟨-, hn⟩)
          · omega
          · exact ⟨h.le, hn⟩
    rw [htail, liveIdsFrom]
    cases content with
    | none => simp
    | some node =>
      simp only [Option.isSome_some, if_true, List.mem_cons, and_true]
      refine or_congr_left ?_
      cases id
      simp [eq_comm]

theorem mem_liveIds : id ∈ a.liveIds ↔ (a.get id).isSome := by
  rw [liveIds, mem_liveIdsFrom, Option.isSome_iff_exists]
  simp [get_eq_some]

theorem nodup_liveIdsFrom (i : ℕ) (slots : List (ArenaSlot α)) : (liveIdsFrom i slots).Nodup := by
  induction slots generalizing i with
  | nil => exact List.nodup_nil
  | cons slot slots ih =>
    rw [liveIdsFrom]
    split_ifs
    · refine List.nodup_cons.mpr ⟨fun hmem => ?_, ih (i + 1)⟩
      have := (mem_liveIdsFrom.mp hmem).1
      simp only at this
      omega
    · exact ih (i + 1)

theorem nodup_liveIds : a.liveIds.Nodup := nodup_liveIdsFrom 0 a.slots

theorem length_liveIds : a.liveIds.length = a.liveCount := by
  have h : ∀ i (slots : List (ArenaSlot α)),
      (liveIdsFrom i slots).length = slots.countP fun slot => slot.node.isSome := by
    intro i slots
    induction slots generalizing i with
    | nil => rfl
    | cons slot slots ih =>
      rw [liveIdsFrom, List.countP_cons]
      split_ifs <;> simp [ih]
  exact h 0 a.slots

/-! ### Retired ids -/

def Retired (id : ArenaId) : Prop :=
  ∃ slot, a.slots[id.index]? = some slot ∧ (id.generation < slot.generation ∨
    (id.generation = slot.generation ∧ slot.node = none ∧ id.index ∉ a.free))

theorem Retired.get_eq_none (h : a.Retired id) : a.get id = none := by
  obtain ⟨slot, hslot, hlt | ⟨-, hnode, -⟩⟩ := h
  · rw [get_of_slot hslot, if_neg (by omega)]
  · rw [get_of_slot hslot, hnode]
    simp

theorem retired_of_remove (hv : a.FreeValid) (h : a.remove id = some (node, a')) : a'.Retired id := by
  obtain ⟨hget, hcases⟩ := remove_cases h
  have hslot := get_eq_some.mp hget
  have hlt : id.index < a.slots.length := (List.getElem?_eq_some_iff.mp hslot).1
  obtain ⟨-, rfl⟩ | ⟨-, rfl⟩ := hcases
  · exact ⟨⟨id.generation + 1, none⟩, by simp [hlt], .inl (Nat.lt_succ_self _)⟩
  · refine ⟨⟨id.generation, none⟩, by simp [hlt], .inr ⟨rfl, rfl, fun hmem => ?_⟩⟩
    obtain ⟨slot, hs, hn⟩ := hv.vacant _ hmem
    rw [hslot, Option.some.injEq] at hs
    rw [← hs] at hn
    exact absurd hn (by simp)

variable {id id' : ArenaId}

theorem Retired.insert (hr : a.Retired id) (h : (Arena.insert exhausted a node : Run ε _) = .ok (id', a')) :
    a'.Retired id := by
  obtain ⟨slot, hslot, hcase⟩ := hr
  obtain ⟨rest, generation, hfree, hs, rfl, rfl⟩ | ⟨hfree, -, -, rfl⟩ := insert_cases h
  · by_cases hi : id'.index = id.index
    · rw [hi, hslot, Option.some.injEq] at hs
      subst hs
      have hlt : id.index < a.slots.length := (List.getElem?_eq_some_iff.mp hslot).1
      obtain hg | ⟨-, -, hnot⟩ := hcase
      · exact ⟨⟨id'.generation, some node⟩, by simp [hi, hlt], .inl hg⟩
      · exact absurd (by simp [hfree, hi]) hnot
    · refine ⟨slot, by simp [hi, hslot], hcase.imp_right fun ⟨hg, hn, hnot⟩ => ⟨hg, hn, fun hm => hnot ?_⟩⟩
      exact hfree ▸ List.mem_cons_of_mem _ hm
  · have hlt : id.index < a.slots.length := (List.getElem?_eq_some_iff.mp hslot).1
    exact ⟨slot, by rw [List.getElem?_append_left hlt]; exact hslot,
      hcase.imp_right fun ⟨hg, hn, _⟩ => ⟨hg, hn, List.not_mem_nil⟩⟩

theorem Retired.set (hr : a.Retired id) {old : α}
    (h : a.get id' = some old) (node : α) : (a.set id' node).Retired id := by
  obtain ⟨slot, hslot, hcase⟩ := hr
  by_cases hi : id'.index = id.index
  · have hs := get_eq_some.mp h
    rw [hi, hslot, Option.some.injEq] at hs
    subst hs
    obtain hg | ⟨-, hn, -⟩ := hcase
    · exact ⟨⟨id'.generation, some node⟩, by simp [Arena.set, hi, hslot], .inl hg⟩
    · exact absurd hn (by simp)
  · exact ⟨slot, by simp [Arena.set, hi, hslot], hcase⟩

theorem Retired.remove (hr : a.Retired id) (h : a.remove id' = some (node, a')) : a'.Retired id := by
  obtain ⟨slot, hslot, hcase⟩ := hr
  obtain ⟨hget, hremove⟩ := remove_cases h
  have hs := get_eq_some.mp hget
  by_cases hi : id'.index = id.index
  · rw [hi, hslot, Option.some.injEq] at hs
    subst hs
    have hlt : id.index < a.slots.length := (List.getElem?_eq_some_iff.mp hslot).1
    obtain hg | ⟨-, hn, -⟩ := hcase
    · obtain ⟨-, rfl⟩ | ⟨-, rfl⟩ := hremove
      · exact ⟨⟨id'.generation + 1, none⟩, by simp [hi, hlt], .inl (Nat.lt_succ_of_lt hg)⟩
      · exact ⟨⟨id'.generation, none⟩, by simp [hi, hlt], .inl hg⟩
    · exact absurd hn (by simp)
  · obtain ⟨-, rfl⟩ | ⟨-, rfl⟩ := hremove
    · exact ⟨slot, by simp [hi, hslot], hcase.imp_right fun ⟨hg, hn, hnot⟩ =>
        ⟨hg, hn, by simpa [Ne.symm hi] using hnot⟩⟩
    · exact ⟨slot, by simp [hi, hslot], hcase⟩

/-! ### Histories -/

inductive Step : Arena α → Arena α → Prop
  | insert {a a' : Arena α} {exhausted : String} {node : α} {id : ArenaId}
      (h : (Arena.insert exhausted a node : Run Empty _) = .ok (id, a')) : Step a a'
  | set {a : Arena α} {id : ArenaId} {old : α} (h : a.get id = some old) (node : α) :
      Step a (a.set id node)
  | remove {a a' : Arena α} {id : ArenaId} {node : α} (h : a.remove id = some (node, a')) :
      Step a a'

def Evolves : Arena α → Arena α → Prop := Relation.ReflTransGen Step

theorem Evolves.refl : Evolves a a := Relation.ReflTransGen.refl

theorem Evolves.trans {a b c : Arena α} (h₁ : Evolves a b) (h₂ : Evolves b c) : Evolves a c :=
  Relation.ReflTransGen.trans h₁ h₂

variable {a b : Arena α}

theorem Step.evolves (h : Step a b) : Evolves a b := Relation.ReflTransGen.single h

theorem Step.freeValid (h : Step a b) (hv : a.FreeValid) : b.FreeValid := by
  cases h with
  | insert h => exact freeValid_insert hv h
  | set h node => exact freeValid_set hv h node
  | remove h => exact freeValid_remove hv h

theorem Evolves.freeValid (h : Evolves a b) (hv : a.FreeValid) : b.FreeValid := by
  induction h with
  | refl => exact hv
  | tail _ hstep ih => exact hstep.freeValid ih

theorem Step.retired (h : Step a b) (hr : a.Retired id) : b.Retired id := by
  cases h with
  | insert h => exact hr.insert h
  | set h node => exact hr.set h node
  | remove h => exact hr.remove h

theorem Evolves.retired (h : Evolves a b) (hr : a.Retired id) : b.Retired id := by
  induction h with
  | refl => exact hr
  | tail _ hstep ih => exact hstep.retired ih

theorem Step.live_or_retired (h : Step a b) (hv : a.FreeValid)
    (hl : (a.get id).isSome) : (b.get id).isSome ∨ b.Retired id := by
  cases h with
  | insert h =>
    rw [get_insert h]
    split_ifs
    · exact .inl rfl
    · exact .inl hl
  | set h node =>
    rw [get_set h]
    split_ifs
    · exact .inl rfl
    · exact .inl hl
  | @remove _ id' _ h =>
    by_cases hid : id = id'
    · exact .inr (hid ▸ retired_of_remove hv h)
    · rw [get_remove h, if_neg hid]
      exact .inl hl

theorem Evolves.retired_of_get_eq_none (h : Evolves a b) (hv : a.FreeValid)
    (hl : (a.get id).isSome) (hn : b.get id = none) : b.Retired id := by
  have key : (b.get id).isSome ∨ b.Retired id := by
    clear hn
    induction h with
    | refl => exact .inl hl
    | tail hrun hstep ih =>
      exact ih.elim (hstep.live_or_retired (Evolves.freeValid hrun hv)) fun hr => .inr (hstep.retired hr)
  exact key.resolve_left (by simp [hn])

end Arena
end Foundation
