import Typhon.Foundation.Word64
import Typhon.Foundation.HashMap

/-! The damage of a renderable surface and the bounded journal of the damage of its commits. A damage stands for the
pixels it touches; normalising and uniting damage for a surface loses no pixel of that surface. -/

namespace Typhon.Surfaces.SurfaceDamage
open Foundation

structure BufferSize where
  width : ℕ
  height : ℕ
  positive : 0 < width ∧ 0 < height
  words : width ≤ U32.top ∧ height ≤ U32.top
deriving DecidableEq

structure SurfaceDamageRect where
  x : ℕ
  y : ℕ
  width : ℕ
  height : ℕ
deriving DecidableEq, Repr

namespace SurfaceDamageRect

def clippedToSurface (rect : SurfaceDamageRect) (surfaceWidth surfaceHeight : ℕ) : Option SurfaceDamageRect :=
  let left := min rect.x surfaceWidth
  let top := min rect.y surfaceHeight
  let right := min (min (rect.x + rect.width) U32.top) surfaceWidth
  let bottom := min (min (rect.y + rect.height) U32.top) surfaceHeight
  if left < right ∧ top < bottom then some ⟨left, top, right - left, bottom - top⟩ else none

def coversSurface (rect : SurfaceDamageRect) (surfaceWidth surfaceHeight : ℕ) : Bool :=
  rect.x = 0 && rect.y = 0 && rect.width = surfaceWidth && rect.height = surfaceHeight

def Has (rect : SurfaceDamageRect) (px py : ℕ) : Prop :=
  (rect.x ≤ px ∧ px < rect.x + rect.width) ∧ rect.y ≤ py ∧ py < rect.y + rect.height

theorem clippedToSurface_has {rect : SurfaceDamageRect} {size : BufferSize} {px py : ℕ} (hx : px < size.width)
    (hy : py < size.height) (h : rect.Has px py) :
    ∃ clipped, rect.clippedToSurface size.width size.height = some clipped ∧ clipped.Has px py := by
  obtain ⟨⟨hleft, hright⟩, htop, hbottom⟩ := h
  have hwide : px < min (min (rect.x + rect.width) U32.top) size.width :=
    lt_min (lt_min hright (hx.trans_le size.words.1)) hx
  have htall : py < min (min (rect.y + rect.height) U32.top) size.height :=
    lt_min (lt_min hbottom (hy.trans_le size.words.2)) hy
  have hx₀ : min rect.x size.width ≤ px := (min_le_left _ _).trans hleft
  have hy₀ : min rect.y size.height ≤ py := (min_le_left _ _).trans htop
  refine ⟨_, if_pos ⟨hx₀.trans_lt hwide, hy₀.trans_lt htall⟩, ⟨hx₀, ?_⟩, hy₀, ?_⟩
  · rwa [Nat.add_sub_cancel' (hx₀.trans hwide.le)]
  · rwa [Nat.add_sub_cancel' (hy₀.trans htall.le)]

end SurfaceDamageRect

inductive RenderableSurfaceDamage where
  | empty
  | full
  | partialRects (rects : List SurfaceDamageRect)
  | historyLost
deriving DecidableEq, Repr

namespace RenderableSurfaceDamage

def fromRects (rects : List SurfaceDamageRect) : RenderableSurfaceDamage :=
  if rects.isEmpty then .empty else .partialRects rects

def isEmpty : RenderableSurfaceDamage → Bool
  | .empty => true
  | _ => false

def clippedRects (rects : List SurfaceDamageRect) (surfaceWidth surfaceHeight : ℕ) : List SurfaceDamageRect :=
  rects.filterMap fun rect => rect.clippedToSurface surfaceWidth surfaceHeight

def coversSurface (damage : RenderableSurfaceDamage) (surfaceWidth surfaceHeight : ℕ) : Bool :=
  if surfaceWidth = 0 ∨ surfaceHeight = 0 then false
  else
    match damage with
    | .empty => false
    | .full => true
    | .historyLost => true
    | .partialRects rects =>
      let clipped := clippedRects rects surfaceWidth surfaceHeight
      clipped.any (fun rect => rect.coversSurface surfaceWidth surfaceHeight) ||
        -- the sum of the areas counts overlaps twice, so this arm may promote damage that leaves pixels out
        surfaceWidth * surfaceHeight ≤
          clipped.foldl (fun pixels rect => min (pixels + rect.width * rect.height) U64.top) 0

def normalizedForSurface (damage : RenderableSurfaceDamage) (surfaceWidth surfaceHeight : ℕ) :
    RenderableSurfaceDamage :=
  if damage = .historyLost then .historyLost
  else if damage.coversSurface surfaceWidth surfaceHeight then .full
  else
    match damage with
    | .empty => .empty
    | .full => .full
    | .historyLost => .historyLost
    | .partialRects rects => fromRects (clippedRects rects surfaceWidth surfaceHeight)

def union (damage other : RenderableSurfaceDamage) (surfaceWidth surfaceHeight : ℕ) : RenderableSurfaceDamage :=
  match damage, other with
  | .historyLost, _ => .historyLost
  | _, .historyLost => .historyLost
  | .full, _ => .full
  | _, .full => .full
  | .empty, damage => damage.normalizedForSurface surfaceWidth surfaceHeight
  | damage, .empty => damage.normalizedForSurface surfaceWidth surfaceHeight
  | .partialRects older, .partialRects newer =>
    (partialRects (older ++ newer)).normalizedForSurface surfaceWidth surfaceHeight

def Touches : RenderableSurfaceDamage → ℕ → ℕ → Prop
  | .empty, _, _ => False
  | .full, _, _ => True
  | .historyLost, _, _ => True
  | .partialRects rects, px, py => ∃ rect ∈ rects, rect.Has px py

def Covers (damage other : RenderableSurfaceDamage) (size : BufferSize) : Prop :=
  ∀ px < size.width, ∀ py < size.height, other.Touches px py → damage.Touches px py

variable {damage other : RenderableSurfaceDamage} {size : BufferSize} {px py : ℕ}

theorem normalizedForSurface_touches (hx : px < size.width) (hy : py < size.height) (h : damage.Touches px py) :
    (damage.normalizedForSurface size.width size.height).Touches px py := by
  unfold normalizedForSurface
  by_cases hlost : damage = .historyLost
  · rw [if_pos hlost]
    trivial
  rw [if_neg hlost]
  by_cases hcovers : damage.coversSurface size.width size.height
  · rw [if_pos hcovers]
    trivial
  rw [if_neg hcovers]
  cases damage with
  | empty => exact h
  | full => trivial
  | historyLost => trivial
  | partialRects rects =>
    obtain ⟨rect, hrect, hhas⟩ := h
    obtain ⟨clipped, hclipped, hin⟩ := SurfaceDamageRect.clippedToSurface_has hx hy hhas
    have hmem : clipped ∈ clippedRects rects size.width size.height :=
      List.mem_filterMap.mpr ⟨rect, hrect, hclipped⟩
    have hne : (clippedRects rects size.width size.height).isEmpty = false := by
      rw [List.isEmpty_eq_false_iff]
      exact List.ne_nil_of_mem hmem
    simp only [fromRects, hne, Bool.false_eq_true, if_false]
    exact ⟨clipped, hmem, hin⟩

theorem normalizedForSurface_covers : (damage.normalizedForSurface size.width size.height).Covers damage size :=
  fun _ hx _ hy h => normalizedForSurface_touches hx hy h

theorem normalizedForSurface_full (width height : ℕ) : normalizedForSurface .full width height = .full := by
  unfold normalizedForSurface
  rw [if_neg (by decide)]
  split
  · rfl
  · rfl

theorem union_touches (hx : px < size.width) (hy : py < size.height)
    (h : damage.Touches px py ∨ other.Touches px py) :
    (damage.union other size.width size.height).Touches px py := by
  cases damage with
  | historyLost => cases other <;> trivial
  | full => cases other <;> trivial
  | empty =>
    have hother := h.resolve_left id
    cases other with
    | empty => exact hother.elim
    | full => trivial
    | historyLost => trivial
    | partialRects rects => exact normalizedForSurface_touches hx hy hother
  | partialRects older =>
    cases other with
    | empty => exact normalizedForSurface_touches hx hy (h.resolve_right id)
    | full => trivial
    | historyLost => trivial
    | partialRects newer =>
      refine normalizedForSurface_touches hx hy ?_
      rcases h with ⟨rect, hrect, hhas⟩ | ⟨rect, hrect, hhas⟩
      · exact ⟨rect, List.mem_append_left _ hrect, hhas⟩
      · exact ⟨rect, List.mem_append_right _ hrect, hhas⟩

theorem Covers.trans {third : RenderableSurfaceDamage} (h : damage.Covers other size) (h' : other.Covers third size) :
    damage.Covers third size :=
  fun px hx py hy hthird => h px hx py hy (h' px hx py hy hthird)

theorem full_covers : full.Covers other size := fun _ _ _ _ _ => trivial

theorem union_covers_left : (damage.union other size.width size.height).Covers damage size :=
  fun _ hx _ hy h => union_touches hx hy (.inl h)

theorem union_covers_right : (damage.union other size.width size.height).Covers other size :=
  fun _ hx _ hy h => union_touches hx hy (.inr h)

theorem touches_of_isEmpty (h : damage.isEmpty = true) : ¬ damage.Touches px py := by
  cases damage with
  | empty => exact id
  | full => exact absurd h (by decide)
  | historyLost => exact absurd h (by decide)
  | partialRects rects => exact absurd h Bool.false_ne_true

end RenderableSurfaceDamage

structure SurfaceDamageEntry where
  commit : ℕ
  commitSequence : Option ℕ
  damage : RenderableSurfaceDamage
deriving DecidableEq, Repr

structure SurfaceDamageJournal where
  currentCommit : ℕ
  entries : List SurfaceDamageEntry
  capacity : ℕ
deriving DecidableEq, Repr

inductive DamageSince where
  | empty
  | known (damage : RenderableSurfaceDamage)
  | historyLost
deriving DecidableEq, Repr

def DamageSince.damage : DamageSince → RenderableSurfaceDamage
  | .empty => .empty
  | .known damage => damage
  | .historyLost => .historyLost

structure Recorded where
  commit : ℕ
  damage : RenderableSurfaceDamage
deriving DecidableEq, Repr

namespace SurfaceDamageJournal
open RenderableSurfaceDamage

def new (capacity : ℕ) : SurfaceDamageJournal := ⟨0, [], max capacity 1⟩

def recordWithSequence (j : SurfaceDamageJournal) (commitSequence : Option ℕ) (damage : RenderableSurfaceDamage)
    (width height : ℕ) : SurfaceDamageJournal :=
  let commit := max (j.currentCommit + 1) 1
  let entries := j.entries ++ [⟨commit, commitSequence, damage.normalizedForSurface width height⟩]
  -- the oldest entries go while there are more than the capacity
  { j with currentCommit := commit, entries := entries.drop (entries.length - j.capacity) }

def commitCounterForSequence (j : SurfaceDamageJournal) (commitSequence : ℕ) : Option ℕ :=
  (j.entries.reverse.find? fun entry => entry.commitSequence = some commitSequence).map (·.commit)

def damageAfter (entries : List SurfaceDamageEntry) (lastSeen width height : ℕ) : RenderableSurfaceDamage :=
  (entries.filter fun entry => lastSeen < entry.commit).foldl
    (fun damage entry => damage.union entry.damage width height) .empty

def damageSince (j : SurfaceDamageJournal) (lastSeen width height : ℕ) : DamageSince :=
  if lastSeen = j.currentCommit then .empty
  else if j.currentCommit < lastSeen then .historyLost
  else if j.entries.head?.any fun oldest => lastSeen + 1 < oldest.commit then .historyLost
  else
    let damage := damageAfter j.entries lastSeen width height
    if damage.isEmpty then .empty else .known damage

structure WellFormed (j : SurfaceDamageJournal) : Prop where
  ordered : j.entries.Pairwise fun older newer => older.commit < newer.commit
  bounded : ∀ entry ∈ j.entries, entry.commit ≤ j.currentCommit
  capacity : 0 < j.capacity

/-- Each pixel of the commit is in an entry at least as new, or the commit is older than all that is left. -/
def Keeps (entries : List SurfaceDamageEntry) (r : Recorded) (size : BufferSize) : Prop :=
  ∀ px < size.width, ∀ py < size.height, r.damage.Touches px py →
    (∃ entry ∈ entries, r.commit ≤ entry.commit ∧ entry.damage.Touches px py) ∨
      ∃ oldest, entries.head? = some oldest ∧ r.commit < oldest.commit

variable {j : SurfaceDamageJournal} {commitSequence : Option ℕ} {damage : RenderableSurfaceDamage} {size : BufferSize}
  {entries : List SurfaceDamageEntry} {r : Recorded} {width height : ℕ}

theorem wellFormed_new (capacity : ℕ) : (new capacity).WellFormed where
  ordered := List.Pairwise.nil
  bounded := fun _ h => absurd h List.not_mem_nil
  capacity := lt_of_lt_of_le one_pos (le_max_right _ _)

theorem currentCommit_record :
    (j.recordWithSequence commitSequence damage width height).currentCommit = j.currentCommit + 1 :=
  max_eq_left (Nat.le_add_left 1 _)

theorem ordered_snoc (h : j.WellFormed) (entry : SurfaceDamageEntry) (hentry : j.currentCommit < entry.commit) :
    (j.entries ++ [entry]).Pairwise fun older newer => older.commit < newer.commit := by
  refine List.pairwise_append.mpr ⟨h.ordered, List.pairwise_singleton _ _, ?_⟩
  intro older holder newer hnewer
  rw [List.mem_singleton.mp hnewer]
  exact (h.bounded older holder).trans_lt hentry

theorem WellFormed.record (h : j.WellFormed) :
    (j.recordWithSequence commitSequence damage width height).WellFormed where
  ordered := by
    refine List.Pairwise.sublist (List.drop_sublist _ _) (ordered_snoc h _ ?_)
    exact lt_of_lt_of_le (Nat.lt_succ_self _) (le_max_left _ _)
  bounded := by
    intro entry hentry
    rcases List.mem_append.mp (List.mem_of_mem_drop hentry) with hold | hnew
    · exact (h.bounded entry hold).trans ((Nat.le_succ _).trans (le_max_left _ _))
    · rw [List.mem_singleton.mp hnew]
      exact le_rfl
  capacity := h.capacity

theorem keeps_tail {entry next : SurfaceDamageEntry} {rest : List SurfaceDamageEntry}
    (hordered : entry.commit < next.commit) (h : Keeps (entry :: next :: rest) r size) : Keeps
      (next :: rest) r size := by
  intro px hx py hy htouch
  rcases h px hx py hy htouch with ⟨found, hfound, hle, htouches⟩ | ⟨oldest, holdest, hlt⟩
  · rcases List.mem_cons.mp hfound with rfl | hrest
    · exact .inr ⟨next, rfl, hle.trans_lt hordered⟩
    · exact .inl ⟨found, hrest, hle, htouches⟩
  · cases Option.some.inj holdest
    exact .inr ⟨next, rfl, hlt.trans hordered⟩

theorem keeps_drop (n : ℕ) (hn : n < entries.length)
    (hordered : entries.Pairwise fun older newer => older.commit < newer.commit) (h : Keeps entries r size) :
    Keeps (entries.drop n) r size := by
  induction n generalizing entries with
  | zero => exact h
  | succ n ih =>
    match entries, hordered, h, hn with
    | entry :: next :: rest, hordered, h, hn =>
      have hfirst := (List.pairwise_cons.mp hordered).1 next List.mem_cons_self
      exact ih (Nat.lt_of_succ_lt_succ hn) (List.pairwise_cons.mp hordered).2 (keeps_tail hfirst h)
    | [_], _, _, hn => exact absurd (Nat.lt_of_succ_lt_succ hn) (Nat.not_lt_zero n)

theorem keeps_snoc (entry : SurfaceDamageEntry) (h : Keeps entries r size) : Keeps (entries ++ [entry]) r size := by
  intro px hx py hy htouch
  rcases h px hx py hy htouch with ⟨found, hfound, hle, htouches⟩ | ⟨oldest, holdest, hlt⟩
  · exact .inl ⟨found, List.mem_append_left _ hfound, hle, htouches⟩
  · refine .inr ⟨oldest, ?_, hlt⟩
    rw [List.head?_append, holdest]
    rfl

theorem keeps_last (entry : SurfaceDamageEntry) (hle : r.commit ≤ entry.commit)
    (hcovers : entry.damage.Covers r.damage size) : Keeps (entries ++ [entry]) r size :=
  fun px hx py hy htouch => .inl ⟨entry, List.mem_append_right _ List.mem_cons_self, hle, hcovers px hx py hy htouch⟩

theorem keeps_record (h : j.WellFormed)
    (hkeeps : Keeps (j.entries ++ [⟨j.currentCommit + 1, commitSequence, damage.normalizedForSurface width height⟩]) r
      size) :
    Keeps (j.recordWithSequence commitSequence damage width height).entries r size := by
  have hcommit : max (j.currentCommit + 1) 1 = j.currentCommit + 1 := max_eq_left (Nat.le_add_left 1 _)
  simp only [recordWithSequence, hcommit]
  refine keeps_drop _ (Nat.sub_lt ?_ h.capacity) (ordered_snoc h _ (Nat.lt_succ_self _)) hkeeps
  rw [List.length_append]
  exact Nat.succ_pos _

theorem foldl_union_touches {px py : ℕ} (hx : px < size.width) (hy : py < size.height) :
    ∀ (entries : List SurfaceDamageEntry) (damage : RenderableSurfaceDamage),
      (damage.Touches px py ∨ ∃ entry ∈ entries, entry.damage.Touches px py) →
        (entries.foldl (fun damage entry => damage.union entry.damage size.width size.height) damage).Touches px py
  | [], _, h => by
    rcases h with h | ⟨entry, hentry, -⟩
    · exact h
    · exact absurd hentry List.not_mem_nil
  | entry :: rest, damage, h => by
    refine foldl_union_touches hx hy rest _ ?_
    rcases h with h | ⟨found, hfound, htouches⟩
    · exact .inl (union_touches hx hy (.inl h))
    · rcases List.mem_cons.mp hfound with rfl | hrest
      · exact .inl (union_touches hx hy (.inr htouches))
      · exact .inr ⟨found, hrest, htouches⟩

theorem damageSince_covers {lastSeen : ℕ} (hkeeps : Keeps j.entries r size) (hafter : lastSeen < r.commit)
    (hle : r.commit ≤ j.currentCommit) :
    (j.damageSince lastSeen size.width size.height).damage.Covers r.damage size := by
  intro px hx py hy htouch
  have hlt : lastSeen < j.currentCommit := hafter.trans_le hle
  unfold damageSince
  rw [if_neg hlt.ne, if_neg hlt.not_gt]
  by_cases hlost : (j.entries.head?.any fun oldest => lastSeen + 1 < oldest.commit) = true
  · rw [if_pos hlost]
    trivial
  rw [if_neg hlost]
  have htouches : (damageAfter j.entries lastSeen size.width size.height).Touches px py := by
    rcases hkeeps px hx py hy htouch with ⟨entry, hentry, hnewer, htouches⟩ | ⟨oldest, holdest, holder⟩
    · refine foldl_union_touches hx hy _ _ (.inr ⟨entry, List.mem_filter.mpr ⟨hentry, ?_⟩, htouches⟩)
      exact decide_eq_true (hafter.trans_le hnewer)
    · refine absurd ?_ hlost
      rw [holdest, Option.any_some, decide_eq_true_iff]
      exact lt_of_le_of_lt hafter holder
  have hne : ¬ (damageAfter j.entries lastSeen size.width size.height).isEmpty = true :=
    fun h => touches_of_isEmpty h htouches
  simp only [if_neg hne]
  exact htouches

end SurfaceDamageJournal

end Typhon.Surfaces.SurfaceDamage
