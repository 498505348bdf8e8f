import Typhon.Foundation.Machine
import Typhon.Xwayland.SelectionRequests

/-! Every open request and every transfer holds one reference on its requestor, in any run, and no two transfers store
into the same property. -/

namespace Typhon.Xwayland.Requestors
open Foundation ActiveTransfer

section lists
variable {α β : Type} {l : List α}

theorem perm_cons_eraseP {p : α → Bool} {a : α} (h : l.find? p = some a) : l.Perm (a :: l.eraseP p) := by
  induction l with
  | nil => cases h
  | cons b l ih =>
    by_cases hb : p b = true
    · rw [List.find?_cons_of_pos hb, Option.some.injEq] at h
      rw [List.eraseP_cons_of_pos hb, h]
    · rw [List.find?_cons_of_neg hb] at h
      rw [List.eraseP_cons_of_neg hb]
      exact ((ih h).cons b).trans (List.Perm.swap a b _)

theorem eraseP_eq_erase [DecidableEq α] {p : α → Bool} {a : α} (h : l.find? p = some a) : l.eraseP p = l.erase a := by
  induction l with
  | nil => cases h
  | cons b l ih =>
    by_cases hb : p b = true
    · rw [List.find?_cons_of_pos hb, Option.some.injEq] at h
      rw [List.eraseP_cons_of_pos hb, h, List.erase_cons_head]
    · rw [List.find?_cons_of_neg hb] at h
      have hne : b ≠ a := fun heq => hb (heq ▸ List.find?_some h)
      rw [List.eraseP_cons_of_neg hb, List.erase_cons_tail (by simpa using hne), ih h]

theorem Nodup.not_mem_drop {i : ℕ} {a : α} (h : l.Nodup) (hi : l[i]? = some a) : a ∉ l.drop (i + 1) := by
  have hdrop : l.drop i = a :: l.drop (i + 1) := by
    obtain ⟨hlt, rfl⟩ := List.getElem?_eq_some_iff.mp hi
    exact List.drop_eq_getElem_cons hlt
  have hnodup := h.sublist (List.drop_sublist i l)
  rw [hdrop, List.nodup_cons] at hnodup
  exact hnodup.1

end lists

/-! ### Counted references -/

def positive (n : ℕ) : Option ℕ := if n = 0 then none else some n

def one (w v : ℕ) : ℕ := if v = w then 1 else 0

structure RequestorMonitors.Counts (m : RequestorMonitors) (w n : ℕ) : Prop where
  references : m.references.lookup w = positive n
  widened : w ∈ m.widened ↔ n ≠ 0

namespace RequestorMonitors
variable {m m' : RequestorMonitors} {internal : ℕ → Bool} {w : ℕ} {f : ℕ → ℕ}

theorem retainRequestor_false (hm : m.retainRequestor internal w = (m', false)) : m' = m := by
  unfold retainRequestor at hm
  split_ifs at hm
  · exact (congrArg Prod.fst hm).symm
  · cases hk : m.references.lookup w <;> rw [hk] at hm <;> cases hm

theorem retainRequestor_true (hm : m.retainRequestor internal w = (m', true)) (h : ∀ v, m.Counts v (f v)) (v : ℕ) :
    m'.Counts v (f v + one w v) := by
  unfold retainRequestor at hm
  split_ifs at hm
  · simp at hm
  have hw := (h w).references
  have hv := h v
  cases hk : m.references.lookup w with
  | none =>
    rw [hk] at hm hw
    obtain rfl := congrArg Prod.fst hm
    have hzero : f w = 0 := by by_contra hne; simp [positive, hne] at hw
    refine ⟨?_, ?_⟩
    · rw [HashMap.lookup_insert, hv.references]
      by_cases hvw : v = w
      · simp [hvw, hzero, one, positive]
      · simp [hvw, one]
    · rw [Finset.mem_insert, hv.widened]
      by_cases hvw : v = w <;> simp [hvw, one]
  | some n =>
    rw [hk] at hm hw
    obtain rfl := congrArg Prod.fst hm
    have hpos : f w = n ∧ n ≠ 0 := by
      unfold positive at hw
      split_ifs at hw with hzero
      rw [Option.some.injEq] at hw
      omega
    refine ⟨?_, ?_⟩
    · rw [HashMap.lookup_insert, hv.references]
      by_cases hvw : v = w
      · simp [hvw, one, positive, hpos.1]
      · simp [hvw, one]
    · rw [hv.widened]
      by_cases hvw : v = w
      · simp [hvw, one, hpos.1, hpos.2]
      · simp [hvw, one]

theorem releaseRequestor_counts (h : ∀ v, m.Counts v (f v + one w v)) (v : ℕ) :
    (m.releaseRequestor w).Counts v (f v) := by
  have hw := (h w).references
  have hv := h v
  have hsucc : f w + one w w = f w + 1 := by simp [one]
  rw [hsucc, positive, if_neg (Nat.succ_ne_zero _)] at hw
  unfold releaseRequestor
  rw [hw]
  dsimp only
  by_cases hvw : v = w
  · subst hvw
    have hmem : v ∈ m.widened := hv.widened.mpr (by simp [one])
    split_ifs with hlt
    · refine ⟨?_, ?_⟩
      · rw [HashMap.lookup_insert, if_pos rfl, positive, if_neg (by omega), Nat.add_sub_cancel]
      · exact iff_of_true hmem (by omega)
    · have hzero : f v = 0 := by omega
      refine ⟨?_, ?_⟩
      · rw [HashMap.lookup_erase, if_pos rfl, hzero]
        rfl
      · simp [hzero]
  · have hsame : f v + one w v = f v := by simp [one, hvw]
    rw [hsame] at hv
    split_ifs
    · exact ⟨by rw [HashMap.lookup_insert, if_neg hvw, hv.references], hv.widened⟩
    · exact ⟨by rw [HashMap.lookup_erase, if_neg hvw, hv.references], by simp [hvw, hv.widened]⟩

end RequestorMonitors

/-! ### The invariant -/

def TopLevelRequest.columns (r : TopLevelRequest) : Option (List ℕ) := r.multiple.map fun m => m.pairs.map Prod.snd

def TopLevelRequest.Names (r : TopLevelRequest) (requestor property : ℕ) : Prop :=
  r.signature.requestor = requestor ∧ ∃ names ∈ r.columns, property ∈ names

/-- The transfers of a table store into different properties. A transfer for a pair of a `MULTIPLE` request stores into
the property of the pair. `flying` are the transfers that are out of the table for the moment. -/
structure Tables (flying : List SelectionTransfer) (requests : List TopLevelRequest) (nextRequestId nextTransferId : ℕ)
    (selection : List SelectionTransfer) (dnd : List (ActiveTransfer ℕ)) : Prop where
  ids : (requests.map TopLevelRequest.id).Nodup
  fresh : ∀ r ∈ requests, r.id ≤ nextRequestId
  pairs : ((flying ++ selection).map pair).Nodup
  dndPairs : (dnd.map pair).Nodup
  distinct : ∀ r ∈ requests, ∀ c ∈ r.columns, c.Nodup
  unread : ∀ r ∈ requests, r.state = .needsMultipleRead → r.columns = none
  owners : ∀ t ∈ flying ++ selection, t.owner.2.requestId ≤ nextRequestId
  owned : ∀ t ∈ flying ++ selection, ∀ i ∈ t.owner.2.multiplePair, ∀ r ∈ requests, r.id = t.owner.2.requestId →
    ∃ names ∈ r.columns, names[i]? = some t.property
  transferIds : ((flying ++ selection).map ActiveTransfer.id).Nodup
  transferFresh : ∀ t ∈ flying ++ selection, t.id ≤ nextTransferId
  apart : ∀ t ∈ flying ++ selection, t.pair ∉ dnd.map pair
  waiting : ∀ r ∈ requests, ∀ names ∈ r.columns, ∀ name ∈ names, (r.signature.requestor, name) ∉ dnd.map pair

namespace Bridge

def held {ω : Type} (table : List (ActiveTransfer ω)) (w : ℕ) : ℕ := table.countP fun t => decide (t.requestor = w)

def holders (s : Bridge) (w : ℕ) : ℕ :=
  (s.requests.countP fun r => r.requestorMonitored && decide (r.signature.requestor = w)) + held s.selection w +
    held s.dnd w

def Kept (strict : Prop) (extra : ℕ → ℕ) (flying : List SelectionTransfer) (s : Bridge) : Prop :=
  (∀ w, s.monitors.Counts w (s.holders w + extra w)) ∧
    (strict → Tables flying s.requests s.nextRequestId s.nextTransferId s.selection s.dnd)

end Bridge

namespace Tables
variable {flying selection selection' : List SelectionTransfer} {requests requests' : List TopLevelRequest}
  {next nextTransfer : ℕ} {dnd dnd' : List (ActiveTransfer ℕ)} {t : SelectionTransfer}

theorem sublist {flying' : List SelectionTransfer} (h : Tables flying requests next nextTransfer selection dnd)
    (hrequests : requests'.Sublist requests) (hmoves : (flying' ++ selection').Sublist (flying ++ selection))
    (hdnd : dnd'.Sublist dnd) : Tables flying' requests' next nextTransfer selection' dnd' where
  ids := h.ids.sublist (hrequests.map _)
  fresh r hr := h.fresh r (hrequests.subset hr)
  pairs := h.pairs.sublist (hmoves.map _)
  dndPairs := h.dndPairs.sublist (hdnd.map _)
  distinct r hr := h.distinct r (hrequests.subset hr)
  unread r hr := h.unread r (hrequests.subset hr)
  owners t ht := h.owners t (hmoves.subset ht)
  owned t ht i hi r hr := h.owned t (hmoves.subset ht) i hi r (hrequests.subset hr)
  transferIds := h.transferIds.sublist (hmoves.map _)
  transferFresh t ht := h.transferFresh t (hmoves.subset ht)
  apart t ht hin := h.apart t (hmoves.subset ht) ((hdnd.map _).subset hin)
  waiting r hr names hnames name hname hin :=
    h.waiting r (hrequests.subset hr) names hnames name hname ((hdnd.map _).subset hin)

theorem moved {flying' : List SelectionTransfer} (h : Tables flying requests next nextTransfer selection dnd)
    (hperm : ((flying' ++ selection').map fun t => (t.id, t.pair, t.owner)).Perm
      ((flying ++ selection).map fun t => (t.id, t.pair, t.owner))) :
        Tables flying' requests next nextTransfer selection' dnd := by
  have hback : ∀ t ∈ flying' ++ selection', ∃ t' ∈ flying ++ selection,
      t'.id = t.id ∧ t'.pair = t.pair ∧ t'.owner = t.owner := by
    intro t ht
    obtain ⟨t', ht', heq⟩ := List.mem_map.mp (hperm.subset (List.mem_map_of_mem ht))
    rw [Prod.mk.injEq, Prod.mk.injEq] at heq
    exact ⟨t', ht', heq⟩
  refine ⟨h.ids, h.fresh, ?_, h.dndPairs, h.distinct, h.unread, ?_, ?_, ?_, ?_, ?_, h.waiting⟩
  · have hpairs := hperm.map fun key => key.2.1
    rw [List.map_map, List.map_map] at hpairs
    exact hpairs.nodup_iff.mpr h.pairs
  · intro t ht
    obtain ⟨t', ht', -, -, howner⟩ := hback t ht
    rw [← howner]
    exact h.owners t' ht'
  · intro t ht i hi r hr hid
    obtain ⟨t', ht', -, hpair, howner⟩ := hback t ht
    rw [← howner] at hi hid
    rw [show t.property = t'.property from congrArg Prod.snd hpair.symm]
    exact h.owned t' ht' i hi r hr hid
  · have hids := hperm.map Prod.fst
    rw [List.map_map, List.map_map] at hids
    exact hids.nodup_iff.mpr h.transferIds
  · intro t ht
    obtain ⟨t', ht', hid, -, -⟩ := hback t ht
    rw [← hid]
    exact h.transferFresh t' ht'
  · intro t ht
    obtain ⟨t', ht', -, hpair, -⟩ := hback t ht
    rw [← hpair]
    exact h.apart t' ht'

theorem modify (h : Tables flying requests next nextTransfer selection dnd) {id : ℕ}
    {f : TopLevelRequest → TopLevelRequest}
    (hid : ∀ r, (f r).id = r.id) (hkeep : ∀ r ∈ requests, r.id = id → ∀ names ∈ r.columns, names ∈ (f r).columns)
    (hnodup : ∀ r ∈ requests, r.id = id → ∀ names ∈ (f r).columns, names.Nodup)
    (hstate : ∀ r ∈ requests, r.id = id → (f r).state = .needsMultipleRead → (f r).columns = none)
    (hwaiting : ∀ r ∈ requests, r.id = id → ∀ names ∈ (f r).columns, ∀ name ∈ names,
      ((f r).signature.requestor, name) ∉ dnd.map pair) :
    Tables flying (requests.map fun r => if r.id = id then f r else r) next nextTransfer selection dnd := by
  have hsame : ∀ r : TopLevelRequest, (if r.id = id then f r else r).id = r.id := by
    intro r
    split_ifs
    · exact hid r
    · rfl
  have hids : (requests.map fun r => if r.id = id then f r else r).map TopLevelRequest.id =
      requests.map TopLevelRequest.id := by
    rw [List.map_map]
    exact List.map_congr_left fun r _ => hsame r
  refine ⟨hids ▸ h.ids, ?_, h.pairs, h.dndPairs, ?_, ?_, h.owners, ?_, h.transferIds, h.transferFresh, h.apart, ?_⟩
  · simp only [List.forall_mem_map, hsame]
    exact h.fresh
  · simp only [List.forall_mem_map]
    intro r hr
    split_ifs with hrid
    · exact hnodup r hr hrid
    · exact h.distinct r hr
  · simp only [List.forall_mem_map]
    intro r hr
    split_ifs with hrid
    · exact hstate r hr hrid
    · exact h.unread r hr
  · simp only [List.forall_mem_map, hsame]
    intro t ht i hi r hr hown
    obtain ⟨names, hnames, hget⟩ := h.owned t ht i hi r hr hown
    split_ifs with hrid
    · exact ⟨names, hkeep r hr hrid names hnames, hget⟩
    · exact ⟨names, hnames, hget⟩
  · simp only [List.forall_mem_map]
    intro r hr
    split_ifs with hrid
    · exact hwaiting r hr hrid
    · exact h.waiting r hr

theorem newRequest (h : Tables flying requests next nextTransfer selection dnd) {r : TopLevelRequest}
    (hid : r.id = next + 1)
    (hnone : r.multiple = none) : Tables flying (requests ++ [r]) (next + 1) nextTransfer selection dnd := by
  have hcolumns : r.columns = none := by rw [TopLevelRequest.columns, hnone]; rfl
  refine ⟨?_, ?_, h.pairs, h.dndPairs, ?_, ?_, fun t ht => (h.owners t ht).trans (Nat.le_succ _), ?_, h.transferIds,
    h.transferFresh, h.apart, ?_⟩
  · rw [List.map_append, List.nodup_append]
    refine ⟨h.ids, List.nodup_singleton _, ?_⟩
    simp only [List.map_cons, List.map_nil, List.mem_singleton, forall_eq, List.forall_mem_map]
    intro q hq heq
    exact absurd (h.fresh q hq) (by omega)
  · simp only [List.forall_mem_append, List.forall_mem_singleton, hid, le_refl, and_true]
    exact fun q hq => (h.fresh q hq).trans (Nat.le_succ _)
  · simp only [List.forall_mem_append, List.forall_mem_singleton, hcolumns]
    exact ⟨h.distinct, fun _ hc => by cases hc⟩
  · simp only [List.forall_mem_append, List.forall_mem_singleton, hcolumns]
    exact ⟨h.unread, fun _ => trivial⟩
  · intro t ht i hi
    rw [List.forall_mem_append, List.forall_mem_singleton]
    refine ⟨h.owned t ht i hi, fun heq => ?_⟩
    exact absurd (h.owners t ht) (by omega)
  · simp only [List.forall_mem_append, List.forall_mem_singleton, hcolumns]
    exact ⟨h.waiting, fun _ hc => by cases hc⟩

theorem start (h : Tables flying requests next nextTransfer selection dnd)
    (hpair : ∀ u ∈ flying ++ selection, u.pair ≠ t.pair) (hnext : t.owner.2.requestId ≤ next)
    (howned : ∀ i ∈ t.owner.2.multiplePair, ∀ r ∈ requests, r.id = t.owner.2.requestId →
      ∃ names ∈ r.columns, names[i]? = some t.property)
    (hid : t.id = nextTransfer + 1) (hapart : t.pair ∉ dnd.map pair) :
    Tables flying requests next (nextTransfer + 1) (putTransfer t selection) dnd := by
  have hperm : (flying ++ putTransfer t selection).Perm (t :: (flying ++ selection)) :=
    ((List.perm_orderedInsert _ t selection).append_left flying).trans List.perm_middle
  have hmem : ∀ u, u ∈ flying ++ putTransfer t selection → u = t ∨ u ∈ flying ++ selection :=
    fun u hu => List.mem_cons.mp (hperm.subset hu)
  refine ⟨h.ids, h.fresh, ?_, h.dndPairs, h.distinct, h.unread, ?_, ?_, ?_, ?_, ?_, h.waiting⟩
  · rw [(hperm.map _).nodup_iff, List.map_cons, List.nodup_cons]
    refine ⟨fun hin => ?_, h.pairs⟩
    obtain ⟨u, hu, heq⟩ := List.mem_map.mp hin
    exact hpair u hu heq
  · intro u hu
    rcases hmem u hu with rfl | hu
    · exact hnext
    · exact h.owners u hu
  · intro u hu
    rcases hmem u hu with rfl | hu
    · exact howned
    · exact h.owned u hu
  · rw [(hperm.map _).nodup_iff, List.map_cons, List.nodup_cons]
    refine ⟨fun hin => ?_, h.transferIds⟩
    obtain ⟨u, hu, heq⟩ := List.mem_map.mp hin
    have hle := h.transferFresh u hu
    omega
  · intro u hu
    rcases hmem u hu with rfl | hu
    · exact hid.le
    · exact (h.transferFresh u hu).trans (Nat.le_succ _)
  · intro u hu
    rcases hmem u hu with rfl | hu
    · exact hapart
    · exact h.apart u hu

theorem movedDnd (h : Tables flying requests next nextTransfer selection dnd)
    (hperm : (dnd'.map pair).Perm (dnd.map pair)) : Tables flying requests next nextTransfer selection dnd' :=
  ⟨h.ids, h.fresh, h.pairs, hperm.nodup_iff.mpr h.dndPairs, h.distinct, h.unread, h.owners, h.owned, h.transferIds,
    h.transferFresh, fun t ht hin => h.apart t ht (hperm.subset hin),
    fun r hr names hnames name hname hin => h.waiting r hr names hnames name hname (hperm.subset hin)⟩

theorem startDnd (h : Tables flying requests next nextTransfer selection dnd) {t : ActiveTransfer ℕ}
    (hpair : ∀ u ∈ dnd, u.pair ≠ t.pair) (hapart : ∀ u ∈ flying ++ selection, u.pair ≠ t.pair)
    (hwaiting : ∀ r ∈ requests, ∀ names ∈ r.columns, ∀ name ∈ names, (r.signature.requestor, name) ≠ t.pair) :
    Tables flying requests next nextTransfer selection (putTransfer t dnd) := by
  have hperm : ((putTransfer t dnd).map pair).Perm (t.pair :: dnd.map pair) :=
    (List.perm_orderedInsert _ t dnd).map pair
  refine ⟨h.ids, h.fresh, h.pairs, ?_, h.distinct, h.unread, h.owners, h.owned, h.transferIds, h.transferFresh,
    fun u hu hin => ?_, fun r hr names hnames name hname hin => ?_⟩
  · rw [hperm.nodup_iff, List.nodup_cons]
    refine ⟨fun hin => ?_, h.dndPairs⟩
    obtain ⟨u, hu, heq⟩ := List.mem_map.mp hin
    exact hpair u hu heq
  · exact (List.mem_cons.mp (hperm.subset hin)).elim (hapart u hu) (h.apart u hu)
  · exact (List.mem_cons.mp (hperm.subset hin)).elim (hwaiting r hr names hnames name hname)
      (h.waiting r hr names hnames name hname)

end Tables

namespace Bridge
variable {strict : Prop} {extra : ℕ → ℕ} {flying : List SelectionTransfer} {s : Bridge} {env : Surroundings}

theorem held_putTransfer {ω : Type} (t : ActiveTransfer ω) (table : List (ActiveTransfer ω)) (w : ℕ) :
    held (putTransfer t table) w = held table w + one t.requestor w := by
  rw [held, putTransfer, (List.perm_orderedInsert _ t table).countP_eq, List.countP_cons]
  simp [held, one, eq_comm]

theorem held_eraseP {ω : Type} {p : ActiveTransfer ω → Bool} {t : ActiveTransfer ω} {table : List (ActiveTransfer ω)}
    (h : table.find? p = some t) (w : ℕ) : held table w = held (table.eraseP p) w + one t.requestor w := by
  rw [held, (perm_cons_eraseP h).countP_eq, List.countP_cons]
  simp [held, one, eq_comm]

/-! ### Moves between the tables -/

theorem Kept.move {s' : Bridge} {extra' : ℕ → ℕ} {flying' : List SelectionTransfer} (h : s.Kept strict extra flying)
    (hmonitors : s'.monitors = s.monitors) (hcount : ∀ v, s'.holders v + extra' v = s.holders v + extra v)
    (htables : strict → Tables flying s.requests s.nextRequestId s.nextTransferId s.selection s.dnd →
      Tables flying' s'.requests s'.nextRequestId s'.nextTransferId s'.selection s'.dnd) :
        s'.Kept strict extra' flying' := by
  refine ⟨fun v => ?_, fun hs => htables hs (h.2 hs)⟩
  rw [hcount, hmonitors]
  exact h.1 v

theorem Kept.releaseRequestor {w : ℕ} (h : s.Kept strict (fun v => extra v + one w v) flying) :
    (s.releaseRequestor w).Kept strict extra flying := by
  refine ⟨RequestorMonitors.releaseRequestor_counts fun v => ?_, h.2⟩
  rw [Nat.add_assoc]
  exact h.1 v

theorem Kept.releaseAll {ws : List ℕ} (h : s.Kept strict (fun v => extra v + ws.count v) flying) :
    (s.releaseAll ws).Kept strict extra flying := by
  induction ws generalizing s with
  | nil =>
    simp only [List.count_nil, Nat.add_zero] at h
    exact h
  | cons w ws ih =>
    refine ih (Kept.releaseRequestor (h.move rfl (fun v => ?_) fun _ ht => ht))
    have hcount : (w :: ws).count v = ws.count v + one w v := by
      by_cases hv : v = w
      · simp [one, hv]
      · simp [one, hv, Ne.symm hv]
    rw [hcount, Nat.add_assoc]

theorem Kept.removeRequest {r : TopLevelRequest} (h : s.Kept strict extra flying) (hr : s.request r.id = some r) :
    (s.removeRequest r).Kept strict extra flying := by
  have hperm := perm_cons_eraseP hr
  have herased : Kept strict (fun v => extra v + if r.requestorMonitored then one r.signature.requestor v else 0) flying
      { s with requests := s.requests.eraseP fun q => decide (q.id = r.id) } := by
    refine h.move rfl (fun v => ?_) fun _ ht => ht.sublist List.eraseP_sublist (.refl _) (.refl _)
    simp only [holders]
    rw [hperm.countP_eq, List.countP_cons]
    cases r.requestorMonitored <;> simp [one, eq_comm]
    omega
  unfold Bridge.removeRequest
  dsimp only
  split_ifs with hmonitored
  · simp only [hmonitored, if_true] at herased
    exact herased.releaseRequestor
  · simpa only [hmonitored, Bool.false_eq_true, if_false, Nat.add_zero] using herased

theorem Kept.flushQueue {ids : List ℕ} (h : s.Kept strict extra flying) :
    (Bridge.flushQueue ids s).1.Kept strict extra flying := by
  induction ids generalizing s with
  | nil => exact h
  | cons id ids ih =>
    unfold Bridge.flushQueue
    cases hr : s.request id with
    | none => exact ih h
    | some r =>
      have hid : r.id = id := by simpa using List.find?_some hr
      dsimp only
      split_ifs
      · exact ih (h.removeRequest (hid ▸ hr))
      · exact h

theorem Kept.flushOrderedNotifies (h : s.Kept strict extra flying) :
    s.flushOrderedNotifies.Kept strict extra flying := by
  have hfold : ∀ (orders : List (NotificationSignature × List ℕ))
      (acc : Bridge × List (NotificationSignature × List ℕ)),
      acc.1.Kept strict extra flying → (orders.foldl flushOrder acc).1.Kept strict extra flying := by
    intro orders
    induction orders with
    | nil => exact fun _ hacc => hacc
    | cons order orders ih => exact fun acc hacc => ih _ hacc.flushQueue
  exact hfold s.notificationOrder (s, []) h

/-! ### Requests that go on -/

structure Progress (f : TopLevelRequest → TopLevelRequest) : Prop where
  id : ∀ r, (f r).id = r.id
  signature : ∀ r, (f r).signature = r.signature
  monitored : ∀ r, (f r).requestorMonitored = r.requestorMonitored
  columns : ∀ r, (f r).columns = r.columns
  state : ∀ r, (f r).state = .needsMultipleRead → r.state = .needsMultipleRead

theorem progress_state {state : RequestState} (h : state ≠ .needsMultipleRead) :
    Progress fun r => { r with state } :=
  ⟨fun _ => rfl, fun _ => rfl, fun _ => rfl, fun _ => rfl, fun _ hs => absurd hs h⟩

theorem ready_ne (success : Bool) : RequestState.ready success ≠ .needsMultipleRead := by
  cases success <;> decide

theorem columns_settlePair (success : Bool) (r : TopLevelRequest) : (settlePair success r).columns = r.columns := by
  unfold settlePair TopLevelRequest.columns
  cases r.multiple with
  | none => rfl
  | some m =>
    cases success with
    | true => rfl
    | false =>
      refine congrArg some (List.ext_getElem? fun i => ?_)
      dsimp only
      rw [List.getElem?_map, List.getElem?_map, if_neg Bool.false_ne_true, List.getElem?_modify]
      split_ifs <;> cases m.pairs[i]? <;> rfl

theorem progress_settlePair (success : Bool) : Progress (settlePair success) :=
  ⟨fun _ => rfl, fun _ => rfl, fun _ => rfl, columns_settlePair success, fun _ hs => hs⟩

variable {id : ℕ}

theorem holders_modifyRequest {f : TopLevelRequest → TopLevelRequest}
    (hf : ∀ r, (f r).signature = r.signature ∧ (f r).requestorMonitored = r.requestorMonitored) (v : ℕ) :
    (s.modifyRequest id f).holders v = s.holders v := by
  unfold holders modifyRequest
  dsimp only
  rw [List.countP_map]
  congr 3
  funext r
  dsimp only [Function.comp_apply]
  split_ifs
  · rw [(hf r).1, (hf r).2]
  · rfl

theorem Kept.modifyRequest {f : TopLevelRequest → TopLevelRequest} (h : s.Kept strict extra flying)
    (hf : Progress f) : (s.modifyRequest id f).Kept strict extra flying := by
  refine h.move rfl (fun v => ?_) fun _ ht => ht.modify hf.id ?_ ?_ ?_ ?_
  · rw [holders_modifyRequest fun r => ⟨hf.signature r, hf.monitored r⟩]
  · exact fun r _ _ names hnames => (hf.columns r).symm ▸ hnames
  · exact fun r hr _ names hnames => ht.distinct r hr names (hf.columns r ▸ hnames)
  · exact fun r hr _ hs => (hf.columns r).trans (ht.unread r hr (hf.state r hs))
  · exact fun r hr _ names hnames => hf.signature r ▸ ht.waiting r hr names (hf.columns r ▸ hnames)

theorem Kept.setReady {success : Bool} (h : s.Kept strict extra flying) :
    (s.setReady id success).Kept strict extra flying := by
  unfold Bridge.setReady
  cases s.request id with
  | none => exact h
  | some r => exact (h.modifyRequest (progress_state (ready_ne success))).flushOrderedNotifies

/-! ### Conversions -/

def Startable (flying : List SelectionTransfer) (s : Bridge) (requestor property : ℕ) (owner : ConversionOwner) :
    Prop :=
  (∀ u ∈ flying, u.pair ≠ (requestor, property)) ∧ (requestor, property) ∉ s.dnd.map pair ∧
    owner.requestId ≤ s.nextRequestId ∧ ∀ i ∈ owner.multiplePair, ∀ r ∈ s.requests, r.id = owner.requestId →
      ∃ names ∈ r.columns, names[i]? = some property

theorem Kept.startTransfer (env : Surroundings) (kind : SelectionKind) {requestor property : ℕ}
    {owner : ConversionOwner} (h : s.Kept strict extra flying)
      (hstart : strict → Startable flying s requestor property owner) :
    (s.startTransfer env kind requestor property owner).1.Kept strict extra flying ∧
      (s.startTransfer env kind requestor property owner).1.requests = s.requests := by
  unfold Bridge.startTransfer
  split_ifs with hbusy
  · exact ⟨h, rfl⟩
  · cases OutgoingTransfer.start env.maximumRequestBytes <;> exact ⟨h, rfl⟩
  cases OutgoingTransfer.start env.maximumRequestBytes with
  | none => exact ⟨h, rfl⟩
  | some transport =>
    dsimp only
    rcases hm : s.monitors.retainRequestor env.internal requestor with ⟨monitors, retained⟩
    cases retained with
    | false => exact ⟨h, rfl⟩
    | true =>
      refine ⟨⟨fun v => ?_, fun hs => ?_⟩, rfl⟩
      · have hcounts := RequestorMonitors.retainRequestor_true hm h.1 v
        simp only [holders, held_putTransfer]
        convert hcounts using 1
        simp only [holders]
        omega
      · obtain ⟨hflying, hdnd, hnext, howned⟩ := hstart hs
        refine (h.2 hs).start (fun u hu => ?_) hnext howned rfl hdnd
        rcases List.mem_append.mp hu with hu | hu
        · exact hflying u hu
        · intro hpair
          refine hbusy (.inr (.inr (.inr ?_)))
          exact List.any_eq_true.mpr ⟨u, hu, decide_eq_true hpair⟩

theorem Kept.startConversion (env : Surroundings) (target : ℕ) {r : TopLevelRequest} {property : ℕ}
    {multiplePair : Option ℕ} (h : s.Kept strict extra flying)
    (hstart : strict → Startable flying s r.signature.requestor property ⟨r.id, multiplePair⟩) :
    (s.startConversion env r target property multiplePair).1.Kept strict extra flying ∧
      (s.startConversion env r target property multiplePair).1.requests = s.requests := by
  unfold Bridge.startConversion
  split_ifs
  · exact ⟨h, rfl⟩
  · exact ⟨h, rfl⟩
  cases env.binding target with
  | stored => exact ⟨h, rfl⟩
  | unsupported => exact ⟨h, rfl⟩
  | transfer =>
    have hkept := h.startTransfer env r.kind hstart
    dsimp only
    rcases hs : s.startTransfer env r.kind r.signature.requestor property ⟨r.id, multiplePair⟩ with ⟨s', started⟩
    rw [hs] at hkept
    cases started <;> exact hkept

theorem Kept.advancePairs {id index : ℕ} {pairs : List (ℕ × ℕ)} (h : s.Kept strict extra flying)
    (hcolumns : strict → ∀ r ∈ s.requests, r.id = id → ∃ names ∈ r.columns, names.drop index = pairs.map Prod.snd)
    (hfree : strict → ∀ t ∈ flying, t.property ∉ pairs.map Prod.snd) :
    (s.advancePairs env id pairs index).Kept strict extra flying := by
  induction pairs generalizing s index with
  | nil => exact h.setReady
  | cons pair pairs ih =>
    obtain ⟨target, property⟩ := pair
    unfold Bridge.advancePairs
    cases hr : s.request id with
    | none => exact h
    | some r =>
      have hid : r.id = id := by simpa using List.find?_some hr
      have hmem : r ∈ s.requests := List.mem_of_find?_eq_some hr
      have hstart : strict → Startable flying s r.signature.requestor property ⟨r.id, some index⟩ := by
        intro hs
        refine ⟨fun u hu heq => ?_, ?_, (h.2 hs).fresh r hmem, ?_⟩
        · exact hfree hs u hu (by simp [show u.property = property from congrArg Prod.snd heq])
        · obtain ⟨names, hnames, hdrop⟩ := hcolumns hs r hmem hid
          refine (h.2 hs).waiting r hmem names hnames property (List.mem_of_mem_drop (i := index) ?_)
          rw [hdrop]
          exact List.mem_cons_self
        · rintro _ ⟨⟩ q hq hqid
          obtain ⟨names, hnames, hdrop⟩ := hcolumns hs q hq (hqid.trans hid)
          refine ⟨names, hnames, ?_⟩
          have hhead := congrArg (·[0]?) hdrop
          simpa using hhead
      have hkept := h.startConversion env target hstart
      dsimp only
      rcases hc : s.startConversion env r target property (some index) with ⟨s', start⟩
      rw [hc] at hkept
      cases start with
      | waiting => exact hkept.1.modifyRequest (progress_state (by decide))
      | ready success =>
        refine ih (hkept.1.modifyRequest (progress_settlePair success)) (fun hs q hq hqid => ?_) fun hs t ht hin => ?_
        · obtain ⟨q', hq', rfl⟩ := List.mem_map.mp hq
          rw [hkept.2] at hq'
          have hsame : (if q'.id = id then settlePair success q' else q').columns = q'.columns := by
            split_ifs
            · exact columns_settlePair success q'
            · rfl
          have hq'id : q'.id = id := by
            split_ifs at hqid with hq'id
            · exact hq'id
            · exact hqid
          obtain ⟨names, hnames, hdrop⟩ := hcolumns hs q' hq' hq'id
          refine ⟨names, hsame ▸ hnames, ?_⟩
          rw [← List.drop_drop, hdrop]
          rfl
        · exact hfree hs t ht (List.mem_cons_of_mem _ hin)

theorem Kept.advanceMultiple (h : s.Kept strict extra flying)
    (hfree : strict → ∀ t ∈ flying, ∀ r ∈ s.requests, r.id = id → ∀ m ∈ r.multiple,
      t.property ∉ (m.pairs.map Prod.snd).drop m.cursor) : (s.advanceMultiple env id).Kept strict extra flying := by
  unfold Bridge.advanceMultiple
  cases hm : (s.request id).bind (·.multiple) with
  | none => exact h
  | some m =>
    obtain ⟨r, hr, hmultiple⟩ := Option.bind_eq_some_iff.mp hm
    have hid : r.id = id := by simpa using List.find?_some hr
    have hmem : r ∈ s.requests := List.mem_of_find?_eq_some hr
    dsimp only
    split_ifs
    · refine h.advancePairs (fun hs q hq hqid => ?_) fun hs t ht => ?_
      · obtain rfl : q = r := List.inj_on_of_nodup_map (h.2 hs).ids hq hmem (hqid.trans hid.symm)
        refine ⟨m.pairs.map Prod.snd, ?_, List.map_drop.symm⟩
        rw [TopLevelRequest.columns, hmultiple]
        rfl
      · rw [List.map_drop]
        exact hfree hs t ht r hmem hid m hmultiple
    · exact h

theorem Kept.conversionReady {owner : ConversionOwner} {success : Bool} (h : s.Kept strict extra flying)
    (hflying : ∀ t ∈ flying, t.owner.2 = owner) : (s.conversionReady env owner success).Kept strict extra flying := by
  unfold Bridge.conversionReady
  rcases hr : s.request owner.requestId with _ | r
  · exact h
  rcases hpair : owner.multiplePair with _ | pair
  · exact (h.modifyRequest (progress_state (ready_ne success))).flushOrderedNotifies
  have hid : r.id = owner.requestId := by simpa using List.find?_some hr
  have hmem : r ∈ s.requests := List.mem_of_find?_eq_some hr
  dsimp only
  cases hm : r.multiple with
  | none => exact h
  | some m =>
    dsimp only
    split_ifs with hcursor
    · exact h
    rw [not_or, not_not] at hcursor
    have hprogress : Progress fun r => { settlePair success r with state := .processingMultiple } :=
      ⟨fun _ => rfl, fun _ => rfl, fun _ => rfl, columns_settlePair success, fun _ hs => by cases hs⟩
    refine (h.modifyRequest hprogress).advanceMultiple fun hs t ht q hq hqid m' hm' => ?_
    -- the pair of the transfer is the one before the cursor
    obtain ⟨q', hq', rfl⟩ := List.mem_map.mp hq
    have hq'id : q'.id = owner.requestId := by
      split_ifs at hqid with hq'id
      · exact hq'id
      · exact hqid
    obtain rfl : q' = r := List.inj_on_of_nodup_map (h.2 hs).ids hq' hmem (hq'id.trans hid.symm)
    rw [if_pos hq'id] at hm'
    have hcolumn : m'.pairs.map Prod.snd = m.pairs.map Prod.snd := by
      have hsame := columns_settlePair success q'
      rw [TopLevelRequest.columns, TopLevelRequest.columns, hm, show (settlePair success q').multiple =
        some m' from hm'] at hsame
      exact Option.some.inj hsame
    have hnext : m'.cursor = pair + 1 := by
      simp only [settlePair, hm, Option.map_some, Option.mem_def, Option.some.injEq] at hm'
      rw [← hm', ← hcursor.1]
    obtain ⟨names, hnames, hget⟩ := (h.2 hs).owned t (List.mem_append_left _ ht) pair
      (by rw [hflying t ht, hpair]; rfl) q' hmem (by rw [hflying t ht, hid])
    obtain rfl : m.pairs.map Prod.snd = names := by
      rw [TopLevelRequest.columns, hm] at hnames
      exact Option.some.inj hnames
    rw [hcolumn, hnext]
    exact Nodup.not_mem_drop ((h.2 hs).distinct q' hmem _ hnames) hget

/-! ### Transfers -/

theorem held_filter {ω : Type} (p : ActiveTransfer ω → Bool) (table : List (ActiveTransfer ω)) (w : ℕ) :
    held (table.filter fun t => !p t) w + ((table.filter p).map requestor).count w = held table w := by
  induction table with
  | nil => rfl
  | cons t table ih =>
    unfold held at ih ⊢
    cases hp : p t <;> simp [hp, List.countP_cons, List.count_cons] <;> omega

variable {t : SelectionTransfer}

theorem Kept.takeTransfer {s' : Bridge} (h : s.Kept strict extra [])
    (ht : s.takeTransfer id = some (t, s')) : s'.Kept strict (fun v => extra v + one t.requestor v) [t] := by
  obtain ⟨u, hu, heq⟩ := Option.map_eq_some_iff.mp ht
  cases heq
  refine h.move rfl (fun v => ?_) fun _ htables => htables.moved ((perm_cons_eraseP hu).map _).symm
  simp only [holders, held_eraseP hu v]
  omega

theorem Kept.land (h : s.Kept strict (fun v => extra v + one t.requestor v) [t]) :
    (s.releaseRequestor t.requestor).Kept strict extra [] :=
  Kept.releaseRequestor
    (h.move rfl (fun _ => rfl) fun _ ht => ht.sublist (.refl _) (List.sublist_cons_self _ _) (.refl _))

theorem Kept.settleTransfer {transport : Option OutgoingTransfer}
    (h : s.Kept strict (fun v => extra v + one t.requestor v) [t]) :
    (s.settleTransfer t transport).Kept strict extra [] := by
  cases transport with
  | none => exact h.land
  | some transport =>
    refine h.move rfl (fun v => ?_) fun _ ht => ht.moved ((List.perm_orderedInsert _ _ _).map _)
    simp only [holders, Bridge.settleTransfer, held_putTransfer]
    omega

theorem Kept.pumpTransfer {pump : OutgoingTransfer → Option OutgoingTransfer × List UInt8 × List PropertyEvent}
    (h : s.Kept strict extra []) : (s.pumpTransfer env id pump).Kept strict extra [] := by
  unfold Bridge.pumpTransfer
  rcases ht : s.takeTransfer id with _ | ⟨t, s'⟩
  · exact h
  have htaken := h.takeTransfer ht
  refine Kept.settleTransfer ?_
  cases conversionOutcome t.transport (pump t.transport) with
  | none => exact htaken
  | some success => exact htaken.conversionReady fun u hu => by rw [List.mem_singleton.mp hu]

theorem Kept.expireTransfer (h : s.Kept strict extra []) : (s.expireTransfer env id).Kept strict extra [] := by
  unfold Bridge.expireTransfer
  rcases ht : s.takeTransfer id with _ | ⟨t, s'⟩
  · exact h
  have htaken := h.takeTransfer ht
  refine Kept.land ?_
  split_ifs
  · exact htaken
  · refine Kept.conversionReady ?_ fun u hu => by rw [List.mem_singleton.mp hu]
    exact htaken

theorem Kept.dropTransfers {p : SelectionTransfer → Bool} (h : s.Kept strict extra []) :
    (s.dropTransfers p).Kept strict extra [] := by
  refine Kept.releaseAll (h.move rfl (fun v => ?_) fun _ ht => ht.sublist (.refl _) List.filter_sublist (.refl _))
  have hsplit : held (List.filter (α := SelectionTransfer) (fun t => !p t) s.selection) v +
      ((s.selection.filter p).map requestor).count v = held s.selection v := held_filter p s.selection v
  simp only [holders]
  omega

theorem Kept.dropDndTransfers {p : ActiveTransfer ℕ → Bool} (h : s.Kept strict extra flying) :
    (s.dropDndTransfers p).Kept strict extra flying := by
  refine Kept.releaseAll (h.move rfl (fun v => ?_) fun _ ht => ht.sublist (.refl _) (.refl _) List.filter_sublist)
  simp only [holders, ← held_filter p s.dnd v]
  omega

theorem Kept.pumpDndTransfer {p : ActiveTransfer ℕ → Bool} {pump : OutgoingTransfer → Option OutgoingTransfer}
    (h : s.Kept strict extra flying) : (s.pumpDndTransfer p pump).Kept strict extra flying := by
  unfold Bridge.pumpDndTransfer
  cases ht : s.dnd.find? p with
  | none => exact h
  | some t =>
    dsimp only
    cases pump t.transport with
    | none =>
      refine Kept.releaseRequestor (h.move rfl (fun v => ?_) fun _ htables =>
        htables.sublist (.refl _) (.refl _) List.eraseP_sublist)
      simp only [holders, held_eraseP ht v]
      omega
    | some transport =>
      refine h.move rfl (fun v => ?_) fun _ htables => htables.movedDnd ?_
      · simp only [holders, held_eraseP ht v, held_putTransfer]
      · refine ((List.perm_orderedInsert _ _ _).map pair).trans ?_
        exact ((perm_cons_eraseP ht).map pair).symm

theorem Kept.startDndTransfer {source requestor property : ℕ} (h : s.Kept strict extra flying)
    (hapart : strict → (∀ u ∈ flying ++ s.selection, u.pair ≠ (requestor, property)) ∧
      ∀ r ∈ s.requests, ¬r.Names requestor property) :
    (s.startDndTransfer env source requestor property).Kept strict extra flying := by
  unfold Bridge.startDndTransfer
  by_cases hbusy : env.active = false ∨ maxActiveDndTransfers ≤ s.dnd.length ∨
      maxPendingDndRequests ≤ s.dndRequests.length ∨ s.dnd.any fun t => decide (t.pair = (requestor, property))
  · rw [if_pos hbusy]
    exact h
  rw [if_neg hbusy]
  cases OutgoingTransfer.start env.maximumRequestBytes with
  | none => exact h
  | some transport =>
    dsimp only
    by_cases hlast : U64.top ≤ s.nextTransferSerial
    · rw [if_pos hlast]
      exact h
    rw [if_neg hlast]
    rcases hm : s.monitors.retainRequestor env.internal requestor with ⟨monitors, retained⟩
    cases retained with
    | false => exact h
    | true =>
      have hcounts := RequestorMonitors.retainRequestor_true hm h.1
      dsimp only
      split_ifs
      · refine Kept.releaseRequestor ⟨fun v => ?_, h.2⟩
        rw [← Nat.add_assoc]
        exact hcounts v
      · refine ⟨fun v => ?_, fun hs => (h.2 hs).startDnd (fun u hu hpair => ?_) (hapart hs).1 ?_⟩
        · convert hcounts v using 1
          simp only [holders, held_putTransfer]
          omega
        · exact hbusy (.inr (.inr (.inr (List.any_eq_true.mpr ⟨u, hu, decide_eq_true hpair⟩))))
        · rintro r hr names hnames name hname heq
          obtain ⟨hrequestor, rfl⟩ := Prod.mk.inj heq
          exact (hapart hs).2 r hr ⟨hrequestor, names, hnames, hname⟩

/-! ### Events -/

theorem Kept.foldl {α : Type} {f : Bridge → α → Bridge}
    (hf : ∀ s a, s.Kept strict extra flying → (f s a).Kept strict extra flying)
    (l : List α) (h : s.Kept strict extra flying) : (l.foldl f s).Kept strict extra flying := by
  induction l generalizing s with
  | nil => exact h
  | cons a l ih => exact ih (hf s a h)

theorem removeRequest_dnd (s : Bridge) (r : TopLevelRequest) : (s.removeRequest r).dnd = s.dnd := by
  unfold Bridge.removeRequest
  dsimp only
  split_ifs <;> rfl

theorem flushQueue_dnd (ids : List ℕ) (s : Bridge) : (Bridge.flushQueue ids s).1.dnd = s.dnd := by
  induction ids generalizing s with
  | nil => rfl
  | cons id ids ih =>
    unfold Bridge.flushQueue
    split
    · exact ih s
    · split_ifs
      · exact (ih _).trans (removeRequest_dnd s _)
      · rfl

theorem flushOrderedNotifies_dnd (s : Bridge) : s.flushOrderedNotifies.dnd = s.dnd := by
  have hfold : ∀ (orders : List (NotificationSignature × List ℕ))
      (acc : Bridge × List (NotificationSignature × List ℕ)), (orders.foldl flushOrder acc).1.dnd = acc.1.dnd := by
    intro orders
    induction orders with
    | nil => exact fun _ => rfl
    | cons order orders ih => exact fun acc => (ih _).trans (flushQueue_dnd order.2 acc.1)
  exact hfold s.notificationOrder (s, [])

theorem evictOldest_dnd (s : Bridge) : s.evictOldest.dnd = s.dnd := by
  unfold Bridge.evictOldest
  split_ifs
  · split
    · rfl
    · rw [flushOrderedNotifies_dnd]
      unfold Bridge.setReady
      split
      · rfl
      · exact flushOrderedNotifies_dnd _
  · rfl

theorem Kept.evictOldest (h : s.Kept strict extra []) : s.evictOldest.Kept strict extra [] := by
  unfold Bridge.evictOldest
  split_ifs
  · cases s.requests.argmin (·.arrivalSequence) with
    | none => exact h
    | some oldest => exact h.dropTransfers.setReady.flushOrderedNotifies
  · exact h

theorem Kept.admitRequest (env : Surroundings) (kind : SelectionKind) (signature : NotificationSignature)
    (property : ℕ) (h : s.Kept strict extra []) :
    (s.admitRequest env kind signature property).1.Kept strict extra [] ∧
      (s.admitRequest env kind signature property).1.dnd = s.dnd ∧ ∀ r ∈ (s.admitRequest env kind signature property).2,
        r.signature = signature ∧ r.id ≤ (s.admitRequest env kind signature property).1.nextRequestId ∧
        (strict → ∀ q ∈ (s.admitRequest env kind signature property).1.requests, q.id = r.id → q.columns = none) := by
  have hevict := h.evictOldest
  rw [← evictOldest_dnd s]
  unfold Bridge.admitRequest
  dsimp only
  generalize s.evictOldest = s at hevict ⊢
  split_ifs
  · exact ⟨hevict, rfl, fun r hr => by cases hr⟩
  rcases hm : s.monitors.retainRequestor env.internal signature.requestor with ⟨monitors, monitored⟩
  refine ⟨⟨fun v => ?_, fun hs => (hevict.2 hs).newRequest rfl rfl⟩, rfl, ?_⟩
  · cases monitored with
    | false =>
      obtain rfl := RequestorMonitors.retainRequestor_false hm
      simpa [holders, List.countP_append] using hevict.1 v
    | true =>
      convert RequestorMonitors.retainRequestor_true hm hevict.1 v using 1
      simp [holders, List.countP_append, List.countP_cons, one, eq_comm]
      omega
  · rintro _ ⟨⟩
    refine ⟨rfl, le_rfl, fun hs q hq hid => ?_⟩
    rcases List.mem_append.mp hq with hq | hq
    · exact absurd ((hevict.2 hs).fresh q hq) (by rw [hid]; exact Nat.not_succ_le_self _)
    · rw [List.mem_singleton.mp hq]
      rfl

theorem Kept.handleSelectionRequest {kind : SelectionKind} {signature : NotificationSignature} {property : ℕ}
    {multiple serves : Bool} (h : s.Kept strict extra []) (hapart : strict → multiple = false →
      (signature.requestor, if property = 0 then signature.target else property) ∉ s.dnd.map pair) :
    (s.handleSelectionRequest env kind signature property multiple serves).Kept strict extra [] := by
  unfold Bridge.handleSelectionRequest
  dsimp only
  have heffective : strict → multiple = false → (signature.requestor,
      if property = 0 ∧ multiple = false then signature.target else property) ∉ s.dnd.map pair := fun hs hsingle => by
    simpa [hsingle] using hapart hs hsingle
  generalize (if property = 0 ∧ multiple = false then signature.target else property) =
    effectiveProperty at heffective ⊢
  have hadmit := h.admitRequest env kind signature effectiveProperty
  rcases hs' : s.admitRequest env kind signature effectiveProperty with ⟨s', _ | r⟩ <;> rw [hs'] at hadmit
  · exact hadmit.1
  obtain ⟨hkept, hdnd, hr⟩ := hadmit
  obtain ⟨hsignature, hid, hnone⟩ := hr r rfl
  refine Kept.flushOrderedNotifies ?_
  split_ifs with hrefused hmultiple
  · exact hkept.setReady
  · refine hkept.move rfl (fun v => ?_) fun hs ht => ht.modify (fun _ => rfl) (fun _ _ _ _ hn => hn) ?_ ?_ ?_
    · refine congrArg (· + extra v) (holders_modifyRequest ?_ v)
      exact fun _ => ⟨rfl, rfl⟩
    · exact fun q hq _ names hnames => ht.distinct q hq names hnames
    · exact fun q hq hqid _ => hnone hs q hq hqid
    · exact fun q hq _ => ht.waiting q hq
  · have hstart : strict → Startable [] s' r.signature.requestor effectiveProperty ⟨r.id, none⟩ :=
      fun hs => ⟨fun _ hu => absurd hu List.not_mem_nil,
        hsignature ▸ hdnd ▸ heffective hs (Bool.eq_false_iff.mpr hmultiple), hid, fun _ hi => by cases hi⟩
    have hconvert := hkept.startConversion env signature.target hstart
    rcases hs'' : s'.startConversion env r signature.target effectiveProperty none with ⟨s'', _ | _⟩ <;>
      rw [hs''] at hconvert
    · exact hconvert.1.setReady
    · exact hconvert.1.modifyRequest (progress_state (by decide))

theorem Kept.multipleReply {pairs : Option (List (ℕ × ℕ))} (h : s.Kept strict extra [])
    (hpairs : strict → ∀ p ∈ pairs, (p.map Prod.snd).Nodup ∧
      ∀ r ∈ s.requests, r.id = id → ∀ name ∈ p.map Prod.snd, (r.signature.requestor, name) ∉ s.dnd.map pair) :
    (s.multipleReply env id pairs).Kept strict extra [] := by
  unfold Bridge.multipleReply
  cases hr : s.request id with
  | none => exact h
  | some r =>
    have hid : r.id = id := by simpa using List.find?_some hr
    have hmem : r ∈ s.requests := List.mem_of_find?_eq_some hr
    dsimp only
    split_ifs with hstate
    · exact h
    cases pairs with
    | none => exact h.setReady
    | some pairs =>
      refine Kept.advanceMultiple (h.move rfl (fun v => ?_) fun hs ht => ht.modify (fun _ => rfl) ?_ ?_ ?_ ?_)
        fun _ _ ht => by cases ht
      · refine congrArg (· + extra v) (holders_modifyRequest ?_ v)
        exact fun _ => ⟨rfl, rfl⟩
      · intro q hq hqid names hnames
        obtain rfl : q = r := List.inj_on_of_nodup_map ht.ids hq hmem (hqid.trans hid.symm)
        rw [ht.unread q hq (not_not.mp hstate)] at hnames
        cases hnames
      · rintro q - - _ ⟨⟩
        exact (hpairs hs pairs rfl).1
      · exact fun q _ _ hneeds => by cases hneeds
      · rintro q hq hqid _ ⟨⟩
        exact (hpairs hs pairs rfl).2 q hq hqid

theorem Kept.expireRequest (h : s.Kept strict extra []) : (s.expireRequest id).Kept strict extra [] :=
  h.dropTransfers.modifyRequest (progress_state (by decide))

theorem Kept.cancelChannel {kind : SelectionKind} (h : s.Kept strict extra []) :
    (s.cancelChannel kind).Kept strict extra [] := by
  refine Kept.flushOrderedNotifies (Kept.foldl (fun s id h => h.modifyRequest (progress_state (by decide))) _ ?_)
  exact (Kept.foldl (fun s id h => h.dropTransfers) _ h).dropTransfers

theorem Kept.requestorDestroyed {requestor : ℕ} (h : s.Kept strict (fun _ => 0) []) :
    (s.requestorDestroyed requestor).Kept strict (fun _ => 0) [] := by
  have hdropped := h.dropDndTransfers (p := fun t => decide (t.requestor = requestor))
  refine ⟨fun v => ?_, fun hs => (hdropped.2 hs).sublist List.filter_sublist List.filter_sublist (.refl _)⟩
  have hv := hdropped.1 v
  by_cases hvw : v = requestor
  · have hnone : (s.requestorDestroyed requestor).holders v = 0 := by
      subst hvw
      simp [holders, held, Bridge.requestorDestroyed, Bridge.dropDndTransfers, Bridge.releaseAll, List.countP_eq_zero]
      tauto
    rw [hnone, hvw]
    exact ⟨Finmap.lookup_erase _ _, by simp [Bridge.requestorDestroyed]⟩
  · have hsame : (s.requestorDestroyed requestor).holders v =
        (s.dropDndTransfers fun t => decide (t.requestor = requestor)).holders v := by
      simp only [holders, held, Bridge.requestorDestroyed, List.countP_filter]
      congr 3 <;> funext t <;> grind
    rw [hsame]
    refine ⟨?_, ?_⟩
    · rw [← hv.references]
      exact Finmap.lookup_erase_ne hvw
    · rw [← hv.widened]
      exact Finset.mem_erase.trans (and_iff_right hvw)

theorem Kept.propertyDeleted {requestor property : ℕ} {terminalConsumed : Bool} (h : s.Kept strict extra []) :
    (s.propertyDeleted requestor property terminalConsumed).Kept strict extra [] := by
  unfold Bridge.propertyDeleted
  split_ifs
  · exact h.pumpDndTransfer
  cases s.selection.find? fun t => decide (t.pair = (requestor, property)) && t.waitsForDelete with
  | none => exact h
  | some found =>
    dsimp only
    rcases ht : s.takeTransfer found.id with _ | ⟨t, s'⟩
    · exact h
    · exact (h.takeTransfer ht).settleTransfer

/-- No `MULTIPLE` request names a property twice, and a property that a transfer of drag and drop holds is not asked for
by a clipboard request of the same window, nor the other way round. -/
def Distinct (s : Bridge) : Event → Prop
  | .selectionRequest _ _ signature property multiple _ => multiple = false →
      (signature.requestor, if property = 0 then signature.target else property) ∉ s.dnd.map pair
  | .multipleReply _ id (some pairs) => (pairs.map Prod.snd).Nodup ∧
      ∀ r ∈ s.requests, r.id = id → ∀ name ∈ pairs.map Prod.snd, (r.signature.requestor, name) ∉ s.dnd.map pair
  | .startDndTransfer _ _ requestor property => (∀ t ∈ s.selection, t.pair ≠ (requestor, property)) ∧
      ∀ r ∈ s.requests, ¬r.Names requestor property
  | _ => True

instance decidableDistinct (s : Bridge) : DecidablePred s.Distinct := fun event => by
  unfold Distinct TopLevelRequest.Names
  split <;> infer_instance

theorem Kept.step {event : Event} (h : s.Kept strict (fun _ => 0) []) (hevent : strict → s.Distinct event) :
    (s.step event).Kept strict (fun _ => 0) [] := by
  cases event with
  | selectionRequest env kind signature property multiple serves => exact h.handleSelectionRequest hevent
  | multipleReply env id pairs =>
    refine Kept.flushOrderedNotifies (h.multipleReply fun hs p hp => ?_)
    obtain rfl := hp
    exact hevent hs
  | resolveRequest | sourceReady => exact h.pumpTransfer
  | takeRequests | takeDndRequests => exact h
  | expireTransfers env expired => exact Kept.foldl (fun _ _ h => h.expireTransfer) _ h
  | expireRequests expired => exact (Kept.foldl (fun _ _ h => h.expireRequest) _ h).flushOrderedNotifies
  | cancelChannel kind => exact h.cancelChannel
  | requestorDestroyed requestor => exact h.requestorDestroyed
  | propertyDeleted => exact h.propertyDeleted
  | startDndTransfer => exact h.startDndTransfer hevent
  | resolveDndRequest | dndSourceReady => exact h.pumpDndTransfer
  | cancelDndSource | cancelDndGeneration | expireDndTransfers => exact h.dropDndTransfers

theorem foldl_step_kept {events : List Event} (hs : s.Kept strict (fun _ => 0) [])
    (h : strict → Along Bridge.step Distinct events s) : (events.foldl Bridge.step s).Kept strict (fun _ => 0) [] := by
  induction events generalizing s with
  | nil => exact hs
  | cons event events ih => exact ih (hs.step fun hstrict => (h hstrict).1) fun hstrict => (h hstrict).2

theorem run_kept {events : List Event} (h : strict → Along Bridge.step Distinct events start) :
    (run events).Kept strict (fun _ => 0) [] :=
  foldl_step_kept ⟨fun v => ⟨rfl, by simp [start, holders, held]⟩, fun _ => by constructor <;> simp [start]⟩ h

theorem requestor_monitoring_counted (events : List Event) (w : ℕ) : (run events).monitors.references.lookup w =
        (if (run events).holders w = 0 then none else some ((run events).holders w)) ∧
      (w ∈ (run events).monitors.widened ↔ (run events).holders w ≠ 0) := by
  have hkept : (run events).Kept False (fun _ => 0) [] := run_kept fun h => h.elim
  exact ⟨(hkept.1 w).references, (hkept.1 w).widened⟩

theorem find?_unique {α β : Type} [DecidableEq β] {l : List α} {f : α → β} {a : α} (h : (l.map f).Nodup) (ha : a ∈ l) :
    (l.find? fun b => decide (f b = f a)) = some a := by
  cases hb : l.find? fun b => decide (f b = f a) with
  | none => simpa using List.find?_eq_none.mp hb a ha
  | some b =>
    have hsame := List.find?_some hb
    rw [decide_eq_true_eq] at hsame
    rw [List.inj_on_of_nodup_map h (List.mem_of_find?_eq_some hb) ha hsame]

theorem find?_pair {ω : Type} {table : List (ActiveTransfer ω)} {t : ActiveTransfer ω}
    (h : (table.map pair).Nodup) (ht : t ∈ table) (hwaits : t.waitsForDelete = true) :
    (table.find? fun u => decide (u.pair = t.pair) && u.waitsForDelete) = some t := by
  cases hu : table.find? fun u => decide (u.pair = t.pair) && u.waitsForDelete with
  | none => simpa [hwaits] using List.find?_eq_none.mp hu t ht
  | some u =>
    have hpair := List.find?_some hu
    rw [Bool.and_eq_true, decide_eq_true_eq] at hpair
    rw [List.inj_on_of_nodup_map h (List.mem_of_find?_eq_some hu) ht hpair.1]

theorem propertyDeleted_dnd {t : ActiveTransfer ℕ} (h : (s.dnd.map pair).Nodup) (ht : t ∈ s.dnd)
    (hwaits : t.waitsForDelete = true) (consumed : Bool) :
    s.propertyDeleted t.requestor t.property consumed = s.pumpDndTransfer (fun u => decide (u = t)) fun transport =>
      (transport.handlePropertyDeleted .dnd consumed).1 := by
  have hfound := find?_pair h ht hwaits
  have hself : s.dnd.find? (fun u => decide (u = t)) = some t :=
    find?_unique (by rw [List.map_id']; exact h.of_map _) ht
  have hany : (s.dnd.any fun u => decide (u.pair = t.pair) && u.waitsForDelete) = true :=
    List.any_eq_true.mpr ⟨t, ht, by simp [hwaits]⟩
  change (if (s.dnd.any fun u => decide (u.pair = t.pair) && u.waitsForDelete) = true then _ else _) = _
  rw [if_pos hany]
  change s.pumpDndTransfer (fun u => decide (u.pair = t.pair) && u.waitsForDelete) _ = _
  rw [Bridge.pumpDndTransfer, Bridge.pumpDndTransfer, hfound, hself, eraseP_eq_erase hfound, eraseP_eq_erase hself]

theorem propertyDeleted_selection {t : SelectionTransfer}
    (h : Tables [] s.requests s.nextRequestId s.nextTransferId s.selection s.dnd) (ht : t ∈ s.selection)
    (hwaits : t.waitsForDelete = true) (consumed : Bool) : ∃ s', s.takeTransfer t.id = some (t, s') ∧
      s.propertyDeleted t.requestor t.property consumed = s'.settleTransfer t t.transport.propertyDeleted.1 := by
  have hfound : (s.selection.find? fun u => decide (u.pair = t.pair) && u.waitsForDelete) = some t :=
    find?_pair h.pairs ht hwaits
  have htake : s.selection.find? (fun u => decide (u.id = t.id)) = some t := find?_unique h.transferIds ht
  have hnone : ¬(s.dnd.any fun u => decide (u.pair = t.pair) && u.waitsForDelete) = true := by
    intro hany
    obtain ⟨u, hu, hpair⟩ := List.any_eq_true.mp hany
    rw [Bool.and_eq_true, decide_eq_true_eq] at hpair
    exact h.apart t ht (hpair.1 ▸ List.mem_map_of_mem hu)
  refine ⟨_, by rw [Bridge.takeTransfer, htake]; rfl, ?_⟩
  unfold Bridge.propertyDeleted
  rw [if_neg (show ¬(s.dnd.any fun u => decide (u.pair = (t.requestor, t.property)) && u.waitsForDelete) = true from
    hnone), show (s.selection.find? fun u => decide (u.pair = (t.requestor, t.property)) && u.waitsForDelete) = some t
    from hfound]
  dsimp only
  rw [Bridge.takeTransfer, htake]
  rfl

def transfers : Surroundings := ⟨fun _ => false, true, true, fun _ => .transfer, true, 16384, fun _ => true⟩

def twoTargets (first second : ℕ) : List Event :=
  [.selectionRequest transfers .clipboard ⟨7, 1, 2, 0⟩ 20 true true,
    .multipleReply transfers 1 (some [(30, first), (31, second)]),
    .resolveRequest transfers 1 (List.replicate 16320 0) true [.bytes 8191, .bytes 8191]]

end Bridge
end Typhon.Xwayland.Requestors
