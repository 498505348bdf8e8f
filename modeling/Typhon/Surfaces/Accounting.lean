import Typhon.Foundation.Machine
import Typhon.Surfaces.Cache

/-! The counters of the synchronized cache against a recount of the cached commits. -/

namespace Typhon.Surfaces
open Foundation SurfaceTransactionState HashMap

def nonzero (n : ℕ) : Option ℕ := if n = 0 then none else some n

theorem getD_nonzero (n : ℕ) : (nonzero n).getD 0 = n := by
  rw [nonzero]
  split_ifs with h
  · exact h.symm
  · rfl

namespace SubsurfaceRoleState

def entries (role : SubsurfaceRoleState) : ℕ := role.cachedCommits.length

def obligations (role : SubsurfaceRoleState) : ℕ := obligationsOf role.cachedCommits

def node (role : SubsurfaceRoleState) : ℕ := if role.entries = 0 then 0 else 1

def ofClient (client : ℕ) (weight : SubsurfaceRoleState → ℕ) (role : SubsurfaceRoleState) : ℕ :=
  if role.clientId = some client then weight role else 0

end SubsurfaceRoleState

section Counts
variable {current old new updated : ℕ}

theorem checkedReplaceCachedCount_eq (hbalance : updated + old = current + new) (hold : old ≤ current)
    (hfits : updated ≤ U64.top) : checkedReplaceCachedCount current old new = some updated := by
  have hupdated : current - old + new = updated := by omega
  rw [checkedReplaceCachedCount, if_pos hold, checkedAdd, hupdated, if_pos hfits]

theorem replaceCachedCount_eq (hbalance : updated + old = current + new) (hold : old ≤ current)
    (hfits : updated ≤ U64.top) : replaceCachedCount current old new = .ok updated := by
  rw [replaceCachedCount, checkedReplaceCachedCount_eq hbalance hold hfits]
  rfl

theorem replaceCachedMapCount_spec {counts : HashMap ℕ ℕ} {key : ℕ} (hcount : counts.lookup key = nonzero current)
    (hbalance : updated + old = current + new) (hold : old ≤ current) (hfits : updated ≤ U64.top) :
    ∃ counts', replaceCachedMapCount counts key old new = .ok counts' ∧
      ∀ k, counts'.lookup k = if k = key then nonzero updated else counts.lookup k := by
  refine ⟨if updated = 0 then counts.erase key else counts.insert key updated, ?_, fun k => ?_⟩
  · rw [replaceCachedMapCount, hcount, getD_nonzero, replaceCachedCount_eq hbalance hold hfits]
    rfl
  · by_cases hzero : updated = 0
    · rw [if_pos hzero, HashMap.lookup_erase, nonzero, if_pos hzero]
    · rw [if_neg hzero, HashMap.lookup_insert, nonzero, if_neg hzero]

end Counts

namespace SurfaceTransactionState
open SubsurfaceRoleState
variable {s s' : SurfaceTransactionState} {surfaceId : ℕ} {role : SubsurfaceRoleState}
  {role? : Option SubsurfaceRoleState}

def entriesOf (roles : HashMap ℕ SubsurfaceRoleState) (client : ℕ) : ℕ :=
  sumValues (ofClient client entries) roles

def obligationsOfClient (roles : HashMap ℕ SubsurfaceRoleState) (client : ℕ) : ℕ :=
  sumValues (ofClient client obligations) roles

structure AccountingIsConsistent (s : SurfaceTransactionState) : Prop where
  entriesTotal : s.cachedEntriesTotal = sumValues entries s.roles
  obligationsTotal : s.cachedObligationsTotal = sumValues obligations s.roles
  nodes : s.cachedNodes = sumValues node s.roles
  entriesPerSurface : ∀ id, s.cachedEntriesPerSurface.lookup id = nonzero ((s.roles.lookup id).elim 0 entries)
  obligationsPerSurface : ∀ id,
    s.cachedObligationsPerSurface.lookup id = nonzero ((s.roles.lookup id).elim 0 obligations)
  entriesPerClient : ∀ client, s.cachedEntriesPerClient.lookup client = nonzero (entriesOf s.roles client)
  obligationsPerClient : ∀ client,
    s.cachedObligationsPerClient.lookup client = nonzero (obligationsOfClient s.roles client)

structure WithinLimits (s : SurfaceTransactionState) : Prop where
  surface : ∀ id role, s.roles.lookup id = some role →
    role.entries ≤ maxCommitsPerSurface ∧ role.obligations ≤ maxObligationsPerSurface
  client : ∀ client, entriesOf s.roles client ≤ maxCommitsPerClient ∧
    obligationsOfClient s.roles client ≤ maxObligationsPerClient
  total : sumValues entries s.roles ≤ maxCommitsTotal ∧
    sumValues obligations s.roles ≤ maxObligationsTotal

theorem sumValues_mono {w w' : SubsurfaceRoleState → ℕ} (h : ∀ role, w role ≤ w' role)
    (roles : HashMap ℕ SubsurfaceRoleState) : sumValues w roles ≤ sumValues w' roles := by
  refine Finset.sum_le_sum fun id _ => ?_
  cases roles.lookup id with
  | none => exact le_refl _
  | some role => exact h role

theorem ofClient_le (client : ℕ) (w : SubsurfaceRoleState → ℕ) (role : SubsurfaceRoleState) :
    ofClient client w role ≤ w role := by
  rw [ofClient]
  split_ifs
  · exact le_refl _
  · exact Nat.zero_le _

theorem node_le_entries (role : SubsurfaceRoleState) : role.node ≤ role.entries := by
  rw [node]
  split_ifs with h
  · exact Nat.zero_le _
  · exact Nat.one_le_iff_ne_zero.mpr h

section Replace
variable {roles : HashMap ℕ SubsurfaceRoleState}

theorem sumValues_set_of_role (w : SubsurfaceRoleState → ℕ) (role? : Option SubsurfaceRoleState)
    (hrole : roles.lookup surfaceId = some role) :
    sumValues w (roles.set surfaceId role?) + w role = sumValues w roles + role?.elim 0 w := by
  have h := HashMap.sumValues_set roles surfaceId role? w
  rwa [hrole, Option.elim_some] at h

theorem replaceClientCounts_spec (w : SubsurfaceRoleState → ℕ) {counts : HashMap ℕ ℕ}
    (hrole : roles.lookup surfaceId = some role) (hclient : ∀ r, role? = some r → r.clientId = role.clientId)
    (hcounts : ∀ client, counts.lookup client = nonzero (sumValues (ofClient client w) roles))
    (hfits : sumValues w (roles.set surfaceId role?) ≤ U64.top) :
    ∃ counts', replaceClientCounts role.clientId counts (w role) (role?.elim 0 w) = .ok counts' ∧
      ∀ client, counts'.lookup client = nonzero (sumValues (ofClient client w) (roles.set surfaceId role?)) := by
  have hsum : ∀ client, sumValues (ofClient client w) (roles.set surfaceId role?) + ofClient client w role =
      sumValues (ofClient client w) roles + role?.elim 0 (ofClient client w) := fun client =>
    sumValues_set_of_role _ _ hrole
  have hnew : ∀ client, role?.elim 0 (ofClient client w) =
      if role.clientId = some client then role?.elim 0 w else 0 := by
    intro client
    cases role? with
    | none => rw [Option.elim_none, Option.elim_none, ite_self]
    | some r => rw [Option.elim_some, Option.elim_some, ofClient, hclient r rfl]
  cases howner : role.clientId with
  | none =>
    refine ⟨counts, rfl, fun client => ?_⟩
    have := hsum client
    rw [hnew, ofClient, howner, if_neg nofun, if_neg nofun] at this
    rw [hcounts, show sumValues (ofClient client w) (roles.set surfaceId role?) =
      sumValues (ofClient client w) roles from this]
  | some owner =>
    have howned := hsum owner
    rw [hnew, ofClient, if_pos howner, if_pos howner] at howned
    have hle : w role ≤ sumValues (ofClient owner w) roles := by
      have := le_sumValues (ofClient owner w) hrole
      rwa [ofClient, if_pos howner] at this
    have hbound := (sumValues_mono (ofClient_le owner w) (roles.set surfaceId role?)).trans hfits
    obtain ⟨counts', hcounts', hlookup⟩ := replaceCachedMapCount_spec (hcounts owner) howned hle hbound
    refine ⟨counts', hcounts', fun client => ?_⟩
    rw [hlookup]
    split_ifs with hsame
    · rw [hsame]
    · have hother : some owner ≠ some client := fun h => hsame (Option.some.inj h).symm
      have := hsum client
      rw [hnew, ofClient, howner, if_neg hother, if_neg hother] at this
      rw [hcounts, show sumValues (ofClient client w) (roles.set surfaceId role?) =
        sumValues (ofClient client w) roles from this]

theorem replaceCachedNodes_eq (role? : Option SubsurfaceRoleState) (hrole : roles.lookup surfaceId = some role)
    (hfits : sumValues entries (roles.set surfaceId role?) ≤ U64.top) :
    replaceCachedNodes (sumValues node roles) role.entries (role?.elim 0 entries) =
      .ok (sumValues node (roles.set surfaceId role?)) := by
  have hsum := sumValues_set_of_role node role? hrole
  have hbound := (sumValues_mono node_le_entries (roles.set surfaceId role?)).trans hfits
  have hnew : role?.elim 0 node = if role?.elim 0 entries = 0 then 0 else 1 := by
    cases role? with
    | none => rfl
    | some r => rfl
  have hold := le_sumValues node hrole
  rw [hnew] at hsum
  simp only [replaceCachedNodes, node] at hsum hold ⊢
  by_cases h₁ : role.entries = 0 <;> by_cases h₂ : role?.elim 0 entries = 0 <;>
    simp only [h₁, h₂, if_true, if_false, ne_eq, not_true_eq_false, not_false_eq_true, and_true, and_false,
      Nat.add_zero] at hsum hold ⊢
  · exact congrArg Except.ok hsum.symm
  · rw [checkedAdd, ← hsum, if_pos hbound]
    rfl
  · rw [if_pos hold, ← hsum, Nat.add_sub_cancel]
    rfl
  · exact congrArg Except.ok (Nat.add_right_cancel hsum).symm

end Replace

theorem replaceCachedAccounting_spec (h : s.AccountingIsConsistent) (hrole : s.roles.lookup surfaceId = some role)
    (hclient : ∀ r, role? = some r → r.clientId = role.clientId)
    (hentries : sumValues entries (s.roles.set surfaceId role?) ≤ U64.top)
    (hobligations : sumValues obligations (s.roles.set surfaceId role?) ≤ U64.top)
    (hs' : s' = { s with roles := s.roles.set surfaceId role? }) :
    ∃ t, s'.replaceCachedAccounting surfaceId role.clientId role.entries (role?.elim 0 entries) role.obligations
        (role?.elim 0 obligations) = .ok t ∧ t.AccountingIsConsistent ∧ t.roles = s.roles.set surfaceId role? := by
  have htotal := replaceCachedCount_eq (sumValues_set_of_role entries role? hrole)
    (le_sumValues _ hrole) hentries
  have hototal := replaceCachedCount_eq (sumValues_set_of_role obligations role? hrole)
    (le_sumValues _ hrole) hobligations
  have hsurface : ∀ w : SubsurfaceRoleState → ℕ, sumValues w (s.roles.set surfaceId role?) ≤ U64.top →
      ∀ counts : HashMap ℕ ℕ, (∀ id, counts.lookup id = nonzero ((s.roles.lookup id).elim 0 w)) →
      ∃ counts', replaceCachedMapCount counts surfaceId (w role) (role?.elim 0 w) = .ok counts' ∧
        ∀ id, counts'.lookup id = nonzero (((s.roles.set surfaceId role?).lookup id).elim 0 w) := by
    intro w hfits counts hcounts
    have hcurrent : counts.lookup surfaceId = nonzero (w role) := by rw [hcounts, hrole, Option.elim_some]
    have hbound : role?.elim 0 w ≤ U64.top := by
      have := sumValues_set_of_role w role? hrole
      have := le_sumValues w hrole
      omega
    obtain ⟨counts', hcounts', hlookup⟩ :=
      replaceCachedMapCount_spec hcurrent (Nat.add_comm _ _) (le_refl _) hbound
    refine ⟨counts', hcounts', fun id => ?_⟩
    rw [hlookup, HashMap.lookup_set]
    split_ifs with hid
    · rfl
    · exact hcounts id
  obtain ⟨entriesPerSurface, hes, hes'⟩ := hsurface entries hentries _ h.entriesPerSurface
  obtain ⟨obligationsPerSurface, hos, hos'⟩ := hsurface obligations hobligations _ h.obligationsPerSurface
  obtain ⟨entriesPerClient, hec, hec'⟩ := replaceClientCounts_spec entries hrole hclient h.entriesPerClient hentries
  obtain ⟨obligationsPerClient, hoc, hoc'⟩ :=
    replaceClientCounts_spec obligations hrole hclient h.obligationsPerClient hobligations
  have hnodes := replaceCachedNodes_eq role? hrole hentries
  subst hs'
  simp only [replaceCachedAccounting, h.entriesTotal, h.obligationsTotal, h.nodes, htotal, hototal, hes, hos, hec, hoc,
    hnodes, bind, Except.bind, pure, Except.pure]
  exact ⟨_, rfl, ⟨rfl, rfl, rfl, hes', hos', hec', hoc'⟩, rfl⟩

theorem obligationsPerSurface_getD (h : s.AccountingIsConsistent) (hrole : s.roles.lookup surfaceId = some role) :
    (s.cachedObligationsPerSurface.lookup surfaceId).getD 0 = role.obligations := by
  rw [h.obligationsPerSurface, getD_nonzero, hrole, Option.elim_some]

structure Sound (s : SurfaceTransactionState) : Prop where
  consistent : s.AccountingIsConsistent
  limits : s.WithinLimits

theorem WithinLimits.shrink (h : s.WithinLimits) (hrole : s.roles.lookup surfaceId = some role)
    (hclient : ∀ r, role? = some r → r.clientId = role.clientId)
    (hentries : role?.elim 0 entries ≤ role.entries) (hobligations : role?.elim 0 obligations ≤ role.obligations)
    (hroles : s'.roles = s.roles.set surfaceId role?) : s'.WithinLimits := by
  have hsum : ∀ w : SubsurfaceRoleState → ℕ, role?.elim 0 w ≤ w role →
      sumValues w s'.roles ≤ sumValues w s.roles := by
    intro w hw
    have := sumValues_set_of_role w role? hrole
    rw [hroles]
    omega
  have howned : ∀ (client : ℕ) (w : SubsurfaceRoleState → ℕ), role?.elim 0 w ≤ w role →
      role?.elim 0 (ofClient client w) ≤ ofClient client w role := by
    intro client w hw
    cases role? with
    | none => exact Nat.zero_le _
    | some r =>
      rw [Option.elim_some, ofClient, ofClient, hclient r rfl]
      split_ifs
      · exact hw
      · exact le_refl _
  refine ⟨fun id r hr => ?_, fun client => ⟨?_, ?_⟩, ?_, ?_⟩
  · rw [hroles, HashMap.lookup_set] at hr
    split_ifs at hr with hid
    · subst hr
      have hold := h.surface surfaceId role hrole
      exact ⟨hentries.trans hold.1, hobligations.trans hold.2⟩
    · exact h.surface id r hr
  · exact (hsum _ (howned client entries hentries)).trans (h.client client).1
  · exact (hsum _ (howned client obligations hobligations)).trans (h.client client).2
  · exact (hsum _ hentries).trans h.total.1
  · exact (hsum _ hobligations).trans h.total.2

theorem Sound.takeOut (role? : Option SubsurfaceRoleState) (h : s.Sound) (hrole : s.roles.lookup surfaceId = some role)
    (hclient : ∀ r, role? = some r → r.clientId = role.clientId)
    (hentries : role?.elim 0 entries ≤ role.entries) (hobligations : role?.elim 0 obligations ≤ role.obligations)
    (hs' : s' = { s with roles := s.roles.set surfaceId role? }) :
    ∃ t, s'.replaceCachedAccounting surfaceId role.clientId role.entries (role?.elim 0 entries) role.obligations
        (role?.elim 0 obligations) = .ok t ∧ t.Sound := by
  have hbound : ∀ w : SubsurfaceRoleState → ℕ, role?.elim 0 w ≤ w role → sumValues w s.roles ≤ U64.top →
      sumValues w (s.roles.set surfaceId role?) ≤ U64.top := by
    intro w hw hfits
    have := sumValues_set_of_role w role? hrole
    omega
  have hfits₁ : sumValues entries s.roles ≤ U64.top := h.limits.total.1.trans (by decide)
  have hfits₂ : sumValues obligations s.roles ≤ U64.top := h.limits.total.2.trans (by decide)
  obtain ⟨t, ht, hconsistent, hroles⟩ := replaceCachedAccounting_spec h.consistent hrole hclient
    (hbound entries hentries hfits₁) (hbound obligations hobligations hfits₂) hs'
  exact ⟨t, ht, hconsistent, h.limits.shrink hrole hclient hentries hobligations hroles⟩

theorem obligationsOf_append (front back : List CachedSubsurfaceCommit) :
    obligationsOf (front ++ back) = obligationsOf front + obligationsOf back := by
  rw [obligationsOf, obligationsOf, obligationsOf, List.map_append, List.sum_append]

theorem obligationsOf_drop_le (commits : List CachedSubsurfaceCommit) (n : ℕ) :
    obligationsOf (commits.drop n) ≤ obligationsOf commits := by
  have := obligationsOf_append (commits.take n) (commits.drop n)
  rw [List.take_append_drop] at this
  omega

theorem Sound.detachRole (h : s.Sound) (surfaceId : ℕ) : ∃ t answer, s.detachRole surfaceId = .ok (t, answer) ∧
    t.Sound := by
  rw [SurfaceTransactionState.detachRole]
  cases hrole : s.roles.lookup surfaceId with
  | none => exact ⟨s, none, rfl, h⟩
  | some role =>
    obtain ⟨t, ht, hsound⟩ := Sound.takeOut none h hrole nofun (Nat.zero_le _) (Nat.zero_le _) rfl
    refine ⟨t, some (role, role.cachedCommits), ?_, hsound⟩
    simp only [HashMap.set, entries, obligations, Option.elim_none] at ht
    simp only [ht, bind, Except.bind, pure, Except.pure]

theorem Sound.takeCachedCommitsForSurface (h : s.Sound) (surfaceId : ℕ) :
    ∃ t commits, s.takeCachedCommitsForSurface surfaceId = .ok (t, commits) ∧ t.Sound := by
  rw [SurfaceTransactionState.takeCachedCommitsForSurface]
  cases hrole : s.roles.lookup surfaceId with
  | none => exact ⟨s, [], rfl, h⟩
  | some role =>
    obtain ⟨t, ht, hsound⟩ := Sound.takeOut (some { role with cachedCommits := [] }) h hrole
      (fun r hr => by cases hr; rfl) (Nat.zero_le _) (Nat.zero_le _) rfl
    refine ⟨t, role.cachedCommits, ?_, hsound⟩
    rw [obligationsPerSurface_getD h.consistent hrole]
    simp only [HashMap.set, entries, obligations, Option.elim_some] at ht
    simp only [withCommits, obligations, bind, Except.bind, pure, Except.pure]
    simp only [List.length_nil] at ht
    rw [show obligationsOf [] = 0 from rfl] at ht
    rw [ht]

theorem Sound.takeCachedCommitsThrough (h : s.Sound) (reference : ContentUpdateRef) :
    ∃ t commits, s.takeCachedCommitsThrough reference = .ok (t, commits) ∧ t.Sound := by
  rw [SurfaceTransactionState.takeCachedCommitsThrough]
  cases hrole : s.roles.lookup reference.surfaceId with
  | none => exact ⟨s, none, rfl, h⟩
  | some role =>
    dsimp only
    cases htarget : role.cachedCommits.findIdx? (·.contentUpdateRef reference.surfaceId = reference) with
    | none => exact ⟨s, none, rfl, h⟩
    | some target =>
      obtain ⟨t, ht, hsound⟩ := Sound.takeOut
        (some { role with cachedCommits := role.cachedCommits.drop (target + 1) }) h hrole
        (fun r hr => by cases hr; rfl)
        (by simp only [Option.elim_some, entries, List.length_drop]; omega)
        (obligationsOf_drop_le _ _) rfl
      refine ⟨t, some (role.cachedCommits.take (target + 1)), ?_, hsound⟩
      rw [obligationsPerSurface_getD h.consistent hrole]
      simp only [HashMap.set, entries, obligations, Option.elim_some] at ht
      simp only [withCommits, obligations, ht, bind, Except.bind, pure, Except.pure]

theorem Sound.removePending (h : s.Sound) (fuel : ℕ) (pending : List ℕ) (removed : List CachedSubsurfaceCommit) :
    (∃ t commits, s.removePending fuel pending removed = .ok (t, commits) ∧ t.Sound) ∨
      s.removePending fuel pending removed = Run.diverge := by
  induction fuel generalizing s pending removed with
  | zero =>
    cases pending with
    | nil => exact .inl ⟨s, removed, by rw [removePending], h⟩
    | cons id pending => exact .inr (by rw [removePending])
  | succ fuel ih =>
    cases pending with
    | nil => exact .inl ⟨s, removed, by rw [removePending], h⟩
    | cons id pending =>
      obtain ⟨t, answer, ht, hsound⟩ := h.detachRole id
      rw [removePending, ht]
      exact ih hsound _ _

theorem Sound.takeAll (h : s.Sound) (surfaceIds : List ℕ) (commits : List CachedSubsurfaceCommit) :
    ∃ t taken, s.takeAll surfaceIds commits = .ok (t, taken) ∧ t.Sound := by
  induction surfaceIds generalizing s commits with
  | nil => exact ⟨s, commits, rfl, h⟩
  | cons surfaceId surfaceIds ih =>
    obtain ⟨t, taken, ht, hsound⟩ := h.takeCachedCommitsForSurface surfaceId
    rw [SurfaceTransactionState.takeAll, ht]
    exact ih hsound _

theorem Sound.insertRole (h : s.Sound) (hnew : s.roles.lookup surfaceId = none) (hempty : role.cachedCommits = [])
    (hs' : ∃ n, s' = { s with nextRelationshipId := n, roles := s.roles.insert surfaceId role }) : s'.Sound := by
  obtain ⟨n, rfl⟩ := hs'
  have hsum : ∀ w : SubsurfaceRoleState → ℕ, w role = 0 →
      sumValues w (s.roles.insert surfaceId role) = sumValues w s.roles := by
    intro w hw
    have := HashMap.sumValues_set s.roles surfaceId (some role) w
    rw [hnew, Option.elim_none, Option.elim_some, hw] at this
    exact this
  have hentries : role.entries = 0 := by rw [entries, hempty]; rfl
  have hobligations : role.obligations = 0 := by rw [obligations, hempty]; rfl
  have hlookup : ∀ (w : SubsurfaceRoleState → ℕ) (id : ℕ), w role = 0 →
      ((s.roles.insert surfaceId role).lookup id).elim 0 w = (s.roles.lookup id).elim 0 w := by
    intro w id hw
    rw [HashMap.lookup_insert]
    split_ifs with hid
    · rw [hid, hnew, Option.elim_some, Option.elim_none, hw]
    · rfl
  have hclient : ∀ (client : ℕ) (w : SubsurfaceRoleState → ℕ), w role = 0 → ofClient client w role = 0 := by
    intro client w hw
    rw [ofClient, hw, ite_self]
  refine ⟨⟨?_, ?_, ?_, fun id => ?_, fun id => ?_, fun client => ?_, fun client => ?_⟩, fun id r hr => ?_,
    fun client => ?_, ?_⟩
  · exact h.consistent.entriesTotal.trans (hsum entries hentries).symm
  · exact h.consistent.obligationsTotal.trans (hsum obligations hobligations).symm
  · exact h.consistent.nodes.trans (hsum node (by rw [node, if_pos hentries])).symm
  · exact (h.consistent.entriesPerSurface id).trans (congrArg nonzero (hlookup entries id hentries).symm)
  · exact (h.consistent.obligationsPerSurface id).trans (congrArg nonzero (hlookup obligations id hobligations).symm)
  · exact (h.consistent.entriesPerClient client).trans
      (congrArg nonzero (hsum _ (hclient client entries hentries)).symm)
  · exact (h.consistent.obligationsPerClient client).trans
      (congrArg nonzero (hsum _ (hclient client obligations hobligations)).symm)
  · simp only [HashMap.lookup_insert] at hr
    split_ifs at hr with hid
    · cases hr
      rw [hentries, hobligations]
      exact ⟨Nat.zero_le _, Nat.zero_le _⟩
    · exact h.limits.surface id r hr
  · simp only [entriesOf, obligationsOfClient, hsum _ (hclient client entries hentries),
      hsum _ (hclient client obligations hobligations)]
    exact h.limits.client client
  · simp only [hsum entries hentries, hsum obligations hobligations]
    exact h.limits.total

theorem sound_empty : empty.Sound := by
  have hsum : ∀ w : SubsurfaceRoleState → ℕ, sumValues w (∅ : HashMap ℕ SubsurfaceRoleState) = 0 := fun w =>
    Finset.sum_empty
  refine ⟨⟨(hsum _).symm, (hsum _).symm, (hsum _).symm, fun _ => rfl, fun _ => rfl, fun client => ?_, fun client => ?_⟩,
    ⟨fun id r hr => ?_, fun client => ?_, ?_⟩⟩
  · rw [entriesOf, empty, hsum]
    rfl
  · rw [obligationsOfClient, empty, hsum]
    rfl
  · cases hr
  · rw [entriesOf, obligationsOfClient, empty, hsum, hsum]
    exact ⟨Nat.zero_le _, Nat.zero_le _⟩
  · rw [empty, hsum, hsum]
    exact ⟨Nat.zero_le _, Nat.zero_le _⟩

theorem checkedAdd_eq_some {a b c : ℕ} (h : checkedAdd a b = some c) : c = a + b := by
  rw [checkedAdd] at h
  split_ifs at h
  exact (Option.some.inj h).symm

theorem checkedReplaceCachedCount_some {current old new updated : ℕ}
    (h : checkedReplaceCachedCount current old new = some updated) : old ≤ current ∧ updated + old = current + new := by
  rw [checkedReplaceCachedCount] at h
  split_ifs at h with hold
  have := checkedAdd_eq_some h
  omega

theorem cacheRejection_eq_none {clientId : Option ℕ} {e o ce co totalE totalO : ℕ}
    (h : cacheRejection clientId e o ce co totalE totalO = none) :
    (e ≤ maxCommitsPerSurface ∧ o ≤ maxObligationsPerSurface) ∧
      (clientId.isSome → ce ≤ maxCommitsPerClient ∧ co ≤ maxObligationsPerClient) ∧
      totalE ≤ maxCommitsTotal ∧ totalO ≤ maxObligationsTotal := by
  unfold cacheRejection at h
  split_ifs at h with h₁ h₂ h₃ h₄ h₅ h₆
  refine ⟨⟨by omega, by omega⟩, fun hclient => ⟨?_, ?_⟩, by omega, by omega⟩
  · by_contra hlimit
    exact h₃ ⟨hclient, by omega⟩
  · by_contra hlimit
    exact h₄ ⟨hclient, by omega⟩

structure Admitted (s : SurfaceTransactionState) (role : SubsurfaceRoleState) (oldObligations newEntries
    newObligations : ℕ) : Prop where
  surface : newEntries ≤ maxCommitsPerSurface ∧ newObligations ≤ maxObligationsPerSurface
  entries : s.cachedEntriesTotal + newEntries ≤ maxCommitsTotal + role.entries
  obligations : s.cachedObligationsTotal + newObligations ≤ maxObligationsTotal + oldObligations
  clientEntries : ∀ client, role.clientId = some client →
    (s.cachedEntriesPerClient.lookup client).getD 0 + newEntries ≤ maxCommitsPerClient + role.entries
  clientObligations : ∀ client, role.clientId = some client →
    (s.cachedObligationsPerClient.lookup client).getD 0 + newObligations ≤ maxObligationsPerClient + oldObligations

theorem admitCommit_ok {commit : CachedSubsurfaceCommit} {newEntries newObligations : ℕ}
    (h : s.admitCommit surfaceId role commit = .ok (newEntries, newObligations)) :
    (if canMerge role commit then some role.cachedCommits.length else checkedAdd role.cachedCommits.length 1) =
        some newEntries ∧
      (if canMerge role commit then role.cachedCommits.getLast?.map (·.mergedCachedObligationCount commit)
        else checkedAdd ((s.cachedObligationsPerSurface.lookup surfaceId).getD 0) commit.cachedObligationCount) =
        some newObligations ∧
      s.Admitted role ((s.cachedObligationsPerSurface.lookup surfaceId).getD 0) newEntries newObligations := by
  unfold admitCommit at h
  dsimp only at h
  split at h
  · rename_i e o he ho
    split at h
    · rename_i totalE totalO ce co htotalE htotalO hce hco
      split at h
      · cases h
      · rename_i hlimits
        cases h
        obtain ⟨hsurface, hclient, htotal⟩ := cacheRejection_eq_none hlimits
        have htotalE := checkedReplaceCachedCount_some htotalE
        have htotalO := checkedReplaceCachedCount_some htotalO
        refine ⟨he, ho, hsurface, ?_, ?_, fun client howner => ?_, fun client howner => ?_⟩
        · rw [SubsurfaceRoleState.entries]
          omega
        · omega
        · rw [howner, Option.isSome_some, if_pos rfl] at hce
          have hce := checkedReplaceCachedCount_some hce
          have := (hclient (by rw [howner]; rfl)).1
          rw [Option.bind_some] at hce
          rw [SubsurfaceRoleState.entries]
          omega
        · rw [howner, Option.isSome_some, if_pos rfl] at hco
          have hco := checkedReplaceCachedCount_some hco
          have := (hclient (by rw [howner]; rfl)).2
          rw [Option.bind_some] at hco
          omega
    · cases h
  · cases h

def MergesAlone (role : SubsurfaceRoleState) (commit : CachedSubsurfaceCommit) : Prop :=
  canMerge role commit = true → obligationsOf role.cachedCommits.dropLast = 0

theorem queueWith_counts {commit : CachedSubsurfaceCommit} {newEntries newObligations : ℕ}
    (halone : MergesAlone role commit) (hentries : (if canMerge role commit then some role.cachedCommits.length
      else checkedAdd role.cachedCommits.length 1) = some newEntries)
    (hobligations : (if canMerge role commit then
        role.cachedCommits.getLast?.map (·.mergedCachedObligationCount commit)
      else checkedAdd role.obligations commit.cachedObligationCount) = some newObligations) :
    (queueWith role commit).length = newEntries ∧ obligationsOf (queueWith role commit) = newObligations := by
  by_cases hmerge : canMerge role commit = true
  · rw [if_pos hmerge] at hentries hobligations
    obtain ⟨tail, htail, rfl⟩ := Option.map_eq_some_iff.mp hobligations
    have hsplit := List.dropLast_append_getLast? tail htail
    have hempty := halone hmerge
    rw [queueWith, hmerge, htail]
    refine ⟨?_, ?_⟩
    · rw [← Option.some.inj hentries, ← hsplit]
      simp
    · rw [obligationsOf_append, hempty, Nat.zero_add]
      exact CachedSubsurfaceCommit.cachedObligationCount_merge tail commit
  · rw [if_neg hmerge] at hentries hobligations
    have hqueue : queueWith role commit = role.cachedCommits ++ [commit] := by
      rw [queueWith]
      split
      · rename_i hthis _
        exact absurd hthis hmerge
      · rfl
    rw [hqueue, checkedAdd_eq_some hentries, checkedAdd_eq_some hobligations, obligationsOf_append]
    exact ⟨List.length_append, rfl⟩

theorem Sound.cacheCommit (h : s.Sound) (surfaceId : ℕ) (commit : CachedSubsurfaceCommit)
    (halone : ∀ role, s.roles.lookup surfaceId = some role → MergesAlone role commit) :
    ∃ t outcome, s.cacheCommit surfaceId commit = .ok (t, outcome) ∧ t.Sound := by
  rw [SurfaceTransactionState.cacheCommit]
  cases hrole : s.roles.lookup surfaceId with
  | none => exact ⟨s, _, rfl, h⟩
  | some role =>
    dsimp only
    cases hadmit : s.admitCommit surfaceId role commit with
    | error reason => exact ⟨s, _, rfl, h⟩
    | ok numbers =>
      obtain ⟨newEntries, newObligations⟩ := numbers
      obtain ⟨hentries, hobligations, hadmitted⟩ := admitCommit_ok hadmit
      rw [obligationsPerSurface_getD h.consistent hrole] at hobligations hadmitted
      obtain ⟨hlength, hcount⟩ := queueWith_counts (halone role hrole) hentries hobligations
      let new : SubsurfaceRoleState := { role with cachedCommits := queueWith role commit }
      have hnewEntries : new.entries = newEntries := hlength
      have hnewObligations : new.obligations = newObligations := hcount
      have hsum : ∀ w : SubsurfaceRoleState → ℕ, sumValues w (s.roles.set surfaceId (some new)) + w role =
          sumValues w s.roles + w new := fun w => sumValues_set_of_role w (some new) hrole
      have htotal : sumValues entries (s.roles.set surfaceId (some new)) ≤ maxCommitsTotal := by
        have := hsum entries
        have := hadmitted.entries
        rw [h.consistent.entriesTotal] at this
        omega
      have hototal : sumValues obligations (s.roles.set surfaceId (some new)) ≤ maxObligationsTotal := by
        have := hsum obligations
        have := hadmitted.obligations
        rw [h.consistent.obligationsTotal] at this
        omega
      obtain ⟨t, ht, hconsistent, hroles⟩ := replaceCachedAccounting_spec h.consistent hrole
        (fun r hr => by cases hr; rfl) (htotal.trans (by decide)) (hototal.trans (by decide))
        (rfl : s.withCommits surfaceId role (queueWith role commit) = _)
      -- only the sums of the owner change
      have hclient : ∀ (client : ℕ) (w : SubsurfaceRoleState → ℕ) (bound : ℕ),
          sumValues (ofClient client w) s.roles ≤ bound →
          (role.clientId = some client → sumValues (ofClient client w) s.roles + w new ≤ bound + w role) →
          sumValues (ofClient client w) t.roles ≤ bound := by
        intro client w bound hold howned
        have := hsum (ofClient client w)
        rw [hroles]
        by_cases howner : role.clientId = some client
        · have hnewOwner : new.clientId = some client := howner
          rw [ofClient, ofClient, if_pos howner, if_pos hnewOwner] at this
          have := howned howner
          omega
        · have hnewOwner : ¬ new.clientId = some client := howner
          rw [ofClient, ofClient, if_neg howner, if_neg hnewOwner] at this
          omega
      refine ⟨t, if canMerge role commit then
          CacheCommitOutcome.merged (role.cachedCommits.getLast?.bind (·.supersededBuffer commit))
        else .inserted, ?_, hconsistent, fun id r hr => ?_, fun client => ⟨?_, ?_⟩, ?_, ?_⟩
      · rw [obligationsPerSurface_getD h.consistent hrole]
        simp only [Option.elim_some, hnewEntries, hnewObligations] at ht
        simp only [entries] at ht
        simp only [ht, bind, Except.bind, pure, Except.pure]
      · rw [hroles, HashMap.lookup_set] at hr
        split_ifs at hr with hid
        · cases hr
          rw [hnewEntries, hnewObligations]
          exact hadmitted.surface
        · exact h.limits.surface id r hr
      · refine hclient client entries _ (h.limits.client client).1 fun howner => ?_
        have := hadmitted.clientEntries client howner
        rwa [h.consistent.entriesPerClient, getD_nonzero, entriesOf, ← hnewEntries] at this
      · refine hclient client obligations _ (h.limits.client client).2 fun howner => ?_
        have := hadmitted.clientObligations client howner
        rwa [h.consistent.obligationsPerClient, getD_nonzero, obligationsOfClient, ← hnewObligations] at this
      · rw [hroles]
        exact htotal
      · rw [hroles]
        exact hototal

theorem ancestorsAvoid_cases (roles : HashMap ℕ SubsurfaceRoleState) (surfaceId fuel id : ℕ) :
    (∃ answer, ancestorsAvoid roles surfaceId fuel id = .ok answer) ∨
      ancestorsAvoid roles surfaceId fuel id = Run.diverge := by
  induction fuel generalizing id with
  | zero => exact .inr rfl
  | succ fuel ih =>
    rw [ancestorsAvoid]
    split_ifs
    · exact .inl ⟨false, rfl⟩
    · cases roles.lookup id with
      | none => exact .inl ⟨true, rfl⟩
      | some role => exact ih role.parentId

theorem Sound.registerWithClient (h : s.Sound) (fuel surfaceId parentId : ℕ) (clientId : Option ℕ) :
    (∃ t answer, s.registerWithClient fuel surfaceId parentId clientId = .ok (t, answer) ∧ t.Sound) ∨
      s.registerWithClient fuel surfaceId parentId clientId = Run.diverge := by
  unfold SurfaceTransactionState.registerWithClient
  by_cases hknown : surfaceId = parentId ∨ (s.roles.lookup surfaceId).isSome = true
  · rw [if_pos hknown]
    exact .inl ⟨s, false, rfl, h⟩
  · rw [if_neg hknown]
    rcases ancestorsAvoid_cases s.roles surfaceId fuel parentId with ⟨answer, hanswer⟩ | hdiverge
    · left
      rw [hanswer]
      cases answer with
      | false => exact ⟨s, false, rfl, h⟩
      | true =>
        by_cases hlast : U64.top ≤ s.nextRelationshipId
        · refine ⟨s, false, ?_, h⟩
          simp only [bind, Except.bind, pure, Except.pure, Bool.not_true, Bool.false_eq_true, if_false, if_pos hlast]
        · have hnew : s.roles.lookup surfaceId = none := by
            rw [← Option.not_isSome_iff_eq_none]
            exact fun hrole => hknown (.inr hrole)
          let role : SubsurfaceRoleState :=
            ⟨s.nextRelationshipId + 1, parentId, clientId, .synchronized, .pendingParentCommit, []⟩
          refine ⟨_, true, ?_, h.insertRole hnew (rfl : role.cachedCommits = []) ⟨s.nextRelationshipId + 1, rfl⟩⟩
          simp only [bind, Except.bind, pure, Except.pure, Bool.not_true, Bool.false_eq_true, if_false, if_neg hlast]
          rfl
    · right
      rw [hdiverge]
      rfl

end SurfaceTransactionState

inductive CacheOp where
  | register (turns surfaceId parentId : ℕ) (clientId : Option ℕ)
  | cache (surfaceId : ℕ) (commit : CachedSubsurfaceCommit)
  | takeThrough (reference : ContentUpdateRef)
  | takeForSurface (surfaceId : ℕ)
  | detach (surfaceId : ℕ)
  | removeSubtree (turns surfaceId : ℕ)
  | drain

namespace SurfaceTransactionState
variable {s : SurfaceTransactionState}

def call (s : SurfaceTransactionState) : CacheOp → CacheCall SurfaceTransactionState
  | .register turns surfaceId parentId clientId => (·.1) <$> s.registerWithClient turns surfaceId parentId clientId
  | .cache surfaceId commit => (·.1) <$> s.cacheCommit surfaceId commit
  | .takeThrough reference => (·.1) <$> s.takeCachedCommitsThrough reference
  | .takeForSurface surfaceId => (·.1) <$> s.takeCachedCommitsForSurface surfaceId
  | .detach surfaceId => (·.1) <$> s.detachRole surfaceId
  | .removeSubtree turns surfaceId => (·.1) <$> s.removeSubtree turns surfaceId
  | .drain => (·.1) <$> s.drainCachedCommits

def step (s : SurfaceTransactionState) (op : CacheOp) : SurfaceTransactionState :=
  match s.call op with
  | .ok t => t
  | .error _ => s

def Panics (s : SurfaceTransactionState) (op : CacheOp) : Prop := ∃ message, s.call op = Run.panic message

/-- A commit is merged into the tail of its queue only when the entries before the tail hold no obligations. -/
def MergesIntoOnly (s : SurfaceTransactionState) : CacheOp → Prop
  | .cache surfaceId commit => ∀ role, s.roles.lookup surfaceId = some role → MergesAlone role commit
  | _ => True

theorem Sound.call (h : s.Sound) {op : CacheOp} (hop : s.MergesIntoOnly op) :
    (∃ t, s.call op = .ok t ∧ t.Sound) ∨ s.call op = Run.diverge := by
  cases op with
  | register turns surfaceId parentId clientId =>
    rcases h.registerWithClient turns surfaceId parentId clientId with ⟨t, answer, ht, hsound⟩ | hdiverge
    · exact .inl ⟨t, by rw [SurfaceTransactionState.call, ht]; rfl, hsound⟩
    · exact .inr (by rw [SurfaceTransactionState.call, hdiverge]; rfl)
  | cache surfaceId commit =>
    obtain ⟨t, outcome, ht, hsound⟩ := h.cacheCommit surfaceId commit hop
    exact .inl ⟨t, by rw [SurfaceTransactionState.call, ht]; rfl, hsound⟩
  | takeThrough reference =>
    obtain ⟨t, commits, ht, hsound⟩ := h.takeCachedCommitsThrough reference
    exact .inl ⟨t, by rw [SurfaceTransactionState.call, ht]; rfl, hsound⟩
  | takeForSurface surfaceId =>
    obtain ⟨t, commits, ht, hsound⟩ := h.takeCachedCommitsForSurface surfaceId
    exact .inl ⟨t, by rw [SurfaceTransactionState.call, ht]; rfl, hsound⟩
  | detach surfaceId =>
    obtain ⟨t, answer, ht, hsound⟩ := h.detachRole surfaceId
    exact .inl ⟨t, by rw [SurfaceTransactionState.call, ht]; rfl, hsound⟩
  | removeSubtree turns surfaceId =>
    rcases h.removePending turns [surfaceId] [] with ⟨t, commits, ht, hsound⟩ | hdiverge
    · exact .inl ⟨t, by rw [SurfaceTransactionState.call, removeSubtree, ht]; rfl, hsound⟩
    · exact .inr (by rw [SurfaceTransactionState.call, removeSubtree, hdiverge]; rfl)
  | drain =>
    obtain ⟨t, taken, ht, hsound⟩ := h.takeAll (s.roles.keys.sort (· ≤ ·)) []
    exact .inl ⟨t, by rw [SurfaceTransactionState.call, drainCachedCommits, ht]; rfl, hsound⟩

theorem Sound.step (h : s.Sound) {op : CacheOp} (hop : s.MergesIntoOnly op) : (s.step op).Sound := by
  rw [SurfaceTransactionState.step]
  rcases h.call hop with ⟨t, ht, hsound⟩ | hdiverge
  · rw [ht]
    exact hsound
  · rw [hdiverge]
    exact h

/-- After every run of calls that merge only into queues whose other entries hold nothing, the counters equal a recount,
the limits hold, and no such call panics. -/
theorem accounting_exact {ops : List CacheOp} (hrun : Along step MergesIntoOnly ops empty)
    (hs : s = ops.foldl step empty) :
    s.AccountingIsConsistent ∧ s.WithinLimits ∧ ∀ op, s.MergesIntoOnly op → ¬ s.Panics op := by
  have hsound : s.Sound := by
    rw [hs]
    exact hrun.invariant Sound (fun _ _ h hop => h.step hop) sound_empty
  refine ⟨hsound.consistent, hsound.limits, ?_⟩
  rintro op hop ⟨message, hpanic⟩
  rcases hsound.call hop with ⟨t, ht, -⟩ | hdiverge
  · rw [ht] at hpanic
    cases hpanic
  · rw [hdiverge] at hpanic
    cases hpanic

def unpaced : CapturedSurfacePacing := ⟨false, false, false, false⟩

def callbackCommit (sequence : ℕ) (callbacks : List ℕ) (pacing : CapturedSurfacePacing) : CachedSubsurfaceCommit :=
  ⟨sequence, sequence, ⟨none, [], false⟩, none, callbacks, none, [], pacing⟩

def mergedPair : List CacheOp :=
  [.register 2 2 1 (some 7), .cache 2 (callbackCommit 1 [1] unpaced), .cache 2 (callbackCommit 2 [2] unpaced)]

def mergedBehindBarrier : List CacheOp :=
  [.register 2 2 1 (some 7), .cache 2 (callbackCommit 1 [1] ⟨true, false, false, false⟩),
    .cache 2 (callbackCommit 2 [] unpaced), .cache 2 (callbackCommit 3 [] unpaced)]

theorem mergesIntoOnly_of_lookup {surfaceId : ℕ} {commit : CachedSubsurfaceCommit} {role : SubsurfaceRoleState}
    (hrole : s.roles.lookup surfaceId = some role) (halone : MergesAlone role commit) :
    s.MergesIntoOnly (.cache surfaceId commit) := by
  intro role' hrole'
  rw [hrole] at hrole'
  cases hrole'
  exact halone

instance decidableMergesIntoOnly (s : SurfaceTransactionState) : ∀ op, Decidable (s.MergesIntoOnly op)
  | .cache surfaceId commit =>
    match h : s.roles.lookup surfaceId with
    | none => .isTrue fun role hrole => by rw [h] at hrole; cases hrole
    | some role =>
      decidable_of_iff (canMerge role commit = true → obligationsOf role.cachedCommits.dropLast = 0)
        ⟨fun halone => mergesIntoOnly_of_lookup h halone, fun hall => hall role h⟩
  | .register .. | .takeThrough _ | .takeForSurface _ | .detach _ | .removeSubtree .. | .drain => .isTrue trivial

theorem accounting_exact_mergedPair : let s := mergedPair.foldl step empty
    s.AccountingIsConsistent ∧ s.WithinLimits ∧ ∀ op, s.MergesIntoOnly op → ¬ s.Panics op :=
  accounting_exact (by decide +kernel) rfl

/-- The barrier commit's callback is no longer counted, and destroying the subsurface then fails the drift check. -/
theorem accounting_drifts : let s := mergedBehindBarrier.foldl step empty
    s.cachedObligationsTotal = 0 ∧ HashMap.sumValues SubsurfaceRoleState.obligations s.roles = 1 ∧
      s.call (.detach 2) = Run.panic "synchronized cache accounting drift" := by
  refine ⟨by decide +kernel, by decide +kernel, ?_⟩
  rfl

end SurfaceTransactionState
end Typhon.Surfaces
