import Typhon.Surfaces.Accounting

/-! The content update that a commit carries: the cached commits of synchronized children it refers to, taken out of
the cache depth first. -/

namespace Typhon.Surfaces
open Foundation SubsurfaceRoleState

abbrev Roles := HashMap ℕ SubsurfaceRoleState

variable (roles : Roles)

def queue (surfaceId : ℕ) : List CachedSubsurfaceCommit :=
  (roles.lookup surfaceId).elim [] (·.cachedCommits)

def takeThrough (reference : ContentUpdateRef) : Option (List CachedSubsurfaceCommit × Roles) :=
  match roles.lookup reference.surfaceId with
  | none => none
  | some role =>
    match role.cachedCommits.findIdx? (·.contentUpdateRef reference.surfaceId = reference) with
    | none => none
    | some target =>
      some (role.cachedCommits.take (target + 1),
        roles.insert reference.surfaceId { role with cachedCommits := role.cachedCommits.drop (target + 1) })

structure Settlements where
  isPublished : ContentUpdateRef → Bool
  isTerminal : ContentUpdateRef → Bool

structure ContentUpdateCandidateExtractor where
  roles : Roles
  nodes : List (ℕ × CachedSubsurfaceCommit)
  externalContentUpdateDependencies : List ContentUpdateRef
  seen : Finset ContentUpdateRef
  visiting : Finset ContentUpdateRef

def CachedSubsurfaceCommit.dependencies (c : CachedSubsurfaceCommit) : List ContentUpdateRef :=
  c.lineage.predecessor.toList ++ c.lineage.childDependencies

namespace ContentUpdateCandidateExtractor

def visitCommit (visit : ContentUpdateCandidateExtractor → ContentUpdateRef → Option ContentUpdateCandidateExtractor)
    (surfaceId : ℕ) (e : ContentUpdateCandidateExtractor) (commit : CachedSubsurfaceCommit) :
    Option ContentUpdateCandidateExtractor :=
  let reference := commit.contentUpdateRef surfaceId
  if reference ∈ e.seen then some e
  else
    let e := { e with seen := insert reference e.seen }
    if reference ∈ e.visiting then some e
    else do
      let e ← commit.dependencies.foldlM visit { e with visiting := insert reference e.visiting }
      return { e with visiting := e.visiting.erase reference, nodes := e.nodes ++ [(surfaceId, commit)] }

def visitReference (settled : Settlements) :
    ℕ → ContentUpdateCandidateExtractor → ContentUpdateRef → Option ContentUpdateCandidateExtractor
  | 0, _, _ => none
  | fuel + 1, e, reference =>
    if reference ∈ e.visiting then some e
    else if reference ∈ e.seen then some e
    else match takeThrough e.roles reference with
      | some (commits, roles) =>
        commits.foldlM (visitCommit (visitReference settled fuel) reference.surfaceId) { e with roles := roles }
      | none =>
        if settled.isPublished reference || settled.isTerminal reference then some e
        else if reference ∈ e.externalContentUpdateDependencies then some e
        else some { e with externalContentUpdateDependencies := e.externalContentUpdateDependencies ++ [reference] }

end ContentUpdateCandidateExtractor

def cacheSize : ℕ := HashMap.sumValues entries roles

/-- Every nested visit takes a commit out of the cache, so the depth is bounded by what is cached. -/
def extractContentUpdateCandidate (settled : Settlements) (roles : Roles) (rootSurfaceId : ℕ)
    (rootCommit : CachedSubsurfaceCommit) : Option ContentUpdateCandidateExtractor :=
  ContentUpdateCandidateExtractor.visitCommit
    (ContentUpdateCandidateExtractor.visitReference settled (cacheSize roles + 1)) rootSurfaceId
    ⟨roles, [], [], ∅, ∅⟩ rootCommit

section Take
variable {roles roles' : Roles} {reference : ContentUpdateRef} {commits : List CachedSubsurfaceCommit}

structure Takes (roles : Roles) (reference : ContentUpdateRef) (commits : List CachedSubsurfaceCommit)
    (roles' : Roles) : Prop where
  split : commits ++ queue roles' reference.surfaceId = queue roles reference.surfaceId
  last : ∃ front c, commits = front ++ [c] ∧ c.contentUpdateRef reference.surfaceId = reference
  other : ∀ surfaceId, surfaceId ≠ reference.surfaceId → queue roles' surfaceId = queue roles surfaceId
  size : cacheSize roles' + commits.length = cacheSize roles

theorem takeThrough_some (h : takeThrough roles reference = some (commits, roles')) :
    Takes roles reference commits roles' := by
  rw [takeThrough] at h
  cases hrole : roles.lookup reference.surfaceId with
  | none =>
    rw [hrole] at h
    cases h
  | some role =>
    rw [hrole] at h
    dsimp only at h
    split at h
    · cases h
    · rename_i target htarget
      cases h
      obtain ⟨hlt, hfound, -⟩ := List.findIdx?_eq_some_iff_getElem.mp htarget
      have hqueue : queue roles reference.surfaceId = role.cachedCommits := by rw [queue, hrole, Option.elim_some]
      have hrest : queue (roles.insert reference.surfaceId
          { role with cachedCommits := role.cachedCommits.drop (target + 1) }) reference.surfaceId =
          role.cachedCommits.drop (target + 1) := by
        rw [queue, HashMap.lookup_insert, if_pos rfl, Option.elim_some]
      refine ⟨?_, ⟨role.cachedCommits.take target, role.cachedCommits[target], ?_, by simpa using hfound⟩,
        fun surfaceId hother => ?_, ?_⟩
      · rw [hrest, hqueue, List.take_append_drop]
      · rw [List.take_concat_get' _ _ hlt]
      · rw [queue, HashMap.lookup_insert, if_neg hother]
        rfl
      · have hsum := SurfaceTransactionState.sumValues_set_of_role entries
          (some { role with cachedCommits := role.cachedCommits.drop (target + 1) }) hrole
        have hold : role.entries = role.cachedCommits.length := rfl
        have hnew : { role with cachedCommits := role.cachedCommits.drop (target + 1) : SubsurfaceRoleState }.entries =
            role.cachedCommits.length - (target + 1) := List.length_drop
        rw [Option.elim_some, hold, hnew] at hsum
        rw [cacheSize, cacheSize, List.length_take]
        simp only [HashMap.set] at hsum
        omega

theorem takeThrough_none (h : takeThrough roles reference = none) :
    ∀ c ∈ queue roles reference.surfaceId, c.contentUpdateRef reference.surfaceId ≠ reference := by
  intro c hc
  rw [takeThrough] at h
  cases hrole : roles.lookup reference.surfaceId with
  | none =>
    rw [queue, hrole] at hc
    cases hc
  | some role =>
    rw [hrole] at h
    rw [queue, hrole] at hc
    dsimp only at h
    split at h
    · rename_i hfind
      rw [List.findIdx?_eq_none_iff] at hfind
      simpa using hfind c hc
    · cases h

end Take

structure Ordered (roles : Roles) : Prop where
  sorted : ∀ surfaceId, (queue roles surfaceId).Pairwise fun c d => c.commitSequence < d.commitSequence
  below : ∀ surfaceId, ∀ c ∈ queue roles surfaceId, ∀ r ∈ c.dependencies, r.commitSequence < c.commitSequence

def IsCached (r : ContentUpdateRef) : Prop :=
  ∃ c ∈ queue roles r.surfaceId, c.contentUpdateRef r.surfaceId = r

def UpTo (r : ContentUpdateRef) (c : CachedSubsurfaceCommit) : Prop :=
  ∃ front last rest, queue roles r.surfaceId = front ++ last :: rest ∧ last.contentUpdateRef r.surfaceId = r ∧
    c ∈ front ++ [last]

inductive Reached (roles : Roles) (starts : List ContentUpdateRef) : ℕ → CachedSubsurfaceCommit → Prop where
  | start {r : ContentUpdateRef} {c : CachedSubsurfaceCommit} (hr : r ∈ starts) (hc : UpTo roles r c) :
    Reached roles starts r.surfaceId c
  | next {surfaceId : ℕ} {d c : CachedSubsurfaceCommit} {r : ContentUpdateRef} (hd : Reached roles starts surfaceId d)
    (hr : r ∈ d.dependencies) (hc : UpTo roles r c) : Reached roles starts r.surfaceId c

def Wanted (starts : List ContentUpdateRef) (r : ContentUpdateRef) : Prop :=
  r ∈ starts ∨ ∃ surfaceId d, Reached roles starts surfaceId d ∧ r ∈ d.dependencies

theorem Wanted.reached {roles : Roles} {starts : List ContentUpdateRef} {r : ContentUpdateRef}
    {c : CachedSubsurfaceCommit} (h : Wanted roles starts r) (hc : UpTo roles r c) :
    Reached roles starts r.surfaceId c := by
  rcases h with hstart | ⟨surfaceId, d, hd, hr⟩
  · exact .start hstart hc
  · exact .next hd hr hc

def Settlements.settles (settled : Settlements) (r : ContentUpdateRef) : Bool :=
  settled.isPublished r || settled.isTerminal r

def Handled (settled : Settlements) (external : List ContentUpdateRef)
    (nodes : List (ℕ × CachedSubsurfaceCommit)) (r : ContentUpdateRef) : Prop :=
  (∃ p ∈ nodes, p.2.contentUpdateRef p.1 = r) ∨
    ¬ IsCached roles r ∧ (settled.settles r = true ∨ r ∈ external)

def Placed (settled : Settlements) (external : List ContentUpdateRef)
    (before : List (ℕ × CachedSubsurfaceCommit)) (p : ℕ × CachedSubsurfaceCommit) : Prop :=
  ∀ r ∈ p.2.dependencies, Handled roles settled external before r

section Extraction
variable {roles : Roles} {settled : Settlements} {starts : List ContentUpdateRef}
  {e e' : ContentUpdateCandidateExtractor} {held : List (ℕ × CachedSubsurfaceCommit)}

structure Extracts (roles : Roles) (settled : Settlements) (starts : List ContentUpdateRef)
    (e : ContentUpdateCandidateExtractor) (held : List (ℕ × CachedSubsurfaceCommit)) : Prop where
  taken : ∀ surfaceId, ∃ front, front ++ queue e.roles surfaceId = queue roles surfaceId ∧
    ∀ c, c ∈ front ↔ (surfaceId, c) ∈ e.nodes ++ held
  nodup : (e.nodes ++ held).Nodup
  seen : ∀ r ∈ e.seen, r ∈ e.visiting ∨ ∃ p ∈ e.nodes, p.2.contentUpdateRef p.1 = r
  nodesSeen : ∀ p ∈ e.nodes, p.2.contentUpdateRef p.1 ∈ e.seen
  placed : Justified (Placed roles settled e.externalContentUpdateDependencies) e.nodes
  external : e.externalContentUpdateDependencies.Nodup ∧ ∀ r ∈ e.externalContentUpdateDependencies,
    ¬ IsCached roles r ∧ settled.settles r = false ∧ Wanted roles starts r
  reached : ∀ p ∈ e.nodes ++ held, Reached roles starts p.1 p.2

structure Extends (e e' : ContentUpdateCandidateExtractor) : Prop where
  visiting : e'.visiting = e.visiting
  nodes : e.nodes <+: e'.nodes
  external : e.externalContentUpdateDependencies <+: e'.externalContentUpdateDependencies
  seen : e.seen ⊆ e'.seen
  size : cacheSize e'.roles ≤ cacheSize e.roles

theorem Extends.refl (e : ContentUpdateCandidateExtractor) : Extends e e :=
  ⟨rfl, List.prefix_refl _, List.prefix_refl _, Finset.Subset.refl _, le_refl _⟩

theorem Extends.trans {e'' : ContentUpdateCandidateExtractor} (h : Extends e e') (h' : Extends e' e'') :
    Extends e e'' :=
  ⟨h'.visiting.trans h.visiting, h.nodes.trans h'.nodes, h.external.trans h'.external, h.seen.trans h'.seen,
    h'.size.trans h.size⟩

variable {r : ContentUpdateRef}

theorem Handled.mono {nodes nodes' : List (ℕ × CachedSubsurfaceCommit)} {external external' : List ContentUpdateRef}
    (h : Handled roles settled external nodes r) (hnodes : nodes ⊆ nodes')
    (hexternal : external ⊆ external') : Handled roles settled external' nodes' r := by
  rcases h with ⟨p, hp, hr⟩ | ⟨hcached, hrest⟩
  · exact .inl ⟨p, hnodes hp, hr⟩
  · exact .inr ⟨hcached, hrest.imp_right fun hmem => hexternal hmem⟩

variable {c : CachedSubsurfaceCommit} {surfaceId : ℕ}

theorem Extracts.mem_queue (h : Extracts roles settled starts e held)
    (hc : (surfaceId, c) ∈ e.nodes ++ held) : c ∈ queue roles surfaceId := by
  obtain ⟨front, hsplit, hfront⟩ := h.taken surfaceId
  rw [← hsplit]
  exact List.mem_append_left _ ((hfront c).mpr hc)

theorem Ordered.nodup (h : Ordered roles) (surfaceId : ℕ) : (queue roles surfaceId).Nodup := by
  refine (h.sorted surfaceId).imp fun {c d} hlt heq => ?_
  subst heq
  exact Nat.lt_irrefl _ hlt

theorem Ordered.eq_of_ref (h : Ordered roles) {c d : CachedSubsurfaceCommit}
    (hc : c ∈ queue roles surfaceId) (hd : d ∈ queue roles surfaceId)
    (href : c.contentUpdateRef surfaceId = d.contentUpdateRef surfaceId) : c = d := by
  have hnodup : ((queue roles surfaceId).map (·.commitSequence)).Nodup :=
    List.pairwise_map.mpr ((h.sorted surfaceId).imp fun hlt => Nat.ne_of_lt hlt)
  exact List.inj_on_of_nodup_map hnodup hc hd (congrArg ContentUpdateRef.commitSequence href)

def Visits (roles : Roles) (settled : Settlements) (starts : List ContentUpdateRef) (fuel : ℕ)
    (visit : ContentUpdateCandidateExtractor → ContentUpdateRef → Option ContentUpdateCandidateExtractor) : Prop :=
  ∀ (e : ContentUpdateCandidateExtractor) (held : List (ℕ × CachedSubsurfaceCommit)) (r : ContentUpdateRef),
    Extracts roles settled starts e held → cacheSize e.roles < fuel → Wanted roles starts r →
    (∀ p ∈ held, r.commitSequence < p.2.commitSequence) → (∀ v ∈ e.visiting, r.commitSequence < v.commitSequence) →
    ∃ e', visit e r = some e' ∧ Extracts roles settled starts e' held ∧ Extends e e' ∧
      Handled roles settled e'.externalContentUpdateDependencies e'.nodes r

variable {fuel : ℕ}
  {visit : ContentUpdateCandidateExtractor → ContentUpdateRef → Option ContentUpdateCandidateExtractor}

theorem visits_dependencies (hvisit : Visits roles settled starts fuel visit) {refs : List ContentUpdateRef}
    (h : Extracts roles settled starts e held) (hfuel : cacheSize e.roles < fuel)
    (hwanted : ∀ r ∈ refs, Wanted roles starts r)
    (hheld : ∀ r ∈ refs, ∀ p ∈ held, r.commitSequence < p.2.commitSequence)
    (hvisiting : ∀ r ∈ refs, ∀ v ∈ e.visiting, r.commitSequence < v.commitSequence) :
    ∃ e', refs.foldlM visit e = some e' ∧ Extracts roles settled starts e' held ∧ Extends e e' ∧
      ∀ r ∈ refs, Handled roles settled e'.externalContentUpdateDependencies e'.nodes r := by
  induction refs generalizing e with
  | nil => exact ⟨e, rfl, h, .refl e, nofun⟩
  | cons r refs ih =>
    obtain ⟨e₁, he₁, h₁, hextends₁, hr⟩ := hvisit e held r h hfuel (hwanted r List.mem_cons_self)
      (hheld r List.mem_cons_self) (hvisiting r List.mem_cons_self)
    obtain ⟨e₂, he₂, h₂, hextends₂, hrefs⟩ := ih h₁ (hextends₁.size.trans_lt hfuel)
      (fun r' hr' => hwanted r' (List.mem_cons_of_mem _ hr')) (fun r' hr' => hheld r' (List.mem_cons_of_mem _ hr'))
      (fun r' hr' => by rw [hextends₁.visiting]; exact hvisiting r' (List.mem_cons_of_mem _ hr'))
    refine ⟨e₂, ?_, h₂, hextends₁.trans hextends₂, fun r' hr' => ?_⟩
    · rw [List.foldlM_cons, he₁]
      exact he₂
    · rcases List.mem_cons.mp hr' with rfl | hr'
      · exact hr.mono hextends₂.nodes.subset hextends₂.external.subset
      · exact hrefs r' hr'

theorem Extracts.begin (reference : ContentUpdateRef) (h : Extracts roles settled starts e held) :
    Extracts roles settled starts
      { e with seen := insert reference e.seen, visiting := insert reference e.visiting } held where
  taken := h.taken
  nodup := h.nodup
  seen r hr := by
    rcases Finset.mem_insert.mp hr with rfl | hr
    · exact .inl (Finset.mem_insert_self _ _)
    · exact (h.seen r hr).imp_left fun hvisiting => Finset.mem_insert_of_mem hvisiting
  nodesSeen p hp := Finset.mem_insert_of_mem (h.nodesSeen p hp)
  placed := h.placed
  external := h.external
  reached := h.reached

theorem Extracts.finish
    (h : Extracts roles settled starts e ((surfaceId, c) :: held)) (hseen : c.contentUpdateRef surfaceId ∈ e.seen)
    (hdependencies : ∀ r ∈ c.dependencies, Handled roles settled e.externalContentUpdateDependencies e.nodes r) :
    Extracts roles settled starts { e with
      visiting := e.visiting.erase (c.contentUpdateRef surfaceId), nodes := e.nodes ++ [(surfaceId, c)] } held where
  taken surfaceId' := by
    obtain ⟨front, hsplit, hfront⟩ := h.taken surfaceId'
    refine ⟨front, hsplit, fun d => ?_⟩
    rw [hfront, List.append_cons]
  nodup := by
    have := h.nodup
    rwa [List.append_cons] at this
  seen r hr := by
    rcases h.seen r hr with hvisiting | ⟨p, hp, href⟩
    · by_cases hthis : r = c.contentUpdateRef surfaceId
      · exact .inr ⟨(surfaceId, c), List.mem_append_right _ (List.mem_singleton_self _), hthis.symm⟩
      · exact .inl (Finset.mem_erase.mpr ⟨hthis, hvisiting⟩)
    · exact .inr ⟨p, List.mem_append_left _ hp, href⟩
  nodesSeen p hp := by
    rcases List.mem_append.mp hp with hp | hp
    · exact h.nodesSeen p hp
    · rw [List.mem_singleton.mp hp]
      exact hseen
  placed := h.placed.snoc hdependencies
  external := h.external
  reached p hp := by
    apply h.reached
    rwa [List.append_cons]

theorem visitCommit_spec (hroles : Ordered roles) (hvisit : Visits roles settled starts fuel visit)
    (h : Extracts roles settled starts e ((surfaceId, c) :: held))
    (hfuel : cacheSize e.roles < fuel) (hheld : ∀ p ∈ held, c.commitSequence < p.2.commitSequence)
    (hvisiting : ∀ v ∈ e.visiting, c.commitSequence < v.commitSequence) :
    ∃ e', ContentUpdateCandidateExtractor.visitCommit visit surfaceId e c = some e' ∧
      Extracts roles settled starts e' held ∧ Extends e e' ∧ (surfaceId, c) ∈ e'.nodes := by
  have hmem : (surfaceId, c) ∈ e.nodes ++ (surfaceId, c) :: held := List.mem_append_right _ List.mem_cons_self
  have hcached := h.mem_queue hmem
  have hreached := h.reached _ hmem
  have hnotVisiting : c.contentUpdateRef surfaceId ∉ e.visiting := fun hin => Nat.lt_irrefl _ (hvisiting _ hin)
  have hnotSeen : c.contentUpdateRef surfaceId ∉ e.seen := by
    intro hin
    rcases h.seen _ hin with hin | ⟨⟨surfaceId', d⟩, hd, href⟩
    · exact hnotVisiting hin
    · -- the node with this reference would be the held commit itself
      have hsame : surfaceId' = surfaceId := congrArg ContentUpdateRef.surfaceId href
      subst hsame
      have heq := hroles.eq_of_ref (h.mem_queue (List.mem_append_left _ hd)) hcached href
      subst heq
      exact (List.nodup_append.mp h.nodup).2.2 _ hd _ List.mem_cons_self rfl
  have hbelow := hroles.below surfaceId c hcached
  obtain ⟨e₁, he₁, h₁, hextends, hhandled⟩ := visits_dependencies hvisit
    (h.begin (c.contentUpdateRef surfaceId)) hfuel (fun r hr => .inr ⟨surfaceId, c, hreached, hr⟩)
    (fun r hr p hp => by
      rcases List.mem_cons.mp hp with rfl | hp
      · exact hbelow r hr
      · exact (hbelow r hr).trans (hheld p hp))
    (fun r hr v hv => by
      rcases Finset.mem_insert.mp hv with rfl | hv
      · exact hbelow r hr
      · exact (hbelow r hr).trans (hvisiting v hv))
  have hin : c.contentUpdateRef surfaceId ∈ e₁.seen := hextends.seen (Finset.mem_insert_self _ _)
  refine ⟨_, ?_, h₁.finish hin hhandled, ?_, List.mem_append_right _ (List.mem_singleton_self _)⟩
  · simp only [ContentUpdateCandidateExtractor.visitCommit, if_neg hnotSeen, if_neg hnotVisiting, he₁, bind,
      Option.bind, pure]
  · refine ⟨?_, hextends.nodes.trans (List.prefix_append _ _), hextends.external,
      (Finset.subset_insert _ _).trans hextends.seen, hextends.size⟩
    dsimp only
    rw [hextends.visiting, Finset.erase_insert hnotVisiting]

theorem visitCommits_spec (hroles : Ordered roles) (hvisit : Visits roles settled starts fuel visit)
    {commits : List CachedSubsurfaceCommit}
    (h : Extracts roles settled starts e (commits.map (surfaceId, ·) ++ held)) (hfuel : cacheSize e.roles < fuel)
    (hsorted : commits.Pairwise fun c d => c.commitSequence < d.commitSequence)
    (hheld : ∀ c ∈ commits, ∀ p ∈ held, c.commitSequence < p.2.commitSequence)
    (hvisiting : ∀ c ∈ commits, ∀ v ∈ e.visiting, c.commitSequence < v.commitSequence) :
    ∃ e', commits.foldlM (ContentUpdateCandidateExtractor.visitCommit visit surfaceId) e = some e' ∧
      Extracts roles settled starts e' held ∧ Extends e e' ∧ ∀ c ∈ commits, (surfaceId, c) ∈ e'.nodes := by
  induction commits generalizing e with
  | nil => exact ⟨e, rfl, h, .refl e, nofun⟩
  | cons c commits ih =>
    obtain ⟨hfirst, hsorted⟩ := List.pairwise_cons.mp hsorted
    obtain ⟨e₁, he₁, h₁, hextends₁, hnode⟩ := visitCommit_spec hroles hvisit h hfuel
      (fun p hp => by
        rcases List.mem_append.mp hp with hp | hp
        · obtain ⟨d, hd, rfl⟩ := List.mem_map.mp hp
          exact hfirst d hd
        · exact hheld c List.mem_cons_self p hp)
      (hvisiting c List.mem_cons_self)
    obtain ⟨e₂, he₂, h₂, hextends₂, hnodes⟩ := ih h₁ (hextends₁.size.trans_lt hfuel) hsorted
      (fun d hd => hheld d (List.mem_cons_of_mem _ hd))
      (fun d hd => by rw [hextends₁.visiting]; exact hvisiting d (List.mem_cons_of_mem _ hd))
    refine ⟨e₂, ?_, h₂, hextends₁.trans hextends₂, fun d hd => ?_⟩
    · rw [List.foldlM_cons, he₁]
      exact he₂
    · rcases List.mem_cons.mp hd with rfl | hd
      · exact hextends₂.nodes.subset hnode
      · exact hnodes d hd

theorem Extracts.take {commits : List CachedSubsurfaceCommit} {roles' : Roles}
    (h : Extracts roles settled starts e held) (hroles : Ordered roles) (hwanted : Wanted roles starts r)
    (htakes : Takes e.roles r commits roles') :
    Extracts roles settled starts { e with roles := roles' } (commits.map (r.surfaceId, ·) ++ held) := by
  obtain ⟨front, hsplit, hfront⟩ := h.taken r.surfaceId
  have hqueue : (front ++ commits) ++ queue roles' r.surfaceId = queue roles r.surfaceId := by
    rw [List.append_assoc, htakes.split, hsplit]
  have hnodupQueue := hroles.nodup r.surfaceId
  have hfresh : ∀ c ∈ commits, (r.surfaceId, c) ∉ e.nodes ++ held := by
    intro c hc hin
    rw [← hqueue, List.append_assoc] at hnodupQueue
    exact (List.nodup_append.mp hnodupQueue).2.2 c ((hfront c).mpr hin) c (List.mem_append_left _ hc) rfl
  have hcommits : commits.Nodup := by
    rw [← hqueue, List.append_assoc] at hnodupQueue
    exact (List.nodup_append.mp (List.nodup_append.mp hnodupQueue).2.1).1
  refine ⟨fun surfaceId => ?_, ?_, h.seen, h.nodesSeen, h.placed, h.external, fun p hp => ?_⟩
  · by_cases hsame : surfaceId = r.surfaceId
    · subst hsame
      refine ⟨front ++ commits, hqueue, fun c => ?_⟩
      simp only [List.mem_append, hfront, List.mem_map, Prod.mk.injEq, true_and, exists_eq_right]
      tauto
    · obtain ⟨front', hsplit', hfront'⟩ := h.taken surfaceId
      refine ⟨front', ?_, fun c => ?_⟩
      · rw [htakes.other surfaceId hsame]
        exact hsplit'
      · rw [hfront']
        have : (surfaceId, c) ∉ commits.map (r.surfaceId, ·) := by
          intro hin
          obtain ⟨d, -, hd⟩ := List.mem_map.mp hin
          exact hsame (congrArg Prod.fst hd).symm
        simp only [List.mem_append, this, false_or]
  · have hperm : (e.nodes ++ (commits.map (r.surfaceId, ·) ++ held)).Perm
        (commits.map (r.surfaceId, ·) ++ (e.nodes ++ held)) := by
      rw [← List.append_assoc, ← List.append_assoc]
      exact List.perm_append_comm.append_right held
    rw [hperm.nodup_iff, List.nodup_append]
    refine ⟨hcommits.map fun c d hcd => congrArg Prod.snd hcd, h.nodup, fun p hp q hq hpq => ?_⟩
    subst hpq
    obtain ⟨c, hc, rfl⟩ := List.mem_map.mp hp
    exact hfresh c hc hq
  · rcases List.mem_append.mp hp with hp | hp
    · exact h.reached p (List.mem_append_left _ hp)
    · rcases List.mem_append.mp hp with hp | hp
      · obtain ⟨c, hc, rfl⟩ := List.mem_map.mp hp
        obtain ⟨before, last, hlast, href⟩ := htakes.last
        refine hwanted.reached ⟨front ++ before, last, queue roles' r.surfaceId, ?_, href, ?_⟩
        · rw [← hqueue, hlast]
          simp
        · rw [hlast] at hc
          rw [List.append_assoc]
          exact List.mem_append_right _ hc
      · exact h.reached p (List.mem_append_right _ hp)

theorem Extracts.list (h : Extracts roles settled starts e held) (hcached : ¬ IsCached roles r)
    (hsettled : settled.settles r = false) (hwanted : Wanted roles starts r)
    (hnew : r ∉ e.externalContentUpdateDependencies) : Extracts roles settled starts
      { e with externalContentUpdateDependencies := e.externalContentUpdateDependencies ++ [r] } held where
  taken := h.taken
  nodup := h.nodup
  seen := h.seen
  nodesSeen := h.nodesSeen
  placed i p hp r' hr' := (h.placed i p hp r' hr').mono (List.Subset.refl _) (List.subset_append_left _ _)
  external := by
    refine ⟨?_, fun r' hr' => ?_⟩
    · rw [List.nodup_append]
      refine ⟨h.external.1, List.nodup_singleton _, fun a ha b hb hab => ?_⟩
      rw [List.mem_singleton] at hb
      rw [hab, hb] at ha
      exact hnew ha
    · rcases List.mem_append.mp hr' with hr' | hr'
      · exact h.external.2 r' hr'
      · rw [List.mem_singleton.mp hr']
        exact ⟨hcached, hsettled, hwanted⟩
  reached := h.reached

theorem visitReference_spec (settled : Settlements) (hroles : Ordered roles) (fuel : ℕ) :
    Visits roles settled starts fuel (ContentUpdateCandidateExtractor.visitReference settled fuel) := by
  induction fuel with
  | zero => exact fun e held r h hfuel => absurd hfuel (Nat.not_lt_zero _)
  | succ fuel ih =>
    intro e held r h hfuel hwanted hheld hvisiting
    have hnotVisiting : r ∉ e.visiting := fun hin => Nat.lt_irrefl _ (hvisiting r hin)
    rw [ContentUpdateCandidateExtractor.visitReference, if_neg hnotVisiting]
    by_cases hseen : r ∈ e.seen
    · rw [if_pos hseen]
      refine ⟨e, rfl, h, .refl e, .inl ?_⟩
      exact (h.seen r hseen).resolve_left hnotVisiting
    · rw [if_neg hseen]
      cases htake : takeThrough e.roles r with
      | some result =>
        obtain ⟨commits, roles'⟩ := result
        have htakes := takeThrough_some htake
        obtain ⟨before, last, hlast, href⟩ := htakes.last
        have hsize := htakes.size
        have hsublist : commits.Sublist (queue roles r.surfaceId) := by
          obtain ⟨front, hsplit, -⟩ := h.taken r.surfaceId
          rw [← hsplit, ← htakes.split]
          exact (List.sublist_append_left _ _).trans (List.sublist_append_right _ _)
        have hsorted := (hroles.sorted r.surfaceId).sublist hsublist
        -- the queue is in order, so what is taken is no later than the reference
        have hupTo : ∀ c ∈ commits, c.commitSequence ≤ r.commitSequence := by
          intro c hc
          have hsequence : last.commitSequence = r.commitSequence := congrArg ContentUpdateRef.commitSequence href
          rw [hlast] at hc hsorted
          rcases List.mem_append.mp hc with hc | hc
          · rw [← hsequence]
            exact Nat.le_of_lt ((List.pairwise_append.mp hsorted).2.2 c hc last (List.mem_singleton_self _))
          · rw [List.mem_singleton.mp hc, hsequence]
        have hlength : commits.length ≠ 0 := by rw [hlast, List.length_append, List.length_singleton]; omega
        obtain ⟨e', he', h', hextends, hnodes⟩ := visitCommits_spec hroles ih (h.take hroles hwanted htakes)
          (by dsimp only; omega) hsorted
          (fun c hc p hp => (hupTo c hc).trans_lt (hheld p hp))
          (fun c hc v hv => (hupTo c hc).trans_lt (hvisiting v hv))
        have hreferenced := hnodes last (by rw [hlast]; exact List.mem_append_right _ (List.mem_singleton_self _))
        refine ⟨e', he', h', ⟨hextends.visiting, hextends.nodes, hextends.external, hextends.seen, ?_⟩,
          .inl ⟨_, hreferenced, href⟩⟩
        have := hextends.size
        dsimp only at this
        omega
      | none =>
        have hnotQueued := takeThrough_none htake
        have hcached : ¬ IsCached roles r := by
          rintro ⟨c, hc, href⟩
          obtain ⟨front, hsplit, hfront⟩ := h.taken r.surfaceId
          rw [← hsplit] at hc
          rcases List.mem_append.mp hc with hc | hc
          · rcases List.mem_append.mp ((hfront c).mp hc) with hnode | hbusy
            · have := h.nodesSeen _ hnode
              rw [href] at this
              exact hseen this
            · have := hheld _ hbusy
              rw [← href] at this
              exact Nat.lt_irrefl _ this
          · exact hnotQueued c hc href
        dsimp only
        by_cases hsettled : (settled.isPublished r || settled.isTerminal r) = true
        · rw [if_pos hsettled]
          exact ⟨e, rfl, h, .refl e, .inr ⟨hcached, .inl hsettled⟩⟩
        · rw [if_neg hsettled]
          by_cases hlisted : r ∈ e.externalContentUpdateDependencies
          · rw [if_pos hlisted]
            exact ⟨e, rfl, h, .refl e, .inr ⟨hcached, .inr hlisted⟩⟩
          · rw [if_neg hlisted]
            refine ⟨_, rfl, h.list hcached (Bool.not_eq_true _ ▸ hsettled) hwanted hlisted,
              ⟨rfl, List.prefix_refl _, List.prefix_append _ _, Finset.Subset.refl _, le_refl _⟩, .inr
                ⟨hcached, .inr ?_⟩⟩
            exact List.mem_append_right _ (List.mem_singleton_self _)

structure RootFits (roles : Roles) (rootSurfaceId : ℕ) (root : CachedSubsurfaceCommit) : Prop where
  below : ∀ r ∈ root.dependencies, r.commitSequence < root.commitSequence
  fresh : ∀ c ∈ queue roles rootSurfaceId, c ≠ root

/-- What a commit carries: exactly the cached commits it leads to, each once and after what it depends on, then the
commit itself. -/
structure Carries (roles : Roles) (settled : Settlements) (rootSurfaceId : ℕ) (root : CachedSubsurfaceCommit)
    (e : ContentUpdateCandidateExtractor) : Prop where
  nodes : ∃ children, e.nodes = children ++ [(rootSurfaceId, root)] ∧
    ∀ p, p ∈ children ↔ Reached roles root.dependencies p.1 p.2
  nodup : e.nodes.Nodup
  placed : Justified (Placed roles settled e.externalContentUpdateDependencies) e.nodes
  cache : ∀ surfaceId, ∃ front, front ++ queue e.roles surfaceId = queue roles surfaceId ∧
    ∀ c, c ∈ front ↔ Reached roles root.dependencies surfaceId c
  external : e.externalContentUpdateDependencies.Nodup ∧ ∀ r, r ∈ e.externalContentUpdateDependencies ↔
    Wanted roles root.dependencies r ∧ ¬ IsCached roles r ∧ settled.settles r = false

theorem Extracts.closed (h : Extracts roles settled starts e []) (hroles : Ordered roles)
    (hr : Handled roles settled e.externalContentUpdateDependencies e.nodes r)
    (hc : UpTo roles r c) : (r.surfaceId, c) ∈ e.nodes := by
  obtain ⟨front, last, rest, hqueue, hlast, hc⟩ := hc
  have hlastIn : last ∈ queue roles r.surfaceId := by
    rw [hqueue]
    exact List.mem_append_right _ List.mem_cons_self
  rcases hr with ⟨⟨surfaceId, d⟩, hd, href⟩ | ⟨hcached, -⟩
  · have hsame : surfaceId = r.surfaceId := congrArg ContentUpdateRef.surfaceId href
    subst hsame
    have hdIn := h.mem_queue (List.mem_append_left _ hd)
    have heq := hroles.eq_of_ref hdIn hlastIn (href.trans hlast.symm)
    subst heq
    obtain ⟨taken, hsplit, htaken⟩ := h.taken r.surfaceId
    have hsorted := hroles.sorted r.surfaceId
    have hcLe : c.commitSequence ≤ d.commitSequence := by
      rw [hqueue] at hsorted
      rcases List.mem_append.mp hc with hc | hc
      · exact Nat.le_of_lt ((List.pairwise_append.mp hsorted).2.2 c hc d List.mem_cons_self)
      · rw [List.mem_singleton.mp hc]
    have hcIn : c ∈ taken ++ queue e.roles r.surfaceId := by
      rw [hsplit, hqueue, List.append_cons]
      exact List.mem_append_left _ hc
    rcases List.mem_append.mp hcIn with hcTaken | hcLeft
    · simpa using (htaken c).mp hcTaken
    · rw [← hsplit] at hsorted
      have hdTaken := (htaken d).mpr (List.mem_append_left _ hd)
      exact absurd ((List.pairwise_append.mp hsorted).2.2 d hdTaken c hcLeft) (Nat.not_lt.mpr hcLe)
  · exact absurd ⟨last, hlastIn, hlast⟩ hcached

theorem Extracts.handled_of_node (h : Extracts roles settled starts e []) {p : ℕ × CachedSubsurfaceCommit}
    (hp : p ∈ e.nodes) (hr : r ∈ p.2.dependencies) :
    Handled roles settled e.externalContentUpdateDependencies e.nodes r := by
  obtain ⟨i, hi⟩ := List.getElem?_of_mem hp
  exact (h.placed i p hi r hr).mono (List.take_subset _ _) (List.Subset.refl _)

theorem Extracts.complete (h : Extracts roles settled starts e []) (hroles : Ordered roles)
    (hstarts : ∀ r ∈ starts, Handled roles settled e.externalContentUpdateDependencies e.nodes r)
    (hreached : Reached roles starts surfaceId c) : (surfaceId, c) ∈ e.nodes := by
  induction hreached with
  | start hr hc => exact h.closed hroles (hstarts _ hr) hc
  | next hd hr hc ih => exact h.closed hroles (h.handled_of_node ih hr) hc

theorem extracts_start (roles : Roles) (settled : Settlements) (starts : List ContentUpdateRef) :
    Extracts roles settled starts ⟨roles, [], [], ∅, ∅⟩ [] where
  taken surfaceId := ⟨[], rfl, fun c => by simp⟩
  nodup := List.nodup_nil
  seen r hr := absurd hr (Finset.notMem_empty r)
  nodesSeen p hp := by cases hp
  placed := justified_nil
  external := ⟨List.nodup_nil, nofun⟩
  reached p hp := by cases hp

theorem extract_carries (settled : Settlements) (hroles : Ordered roles) {rootSurfaceId : ℕ}
    {root : CachedSubsurfaceCommit} (hroot : RootFits roles rootSurfaceId root) :
    ∃ e, extractContentUpdateCandidate settled roles rootSurfaceId root = some e ∧
      Carries roles settled rootSurfaceId root e := by
  have hstart := (extracts_start roles settled root.dependencies).begin (root.contentUpdateRef rootSurfaceId)
  obtain ⟨e, he, h, -, hhandled⟩ := visits_dependencies
    (visitReference_spec settled hroles (cacheSize roles + 1)) hstart (Nat.lt_succ_self _)
    (fun r hr => .inl hr) (fun r hr p hp => by cases hp)
    (fun r hr v hv => by
      rw [Finset.mem_insert] at hv
      rcases hv with rfl | hv
      · exact hroot.below r hr
      · exact absurd hv (Finset.notMem_empty v))
  have hcached : ∀ p ∈ e.nodes, p.2 ∈ queue roles p.1 := fun p hp => h.mem_queue (List.mem_append_left _ hp)
  have hnodes : ∀ p, p ∈ e.nodes ↔ Reached roles root.dependencies p.1 p.2 := fun p =>
    ⟨fun hp => h.reached p (List.mem_append_left _ hp), fun hp => h.complete hroles hhandled hp⟩
  refine ⟨{ e with
    visiting := e.visiting.erase (root.contentUpdateRef rootSurfaceId), nodes := e.nodes ++ [(rootSurfaceId, root)] },
    ?_, ⟨e.nodes, rfl, hnodes⟩, ?_, h.placed.snoc hhandled, fun surfaceId => ?_, h.external.1, fun r => ?_⟩
  · simp only [extractContentUpdateCandidate, ContentUpdateCandidateExtractor.visitCommit,
      if_neg (Finset.notMem_empty _), he, bind, Option.bind, pure]
  · rw [List.nodup_append]
    have hnodup := h.nodup
    rw [List.append_nil] at hnodup
    refine ⟨hnodup, List.nodup_singleton _, fun p hp q hq hpq => ?_⟩
    rw [List.mem_singleton] at hq
    rw [hpq, hq] at hp
    exact hroot.fresh root (hcached _ hp) rfl
  · obtain ⟨front, hsplit, hfront⟩ := h.taken surfaceId
    refine ⟨front, hsplit, fun c => ?_⟩
    rw [hfront, List.append_nil]
    exact hnodes (surfaceId, c)
  · refine ⟨fun hr => ?_, fun ⟨hwanted, huncached, hunsettled⟩ => ?_⟩
    · obtain ⟨h₁, h₂, h₃⟩ := h.external.2 r hr
      exact ⟨h₃, h₁, h₂⟩
    · have hthis : Handled roles settled e.externalContentUpdateDependencies e.nodes r := by
        rcases hwanted with hstart | ⟨surfaceId, d, hd, hr⟩
        · exact hhandled r hstart
        · exact h.handled_of_node ((hnodes (surfaceId, d)).mpr hd) hr
      rcases hthis with ⟨p, hp, href⟩ | ⟨-, hsettled | hlisted⟩
      · have hsame : p.1 = r.surfaceId := congrArg ContentUpdateRef.surfaceId href
        exact absurd ⟨p.2, hsame ▸ hcached p hp, hsame ▸ href⟩ huncached
      · rw [hunsettled] at hsettled
        cases hsettled
      · exact hlisted

end Extraction

end Typhon.Surfaces
