import Meliproxy.Envoy.Upstream.InitHelperRuns

/-!
# Who the init helper waits for

As long as the helper waits for clusters it is for one that was called, or for the primary clusters;
to forget a cluster that is in no list does nothing then. A cluster is in a list from when it is
added until it reports or is removed, so that the helper has finished when all of them have.
-/

namespace Meliproxy.Envoy.Upstream

open Lib List

namespace InitRun

variable {r r' : InitRun} {cluster c : InitCluster} {event : Event}

/-- The lists hold the clusters of their phase. -/
def Phased (r : InitHelper) : Prop :=
  (∀ c ∈ r.primaryInitClusters, c.initializePhase = .primary) ∧
    ∀ c ∈ r.secondaryInitClusters, c.initializePhase = .secondary

structure Waits (r : InitRun) : Prop where
  busy : r.state = .waitingForStaticInitialize ∨ r.state = .cdsInitialized →
    r.primaryInitClusters ≠ [] ∨
      (r.secondaryInitClusters ≠ [] ∧ r.startedSecondaryInitialize = true)
  primary : ∀ c ∈ r.primaryInitClusters, c ∈ r.tracked
  phased : Phased r.toInitHelper
  cds : r.state = .waitingForCdsInitialize → r.cds = true
  empty : r.state = .allClustersInitialized →
    r.primaryInitClusters = [] ∧ r.secondaryInitClusters = []

theorem waits_start (cds : Bool) : (start cds).Waits where
  busy := fun h => by rcases h with h | h <;> cases h
  primary := fun _ h => absurd h not_mem_nil
  phased := ⟨nofun, nofun⟩
  cds := fun h => by cases h
  empty := fun h => by cases h

theorem maybeFinishInitialize_lists (h : r.maybeFinishInitialize = some r') :
    r'.primaryInitClusters = r.primaryInitClusters ∧
      r'.secondaryInitClusters = r.secondaryInitClusters ∧ r'.tracked = r.tracked := by
  cases finish_of_maybeFinishInitialize h with
  | waiting | looping => exact ⟨rfl, rfl, rfl⟩
  | finishing =>
    rcases finishPhase_cases { r with startedSecondaryInitialize := false } with
      ⟨-, heq⟩ | ⟨-, heq⟩ | ⟨callback, -, heq⟩ <;> rw [heq] <;> exact ⟨rfl, rfl, rfl⟩

theorem maybeFinishInitialize_waits (h : r.maybeFinishInitialize = some r')
    (hprimary : ∀ c ∈ r.primaryInitClusters, c ∈ r.tracked) (hphased : Phased r.toInitHelper)
    (hcds : r.state = .waitingForCdsInitialize → r.cds = true) : r'.Waits := by
  cases finish_of_maybeFinishInitialize h with
  | waiting hstate hwait =>
    refine ⟨fun hs => ?_, hprimary, hphased, hcds, fun hs => absurd hs hstate⟩
    rcases hwait with hw | hw | hw | hw
    · rcases hs with hs | hs <;> cases hw.symm.trans hs
    · rcases hs with hs | hs <;> cases hw.symm.trans hs
    · exact .inl hw
    · exact .inr hw
  | looping hstate hnil hsecondary =>
    refine ⟨fun _ => .inr ⟨?_, rfl⟩, hprimary, hphased, hcds, fun hs => ?_⟩
    · rw [show _ = r.secondaryInitClusters from rfl, hsecondary]
      exact cons_ne_nil _ _
    · rcases hstate with hw | hw <;> cases hw.symm.trans hs
  | finishing hstate hnil hsecondary =>
    rcases finishPhase_cases { r with startedSecondaryInitialize := false } with
      ⟨⟨-, hs⟩, heq⟩ | ⟨-, heq⟩ | ⟨callback, -, heq⟩ <;> rw [heq]
    · exact ⟨fun hs => (by rcases hs with hs | hs <;> cases hs), hprimary, hphased, fun _ => hs,
        fun hs => (by cases hs)⟩
    all_goals
      exact ⟨fun hs => (by rcases hs with hs | hs <;> cases hs), hprimary, hphased,
        fun hs => (by cases hs), fun _ => ⟨hnil, hsecondary⟩⟩

theorem unlist_primary (r : InitRun) (cluster : InitCluster) :
    ∀ c ∈ (r.unlist cluster).primaryInitClusters, c ∈ r.primaryInitClusters := by
  intro c hc
  unfold unlist at hc
  cases hphase : cluster.initializePhase with
  | primary =>
    rw [hphase] at hc
    exact (mem_filter.mp hc).1
  | secondary =>
    rw [hphase] at hc
    exact hc

theorem Phased.unlist (h : Phased r.toInitHelper) (cluster : InitCluster) :
    Phased (r.unlist cluster).toInitHelper := by
  unfold InitRun.unlist
  cases cluster.initializePhase with
  | primary => exact ⟨fun c hc => h.1 c (mem_filter.mp hc).1, h.2⟩
  | secondary => exact ⟨h.1, fun c hc => h.2 c (mem_filter.mp hc).1⟩

theorem Phased.enlist (h : Phased r.toInitHelper) (cluster : InitCluster) :
    Phased (r.enlist cluster).toInitHelper := by
  unfold InitRun.enlist
  cases hphase : cluster.initializePhase with
  | primary =>
    exact ⟨fun c hc => (mem_append.mp hc).elim (h.1 c) fun hc => mem_singleton.mp hc ▸ hphase, h.2⟩
  | secondary =>
    exact ⟨h.1, fun c hc => (mem_append.mp hc).elim (h.2 c) fun hc => mem_singleton.mp hc ▸ hphase⟩

section

variable (h : r.Waits)
include h

theorem Waits.removeCluster (hremove : r.removeCluster cluster = some r') :
    r'.Waits := by
  unfold InitRun.removeCluster at hremove
  split at hremove
  · cases hremove
    exact h
  · exact maybeFinishInitialize_waits hremove
      (fun c hc => h.primary c (unlist_primary r cluster c hc)) (h.phased.unlist cluster) h.cds

theorem Waits.of_eq (hhelper : r'.toInitHelper = r.toInitHelper)
    (htracked : ∀ c ∈ r.tracked, c ∈ r'.tracked) : r'.Waits := by
  obtain ⟨hbusy, hprimary, hphased, hcds, hempty⟩ := h
  refine ⟨?_, ?_, ?_, ?_, ?_⟩ <;> rw [hhelper]
  · exact hbusy
  · exact fun c hc => htracked c (hprimary c hc)
  · exact hphased
  · exact hcds
  · exact hempty

theorem Waits.enlist (hall : r.state ≠ .allClustersInitialized)
    (hcluster : cluster ∈ r.tracked) : (r.enlist cluster).Waits := by
  have hne : ∀ {l : List InitCluster}, l ≠ [] → l ++ [cluster] ≠ [] :=
    fun _ => append_ne_nil_of_right_ne_nil _ (cons_ne_nil _ _)
  refine ⟨fun hs => ?_, fun c hc => ?_, h.phased.enlist cluster, h.cds, fun hs => absurd hs hall⟩
  · unfold InitRun.enlist
    cases cluster.initializePhase with
    | primary => exact (h.busy hs).imp_left hne
    | secondary => exact (h.busy hs).imp_right fun hw => ⟨hne hw.1, hw.2⟩
  · unfold InitRun.enlist at hc
    cases hphase : cluster.initializePhase with
    | primary =>
      rw [hphase] at hc
      rcases mem_append.mp hc with hc | hc
      · exact h.primary c hc
      · rw [mem_singleton.mp hc]
        exact hcluster
    | secondary =>
      rw [hphase] at hc
      exact h.primary c hc

theorem Waits.addCluster (cluster : InitCluster) :
    ((r.recordAdded cluster).addCluster cluster).Waits := by
  have hhelper := recordAdded_state r cluster
  have hrecord : (r.recordAdded cluster).Waits := by
    refine h.of_eq hhelper fun c hc => ?_
    unfold recordAdded
    split
    · exact mem_cons_of_mem _ hc
    · exact hc
    · exact mem_cons_of_mem _ hc
  unfold InitRun.addCluster
  split
  · exact hrecord.of_eq rfl fun _ hc => hc
  · rename_i hall
    have hall' := hall
    rw [congrArg InitHelper.state hhelper] at hall'
    have henlist := hrecord.enlist hall
      (by rw [recordAdded_tracked hall']; exact mem_cons_self)
    dsimp only
    split
    · exact henlist.of_eq rfl fun _ hc => hc
    · split <;> exact henlist.of_eq rfl fun _ hc => hc

theorem Waits.returned (hreturned : r.returned = some r') : r'.Waits := by
  obtain ⟨hhelper, htracked, -⟩ := returned_same hreturned
  exact h.of_eq hhelper fun c hc => htracked.symm ▸ hc

theorem Waits.step (hstep : r.step event = some r') : r'.Waits := by
  cases steps_of_step hstep with
  | addCluster => exact h.addCluster _
  | @removeCluster cluster r' _ _ hremove =>
    have hsame : Waits { r with removed := cluster :: r.removed } := h.of_eq rfl fun _ hc => hc
    exact hsame.removeCluster hremove
  | @clusterInitialized cluster r' _ hremove =>
    have hsame : Waits { r with finished := cluster :: r.finished } := h.of_eq rfl fun _ hc => hc
    exact hsame.removeCluster hremove
  | onStaticLoadComplete _ hfinish | cdsInitialized _ hfinish =>
    exact maybeFinishInitialize_waits hfinish h.primary h.phased nofun
  | setInitializedCb =>
    unfold InitRun.setInitializedCb
    split
    · exact h.of_eq rfl fun _ hc => hc
    · exact { h with }
  | returned hreturned => exact h.returned hreturned

end

theorem listed_unlist (h : (r.unlist cluster).Listed c) : r.Listed c ∧ c ≠ cluster := by
  have hfilter : ∀ {l : List InitCluster}, c ∈ l.filter (· ≠ cluster) → c ∈ l ∧ c ≠ cluster :=
    fun hc => ⟨(mem_filter.mp hc).1, of_decide_eq_true (mem_filter.mp hc).2⟩
  unfold Listed InitRun.unlist at *
  cases hphase : cluster.initializePhase <;> cases hc : c.initializePhase <;>
    simp only [hphase, hc] at h ⊢
  · exact hfilter h
  · exact ⟨h, fun he => by rw [he, hphase] at hc; cases hc⟩
  · exact ⟨h, fun he => by rw [he, hphase] at hc; cases hc⟩
  · exact hfilter h

theorem listed_enlist (h : (r.enlist cluster).Listed c) : r.Listed c ∨ c = cluster := by
  have happend : ∀ {l : List InitCluster}, c ∈ l ++ [cluster] → c ∈ l ∨ c = cluster :=
    fun hc => (mem_append.mp hc).imp_right mem_singleton.mp
  unfold Listed InitRun.enlist at *
  cases hphase : cluster.initializePhase <;> cases hc : c.initializePhase <;>
    simp only [hphase, hc] at h ⊢
  · exact happend h
  · exact .inl h
  · exact .inl h
  · exact happend h

theorem listed_of_eq (hprimary : r'.primaryInitClusters = r.primaryInitClusters)
    (hsecondary : r'.secondaryInitClusters = r.secondaryInitClusters) (h : r'.Listed c) :
    r.Listed c := by
  unfold Listed at *
  rw [hprimary, hsecondary] at h
  exact h

theorem listed_of_toInitHelper (hhelper : r'.toInitHelper = r.toInitHelper) (h : r'.Listed c) :
    r.Listed c :=
  listed_of_eq (congrArg InitHelper.primaryInitClusters hhelper)
    (congrArg InitHelper.secondaryInitClusters hhelper) h

theorem listed_maybeFinishInitialize (hfinish : r.maybeFinishInitialize = some r')
    (h : r'.Listed c) : r.Listed c := by
  obtain ⟨hprimary, hsecondary, -⟩ := maybeFinishInitialize_lists hfinish
  exact listed_of_eq hprimary hsecondary h

theorem listed_removeCluster (hremove : r.removeCluster cluster = some r') (h : r'.Listed c) :
    r.Listed c := by
  unfold InitRun.removeCluster at hremove
  split at hremove
  · cases hremove
    exact h
  · exact (listed_unlist (listed_maybeFinishInitialize hremove h)).1

theorem listed_step (hstep : r.step event = some r') (h : r'.Listed c) :
    r.Listed c ∨ (event = .addCluster c ∧ c ∉ r.tracked) := by
  cases steps_of_step hstep with
  | @addCluster cluster _ hnew =>
    have hold : (r.recordAdded cluster).Listed c → r.Listed c :=
      listed_of_toInitHelper (recordAdded_state r cluster)
    have hlist : (r.recordAdded cluster).Listed c ∨ c = cluster := by
      unfold InitRun.addCluster at h
      split at h
      · exact .inl h
      · dsimp only at h
        split at h
        · exact listed_enlist h
        · split at h <;> exact listed_enlist h
    rcases hlist with hlist | rfl
    · exact .inl (hold hlist)
    · exact .inr ⟨rfl, fun hc => hnew (mem_append_left _ hc)⟩
  | removeCluster _ _ hremove =>
    have hlisted := listed_removeCluster hremove h
    exact .inl hlisted
  | clusterInitialized _ hremove =>
    have hlisted := listed_removeCluster hremove h
    exact .inl hlisted
  | onStaticLoadComplete _ hfinish =>
    have hlisted := listed_maybeFinishInitialize hfinish h
    exact .inl hlisted
  | cdsInitialized _ hfinish =>
    have hlisted := listed_maybeFinishInitialize hfinish h
    exact .inl hlisted
  | setInitializedCb =>
    unfold InitRun.setInitializedCb at h
    split at h <;> exact .inl h
  | returned hreturned =>
    exact .inl (listed_of_toInitHelper (returned_same hreturned).1 h)

theorem tracked_step (hstep : r.step event = some r') (hc : c ∈ r.tracked) : c ∈ r'.tracked := by
  have hremoved : ∀ {s s' : InitRun} {d : InitCluster}, s.removeCluster d = some s' →
      s.tracked = s'.tracked := by
    intro s s' d hremove
    unfold InitRun.removeCluster at hremove
    split at hremove
    · cases hremove
      rfl
    · exact (maybeFinishInitialize_lists hremove).2.2.symm
  cases steps_of_step hstep with
  | @addCluster cluster =>
    have hold : c ∈ (r.recordAdded cluster).tracked := by
      unfold recordAdded
      split
      · exact mem_cons_of_mem _ hc
      · exact hc
      · exact mem_cons_of_mem _ hc
    unfold InitRun.addCluster
    split
    · exact hold
    · dsimp only
      split
      · exact hold
      · split <;> exact hold
  | removeCluster _ _ hremove =>
    rw [← hremoved hremove]
    exact hc
  | clusterInitialized _ hremove =>
    rw [← hremoved hremove]
    exact hc
  | onStaticLoadComplete _ hfinish =>
    rw [(maybeFinishInitialize_lists hfinish).2.2]
    exact hc
  | cdsInitialized _ hfinish =>
    rw [(maybeFinishInitialize_lists hfinish).2.2]
    exact hc
  | setInitializedCb =>
    unfold InitRun.setInitializedCb
    split <;> exact hc
  | returned hreturned =>
    rw [(returned_same hreturned).2.1]
    exact hc

theorem Waits.tracked_of_listed (h : r.Waits) (hlists : r.Lists) (hc : r.Listed c) :
    c ∈ r.tracked := by
  unfold Listed at hc
  split at hc
  · exact h.primary c hc
  · exact hlists.tracked c hc

theorem unlist_eq (hnot : ¬ r.Listed c) : r.unlist c = r := by
  have hfilter : ∀ {l : List InitCluster}, c ∉ l → l.filter (· ≠ c) = l := fun hc =>
    filter_eq_self.mpr fun d hd => decide_eq_true fun he => hc (he ▸ hd)
  unfold Listed at hnot
  unfold unlist
  cases hphase : c.initializePhase <;> rw [hphase] at hnot
  · dsimp only
    rw [hfilter hnot]
  · dsimp only
    rw [hfilter hnot]

theorem Waits.removeCluster_eq (h : r.Waits) (hnot : ¬ r.Listed c)
    (hremove : r.removeCluster c = some r') : r' = r := by
  unfold InitRun.removeCluster at hremove
  split at hremove
  · exact (Option.some.inj hremove).symm
  · rw [unlist_eq hnot] at hremove
    cases finish_of_maybeFinishInitialize hremove with
    | waiting => rfl
    | looping hstate hprimary _ hstarted =>
      rcases h.busy hstate with hw | ⟨-, hw⟩
      · exact absurd hprimary hw
      · cases hstarted.symm.trans hw
    | finishing hstate hprimary hsecondary =>
      rcases h.busy hstate with hw | ⟨hw, -⟩
      · exact absurd hprimary hw
      · exact absurd hsecondary hw

theorem not_listed_of_all (h : r.Waits) (hall : r.state = .allClustersInitialized) :
    ¬ r.Listed c := by
  obtain ⟨hprimary, hsecondary⟩ := h.empty hall
  unfold Listed
  rw [hprimary, hsecondary]
  cases c.initializePhase <;> exact not_mem_nil

theorem enlist_listed (r : InitRun) (cluster : InitCluster) : (r.enlist cluster).Listed cluster := by
  unfold Listed enlist
  cases cluster.initializePhase <;> exact mem_append_right _ (mem_singleton_self _)

/-!
## When all clusters are initialized

The state never goes back. It leaves the load when that is complete, and the wait for CDS when CDS
has reported.
-/

def rank : InitState → Nat
  | .loading => 0
  | .waitingForStaticInitialize => 1
  | .waitingForCdsInitialize => 2
  | .cdsInitialized => 3
  | .allClustersInitialized => 4

structure Later (r r' : InitHelper) : Prop where
  rank : rank r.state ≤ rank r'.state
  cds : r'.cds = r.cds

theorem later_maybeFinishInitialize (h : r.maybeFinishInitialize = some r') :
    Later r.toInitHelper r'.toInitHelper := by
  cases finish_of_maybeFinishInitialize h with
  | waiting | looping => exact ⟨le_rfl, rfl⟩
  | finishing =>
    have hall : rank r.state ≤ 4 := by cases r.state <;> decide
    rcases finishPhase_cases { r with startedSecondaryInitialize := false } with
      ⟨⟨hs, -⟩, heq⟩ | ⟨-, heq⟩ | ⟨callback, -, heq⟩ <;> rw [heq]
    · exact ⟨Nat.le_of_lt (Nat.lt_of_le_of_lt (Nat.le_of_eq (congrArg rank hs)) Nat.one_lt_two), rfl⟩
    all_goals exact ⟨hall, rfl⟩

theorem later_removeCluster (h : r.removeCluster cluster = some r') :
    Later r.toInitHelper r'.toInitHelper := by
  unfold InitRun.removeCluster at h
  split at h
  · cases h
    exact ⟨le_rfl, rfl⟩
  · exact { later_maybeFinishInitialize h with }

theorem later_step (hstep : r.step event = some r') : Later r.toInitHelper r'.toInitHelper ∧
    (event = .onStaticLoadComplete → 1 ≤ rank r'.state) ∧
    (event = .cdsInitialized → 3 ≤ rank r'.state) := by
  cases steps_of_step hstep with
  | addCluster =>
    refine ⟨?_, (fun h => by cases h), fun h => by cases h⟩
    rw [← recordAdded_state r]
    unfold InitRun.addCluster
    split
    · exact ⟨le_rfl, rfl⟩
    · dsimp only
      split
      · exact ⟨le_rfl, rfl⟩
      · split <;> exact ⟨le_rfl, rfl⟩
  | removeCluster _ _ hremove | clusterInitialized _ hremove =>
    exact ⟨{ later_removeCluster hremove with }, (fun h => by cases h), fun h => by cases h⟩
  | onStaticLoadComplete hstate hfinish =>
    have hlater := later_maybeFinishInitialize hfinish
    exact ⟨⟨by rw [hstate]; exact Nat.zero_le _, hlater.cds⟩, fun _ => hlater.rank,
      fun h => by cases h⟩
  | cdsInitialized hstate hfinish =>
    have hlater := later_maybeFinishInitialize hfinish
    exact ⟨⟨by rw [hstate]; exact Nat.le_trans (Nat.le_succ 2) hlater.rank, hlater.cds⟩,
      (fun h => by cases h), fun _ => hlater.rank⟩
  | setInitializedCb =>
    refine ⟨?_, (fun h => by cases h), fun h => by cases h⟩
    unfold InitRun.setInitializedCb
    split <;> exact ⟨le_rfl, rfl⟩
  | returned hreturned =>
    rw [(returned_same hreturned).1]
    exact ⟨⟨le_rfl, rfl⟩, (fun h => by cases h), fun h => by cases h⟩

variable {events : List Event}

theorem run_later (h : run step r events = some r') : Later r.toInitHelper r'.toInitHelper ∧
    (.onStaticLoadComplete ∈ events → 1 ≤ rank r'.state) ∧
    (.cdsInitialized ∈ events → 3 ≤ rank r'.state) := by
  induction events generalizing r with
  | nil =>
    cases h
    exact ⟨⟨le_rfl, rfl⟩, nofun, nofun⟩
  | cons event events ih =>
    obtain ⟨t, hstep, h⟩ := Option.bind_eq_some_iff.mp h
    obtain ⟨hlater, hstatic, hcds⟩ := later_step hstep
    obtain ⟨hlater', hstatic', hcds'⟩ := ih h
    refine ⟨⟨hlater.rank.trans hlater'.rank, hlater'.cds.trans hlater.cds⟩, fun hmem => ?_,
      fun hmem => ?_⟩
    · rcases mem_cons.mp hmem with heq | hmem
      · exact (hstatic heq.symm).trans hlater'.rank
      · exact hstatic' hmem
    · rcases mem_cons.mp hmem with heq | hmem
      · exact (hcds heq.symm).trans hlater'.rank
      · exact hcds' hmem

def Settles (c : InitCluster) (event : Event) : Prop :=
  event = .clusterInitialized c ∨ event = .removeCluster c

theorem Waits.not_settles (h : r.Waits) (hstep : r.step event = some r') (hlisted : r'.Listed c) :
    ¬ Settles c event := by
  have hgone {s : InitRun} (hremove : s.removeCluster c = some r') (hs : s.Waits) : False := by
    unfold InitRun.removeCluster at hremove
    split at hremove
    · rename_i hall
      cases hremove
      exact not_listed_of_all hs hall hlisted
    · exact (listed_unlist (listed_maybeFinishInitialize hremove hlisted)).2 rfl
  rintro (rfl | rfl)
  · cases steps_of_step hstep with
    | clusterInitialized _ hremove => exact hgone hremove (h.of_eq rfl fun _ hc => hc)
  · cases steps_of_step hstep with
    | removeCluster _ _ hremove => exact hgone hremove (h.of_eq rfl fun _ hc => hc)

theorem run_listed (hr : r.Waits) (h : run step r events = some r') (hlisted : r'.Listed c) :
    (r.Listed c ∧ ∀ event ∈ events, ¬ Settles c event) ∨ ∃ before after,
      events = before ++ .addCluster c :: after ∧ ∀ event ∈ after, ¬ Settles c event := by
  induction events generalizing r with
  | nil =>
    cases h
    exact .inl ⟨hlisted, nofun⟩
  | cons event events ih =>
    obtain ⟨t, hstep, h⟩ := Option.bind_eq_some_iff.mp h
    rcases ih (hr.step hstep) h with ⟨ht, hnone⟩ | ⟨before, after, rfl, hnone⟩
    · rcases listed_step hstep ht with hlisted | ⟨rfl, -⟩
      · exact .inl ⟨hlisted, forall_mem_cons.mpr ⟨hr.not_settles hstep ht, hnone⟩⟩
      · exact .inr ⟨[], events, rfl, hnone⟩
    · exact .inr ⟨event :: before, after, rfl, hnone⟩

theorem Waits.exists_listed (h : r.Waits)
    (hs : r.state = .waitingForStaticInitialize ∨ r.state = .cdsInitialized) : ∃ c, r.Listed c := by
  rcases h.busy hs with hne | ⟨hne, -⟩
  · obtain ⟨c, hc⟩ := exists_mem_of_ne_nil _ hne
    exact ⟨c, by rw [Listed, h.phased.1 c hc]; exact hc⟩
  · obtain ⟨c, hc⟩ := exists_mem_of_ne_nil _ hne
    exact ⟨c, by rw [Listed, h.phased.2 c hc]; exact hc⟩

/-- The load is complete, CDS has reported if there is one, and each cluster that was added has
reported since or was removed. -/
def Over (cds : Bool) (events : List Event) : Prop :=
  .onStaticLoadComplete ∈ events ∧ (cds = true → .cdsInitialized ∈ events) ∧
    ∀ before c after, events = before ++ .addCluster c :: after → ∃ event ∈ after, Settles c event

theorem all_of_over {cds : Bool} (h : run step (start cds) events = some r)
    (hover : Over cds events) : r.state = .allClustersInitialized := by
  have hwaits : r.Waits := run_keeps (fun _ _ _ h hstep => Waits.step h hstep) (waits_start cds) h
  obtain ⟨hstatic, hcds, hsettled⟩ := hover
  obtain ⟨hlater, hloaded, hreported⟩ := run_later h
  have hbusy (hs : r.state = .waitingForStaticInitialize ∨ r.state = .cdsInitialized) : False := by
    obtain ⟨c, hc⟩ := hwaits.exists_listed hs
    rcases run_listed (waits_start cds) h hc with ⟨hlisted, -⟩ | ⟨before, after, heq, hnone⟩
    · unfold Listed at hlisted
      split at hlisted <;> cases hlisted
    · obtain ⟨event, hmem, hsettles⟩ := hsettled before c after heq
      exact hnone event hmem hsettles
  cases hstate : r.state with
  | loading =>
    have hrank := hloaded hstatic
    rw [hstate] at hrank
    cases hrank
  | waitingForStaticInitialize => exact (hbusy (.inl hstate)).elim
  | waitingForCdsInitialize =>
    have hrank := hreported (hcds (hlater.cds.symm.trans (hwaits.cds hstate)))
    rw [hstate] at hrank
    exact absurd hrank (by decide)
  | cdsInitialized => exact (hbusy (.inr hstate)).elim
  | allClustersInitialized => rfl

/-- Clusters are initialized in order, whatever is added, removed and reported when, and in the end
all of them are. -/
theorem run_ordered {cds : Bool} (h : run step (start cds) events = some r) :
    r.Ordered ∧ (Over cds events → r.state = .allClustersInitialized) :=
  ⟨(run_keeps (fun _ _ _ hinv hstep => Inv.step hinv hstep) (inv_start cds) h).ordered, all_of_over h⟩

/-! A static primary cluster that reports in `setInitializedCb`, two secondary clusters of which
one reports inside the loop, CDS with a cluster, and a cluster that is added afterwards. -/

def staticPrimary : InitCluster := ⟨0, .primary⟩
def staticSecondary : InitCluster := ⟨1, .secondary⟩
def otherSecondary : InitCluster := ⟨2, .secondary⟩
def cdsSecondary : InitCluster := ⟨3, .secondary⟩
def lateCluster : InitCluster := ⟨4, .primary⟩

def startupEvents : List Event :=
  [.addCluster staticPrimary, .returned, .clusterInitialized staticPrimary, .returned,
    .addCluster staticSecondary, .returned, .addCluster otherSecondary, .returned,
    .onStaticLoadComplete, .clusterInitialized staticSecondary, .returned, .returned,
    .setInitializedCb 0, .clusterInitialized otherSecondary, .addCluster cdsSecondary, .returned,
    .cdsInitialized, .clusterInitialized cdsSecondary, .returned, .returned, .returned,
    .addCluster lateCluster, .returned]

theorem startupEvents_ordered :
    ∃ r, run step (start true) startupEvents = some r ∧ r.ran = [0] ∧ r.Ordered := by
  have hran : (run step (start true) startupEvents).map (·.ran) = some [0] := by decide +kernel
  obtain ⟨r, hr, hran⟩ := Option.map_eq_some_iff.mp hran
  exact ⟨r, hr, hran, (run_ordered hr).1⟩

/-- A callback that is set when all clusters are initialized does not wait for a cluster that was
added since. -/
theorem lateCluster_not_awaited :
    ¬ ∀ (cds : Bool) (events : List Event) (r : InitRun), run step (start cds) events = some r →
      r.ran ≠ [] → ∀ c ∈ r.tracked ++ r.late, r.Settled c := by
  intro h
  obtain ⟨r, hr, hran, hmem, hnot⟩ : ∃ r,
      run step (start false) [.onStaticLoadComplete, .addCluster lateCluster, .returned,
        .setInitializedCb 0] = some r ∧ r.ran ≠ [] ∧ lateCluster ∈ r.tracked ++ r.late ∧
        ¬ r.Settled lateCluster := ⟨_, rfl, by decide +kernel, by decide +kernel, by decide +kernel⟩
  exact hnot (h false _ r hr hran lateCluster hmem)

end InitRun

end Meliproxy.Envoy.Upstream
