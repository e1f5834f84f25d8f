import Meliproxy.Envoy.Server.ListenerTasks

/-!
# From draining to destroyed

`Tagged` says that a listener is in one place at a time, so that it is drained and destroyed at most
once. A completed drain sequence queues a removal for every worker. Each worker confirms it once, and
with the last confirmation the listener is destroyed.
-/

namespace Meliproxy.Envoy.Server.ListenerManager

open Lib List Function

variable {Name Address Body : Type} {s s' : ListenerManager Name Address Body}
  {worker listenerTag : Nat} {success : Bool} {rest : List Post}

variable (s)

def tags : List Nat :=
  (s.activeTags ++ s.warmingTags) ++ (s.drainingTags ++ s.destroyed)

structure Tagged : Prop where
  nodup : s.tags.Nodup
  below : ∀ listenerTag ∈ s.tags, listenerTag < s.nextListenerTag

variable {s}

theorem Tagged.shrink (h : s.Tagged) (hnext : s.nextListenerTag ≤ s'.nextListenerTag)
    (hcount : ∀ listenerTag, s'.tags.count listenerTag ≤ s.tags.count listenerTag) : s'.Tagged := by
  refine ⟨nodup_iff_count_le_one.mpr fun listenerTag => ?_, fun listenerTag hmem => ?_⟩
  · exact Nat.le_trans (hcount listenerTag) (nodup_iff_count_le_one.mp h.nodup listenerTag)
  · have hpos := Nat.lt_of_lt_of_le (count_pos_iff.mpr hmem) (hcount listenerTag)
    exact Nat.lt_of_lt_of_le (h.below listenerTag (count_pos_iff.mp hpos)) hnext

theorem Tagged.grow (h : s.Tagged) (hnext : s'.nextListenerTag = s.nextListenerTag + 1)
    (hcount : ∀ listenerTag,
      s'.tags.count listenerTag ≤ (s.nextListenerTag :: s.tags).count listenerTag) : s'.Tagged := by
  have hnew : (s.nextListenerTag :: s.tags).Nodup :=
    nodup_cons.mpr ⟨fun hmem => Nat.lt_irrefl _ (h.below _ hmem), h.nodup⟩
  refine ⟨nodup_iff_count_le_one.mpr fun listenerTag => ?_, fun listenerTag hmem => ?_⟩
  · exact Nat.le_trans (hcount listenerTag) (nodup_iff_count_le_one.mp hnew listenerTag)
  · have hpos := Nat.lt_of_lt_of_le (count_pos_iff.mpr hmem) (hcount listenerTag)
    rw [hnext]
    rcases mem_cons.mp (count_pos_iff.mp hpos) with rfl | hold
    · exact Nat.lt_succ_self _
    · exact Nat.lt_succ_of_lt (h.below listenerTag hold)

theorem Tagged.drainingTags_nodup (h : s.Tagged) : s.drainingTags.Nodup :=
  (List.nodup_append.mp (List.nodup_append.mp h.nodup).2.1).1

variable {d : DrainingListener Name Address Body}

theorem Tagged.eq_of_tag (h : s.Tagged) {other : DrainingListener Name Address Body}
    (hd : d ∈ s.draining) (hother : other ∈ s.draining)
    (htag : d.listener.listenerTag = other.listener.listenerTag) : d = other :=
  inj_on_of_nodup_map h.drainingTags_nodup hd hother htag

theorem Tagged.not_destroyed (h : s.Tagged) (hmem : listenerTag ∈ s.drainingTags) :
    listenerTag ∉ s.destroyed := fun hdestroyed =>
  (List.nodup_append.mp (List.nodup_append.mp h.nodup).2.1).2.2 _ hmem _ hdestroyed rfl

theorem mem_drainingTags : listenerTag ∈ s.drainingTags ↔
    ∃ d ∈ s.draining, d.listener.listenerTag = listenerTag := mem_map

variable (s)

def closed (listenerTag : Nat) :
    ListenerManager Name Address Body :=
  ({ s with draining := s.draining.map fun d =>
      if d.listener.listenerTag = listenerTag then { d with draining := false } else d } :
    ListenerManager Name Address Body).enqueue (.removeListener listenerTag)

theorem drainComplete_cases (listenerTag : Nat) :
    (∀ d ∈ s.draining, d.listener.listenerTag = listenerTag → d.draining = false) ∧
      s.drainComplete listenerTag = s ∨
    ∃ d ∈ s.draining, d.listener.listenerTag = listenerTag ∧ d.draining = true ∧
      s.drainComplete listenerTag = s.closed listenerTag := by
  rw [drainComplete]
  split
  · rename_i hany
    obtain ⟨d, hd, hboth⟩ := any_eq_true.mp hany
    rw [Bool.and_eq_true, decide_eq_true_eq] at hboth
    exact .inr ⟨d, hd, hboth.1, hboth.2, rfl⟩
  · rename_i hnone
    refine .inl ⟨fun d hd htag => ?_, rfl⟩
    by_contra hdraining
    exact hnone (any_eq_true.mpr ⟨d, hd, by simp [htag, hdraining]⟩)

variable {s}

theorem closed_drainingTags : (s.closed listenerTag).drainingTags = s.drainingTags := by
  rw [drainingTags, drainingTags, closed, enqueue, map_map]
  refine map_congr_left fun d _ => ?_
  rw [comp_apply]
  split <;> rfl

variable {other : Nat}

theorem mem_closed_closingTags (hmem : listenerTag ∈ s.drainingTags) :
    other ∈ (s.closed listenerTag).closingTags ↔ other ∈ s.closingTags ∨ other = listenerTag := by
  rw [mem_closingTags, mem_closingTags]
  constructor
  · rintro ⟨after, hafter, hclosed, rfl⟩
    obtain ⟨d, hd, rfl⟩ := mem_map.mp hafter
    by_cases htag : d.listener.listenerTag = listenerTag
    · exact .inr (by rw [if_pos htag]; exact htag)
    · rw [if_neg htag] at hclosed ⊢
      exact .inl ⟨d, hd, hclosed, rfl⟩
  · rintro (⟨d, hd, hclosed, rfl⟩ | rfl)
    · refine ⟨_, mem_map_of_mem hd, ?_⟩
      split <;> exact ⟨by first | rfl | exact hclosed, rfl⟩
    · obtain ⟨d, hd, htag⟩ := mem_drainingTags.mp hmem
      exact ⟨_, mem_map_of_mem hd, by rw [if_pos htag], by rw [if_pos htag]; exact htag⟩

theorem Flow.closed (h : s.Flow) (htagged : s.Tagged) (hd : d ∈ s.draining)
    (htag : d.listener.listenerTag = listenerTag) (hdraining : d.draining = true) :
    (s.closed listenerTag).Flow := by
  have hmem : listenerTag ∈ s.drainingTags := mem_drainingTags.mpr ⟨d, hd, htag⟩
  have hopen : listenerTag ∉ s.closingTags := fun hclosing => by
    obtain ⟨other, hother, hclosed, hsame⟩ := mem_closingTags.mp hclosing
    rw [htagged.eq_of_tag hother hd (hsame.trans htag.symm), hdraining] at hclosed
    cases hclosed
  have hunconfirmed (worker : Nat) : (worker, listenerTag) ∉ s.confirmed := fun hconfirmed =>
    (mem_append.mp (h.confirmed worker _ hconfirmed)).elim hopen (htagged.not_destroyed hmem)
  have hlength : (s.closed listenerTag).workers.length = s.workers.length := length_map ..
  refine ⟨fun post hpost => ?_, fun worker hworker other => ?_, fun worker other hconfirmed => ?_⟩
  · rw [hlength]
    exact h.posts post hpost
  · rw [hlength] at hworker
    have habout : (s.closed listenerTag).about worker other = s.about worker other ++
        [Task.removeListener listenerTag].filter fun task => task.listenerTag = other :=
      about_append rfl rfl hworker
    rw [closed_drainingTags]
    by_cases hother : other = listenerTag
    · subst hother
      have hnone : s.removing worker other = [] := if_neg fun hboth => hopen hboth.1
      have hone : (s.closed other).removing worker other = [.removeListener other] :=
        if_pos ⟨(mem_closed_closingTags hmem).mpr (.inr rfl), hunconfirmed worker⟩
      rw [habout, hone]
      rcases h.tasks worker hworker other with hbefore | ⟨hstarted, hlive, -, hbefore⟩
      · rw [hbefore, hnone]
        exact .inl (by simp [Task.listenerTag])
      · rw [hbefore, hnone]
        exact .inr ⟨hstarted, hlive, hunconfirmed worker, by simp [Task.listenerTag]⟩
    · have hsame : (s.closed listenerTag).removing worker other = s.removing worker other := by
        simp only [removing, mem_closed_closingTags hmem, hother, or_false]
        rfl
      have hnot : Task.listenerTag (.removeListener listenerTag) ≠ other := fun heq => hother heq.symm
      rw [habout, hsame, filter_cons_of_neg (by simpa using hnot), filter_nil, append_nil]
      exact h.tasks worker hworker other
  · rcases mem_append.mp (h.confirmed worker other hconfirmed) with hclosing | hdestroyed
    · exact mem_append_left _ ((mem_closed_closingTags hmem).mpr (.inl hclosing))
    · exact mem_append_right _ hdestroyed

variable {otherTag : Nat}

theorem mem_confirm_ne (hne : (other, otherTag) ≠ (worker, listenerTag)) :
    (other, otherTag) ∈ (s.confirm worker listenerTag).confirmed ↔ (other, otherTag) ∈ s.confirmed := by
  rw [confirm, mem_cons, or_iff_right hne]

theorem removing_confirm_ne (hne : (other, otherTag) ≠ (worker, listenerTag)) :
    (s.confirm worker listenerTag).removing other otherTag = s.removing other otherTag := by
  simp only [removing, mem_confirm_ne hne]
  rfl

variable {task : Task}

theorem about_pop (hposts : s.posts = ⟨worker, task, success⟩ :: rest) :
    s.about worker task.listenerTag = task ::
      ({ s with posts := rest } : ListenerManager Name Address Body).about worker task.listenerTag := by
  rw [about, about, stream, stream, hposts, filter_cons_of_pos (by simp), map_cons,
    cons_append, filter_cons_of_pos (by simp)]

theorem about_pop_of_ne (hposts : s.posts = ⟨worker, task, success⟩ :: rest)
    (hne : ¬(worker = other ∧ task.listenerTag = otherTag)) :
    ({ s with posts := rest } : ListenerManager Name Address Body).about other otherTag =
      s.about other otherTag := by
  rw [about, about, stream, stream, hposts]
  by_cases hworker : worker = other
  · rw [filter_cons_of_pos (by simpa using hworker), map_cons, cons_append,
      filter_cons_of_neg (by simpa using fun heq => hne ⟨hworker, heq⟩)]
  · rw [filter_cons_of_neg (by simpa using hworker)]

theorem Flow.popAdd (h : s.Flow)
    (hposts : s.posts = ⟨worker, .addListener listenerTag, success⟩ :: rest) :
    listenerTag ∈ s.activeTags ++ s.drainingTags ∧
    ({ s with posts := rest } : ListenerManager Name Address Body).Flow := by
  have hworker : worker < s.workers.length := h.posts ⟨worker, .addListener listenerTag, success⟩
    (hposts ▸ mem_cons_self ..)
  have hhead : s.about worker listenerTag = .addListener listenerTag :: _ := about_pop hposts
  rcases h.tasks worker hworker listenerTag with habout | ⟨-, hlive, -, habout⟩
  · exfalso
    rw [hhead, removing] at habout
    split at habout <;> cases habout
  · refine ⟨hlive, fun post hpost => h.posts post (hposts ▸ mem_cons_of_mem _ hpost),
      fun other hother otherTag => ?_, h.confirmed⟩
    by_cases hboth : worker = other ∧ listenerTag = otherTag
    · obtain ⟨rfl, rfl⟩ := hboth
      exact .inl (List.cons.inj (hhead.symm.trans habout)).2
    · rw [about_pop_of_ne hposts hboth]
      exact h.tasks other hother otherTag

theorem Flow.popRemove (h : s.Flow)
    (hposts : s.posts = ⟨worker, .removeListener listenerTag, success⟩ :: rest) :
    worker < s.workers.length ∧ listenerTag ∈ s.closingTags ∧ (worker, listenerTag) ∉ s.confirmed ∧
    (({ s with posts := rest } : ListenerManager Name Address Body).confirm worker listenerTag).Flow := by
  have hworker : worker < s.workers.length := h.posts ⟨worker, .removeListener listenerTag, success⟩
    (hposts ▸ mem_cons_self ..)
  have hhead : s.about worker listenerTag = .removeListener listenerTag :: _ := about_pop hposts
  rcases h.tasks worker hworker listenerTag with habout | ⟨-, -, -, habout⟩
  · rw [hhead, removing] at habout
    split at habout
    · rename_i hboth
      refine ⟨hworker, hboth.1, hboth.2,
        fun post hpost => h.posts post (hposts ▸ mem_cons_of_mem _ hpost),
        fun other hother otherTag => ?_, fun other otherTag hconfirmed => ?_⟩
      · by_cases hsame : worker = other ∧ listenerTag = otherTag
        · obtain ⟨rfl, rfl⟩ := hsame
          refine .inl ((List.cons.inj habout).2.trans (if_neg fun hboth => ?_).symm)
          exact hboth.2 (mem_cons_self ..)
        · have hne : (other, otherTag) ≠ (worker, listenerTag) := fun heq =>
            hsame ⟨(Prod.mk.inj heq).1.symm, (Prod.mk.inj heq).2.symm⟩
          have htasks := h.tasks other hother otherTag
          rw [← about_pop_of_ne hposts hsame] at htasks
          rw [removing_confirm_ne hne, mem_confirm_ne hne]
          exact htasks
      · rcases mem_cons.mp hconfirmed with heq | hconfirmed
        · rw [(Prod.mk.inj heq).2]
          exact mem_append_left _ hboth.1
        · exact h.confirmed other otherTag hconfirmed
    · cases habout
  · rw [hhead] at habout
    cases (List.cons.inj habout).1

variable (s)

def counted (listenerTag pending : Nat) :
    ListenerManager Name Address Body :=
  { s with draining := s.draining.map fun d =>
      if d.listener.listenerTag = listenerTag then { d with workersPendingRemoval := pending } else d }

def erased (listenerTag : Nat) :
    ListenerManager Name Address Body :=
  let draining := s.draining.filter fun d => d.listener.listenerTag ≠ listenerTag
  { s with
    draining := draining
    destroyed := s.destroyed ++ [listenerTag]
    stats := { s.stats with totalListenersDraining := draining.length } }

variable {s}

theorem counted_drainingTags (pending : Nat) :
    (s.counted listenerTag pending).drainingTags = s.drainingTags := by
  rw [drainingTags, drainingTags, counted, map_map]
  refine map_congr_left fun d _ => ?_
  rw [comp_apply]
  split <;> rfl

theorem counted_closingTags (pending : Nat) :
    (s.counted listenerTag pending).closingTags = s.closingTags := by
  rw [closingTags, closingTags, counted]
  induction s.draining with
  | nil => rfl
  | cons d draining ih =>
    have hdraining : (if d.listener.listenerTag = listenerTag then
        { d with workersPendingRemoval := pending } else d).draining = d.draining := by
      split <;> rfl
    have htag : (if d.listener.listenerTag = listenerTag then
        { d with workersPendingRemoval := pending } else d).listener = d.listener := by
      split <;> rfl
    rw [map_cons, filter_cons, filter_cons, hdraining]
    split
    · rw [map_cons, map_cons, ih, htag]
    · exact ih

theorem mem_erased_drainingTags :
    other ∈ (s.erased listenerTag).drainingTags ↔ other ∈ s.drainingTags ∧ other ≠ listenerTag := by
  rw [mem_drainingTags, mem_drainingTags, erased]
  constructor
  · rintro ⟨d, hd, rfl⟩
    obtain ⟨hmem, hne⟩ := mem_filter.mp hd
    exact ⟨⟨d, hmem, rfl⟩, by simpa using hne⟩
  · rintro ⟨⟨d, hd, rfl⟩, hne⟩
    exact ⟨d, mem_filter.mpr ⟨hd, by simpa using hne⟩, rfl⟩

theorem mem_erased_closingTags :
    other ∈ (s.erased listenerTag).closingTags ↔ other ∈ s.closingTags ∧ other ≠ listenerTag := by
  rw [mem_closingTags, mem_closingTags, erased]
  constructor
  · rintro ⟨d, hd, hclosed, rfl⟩
    obtain ⟨hmem, hne⟩ := mem_filter.mp hd
    exact ⟨⟨d, hmem, hclosed, rfl⟩, by simpa using hne⟩
  · rintro ⟨⟨d, hd, hclosed, rfl⟩, hne⟩
    exact ⟨d, mem_filter.mpr ⟨hd, by simpa using hne⟩, hclosed, rfl⟩

theorem Flow.erased (h : s.Flow)
    (hall : ∀ worker < s.workers.length, (worker, listenerTag) ∈ s.confirmed) :
    (s.erased listenerTag).Flow := by
  refine ⟨h.posts, fun worker hworker other => ?_, fun worker other hconfirmed => ?_⟩
  · by_cases hother : other = listenerTag
    · subst hother
      have hconfirmed := hall worker hworker
      have hnone : s.removing worker other = [] := if_neg fun hboth => hboth.2 hconfirmed
      rcases h.tasks worker hworker other with habout | ⟨-, -, hunconfirmed, -⟩
      · exact .inl ((habout.trans hnone).trans (if_neg fun hboth => hboth.2 hconfirmed).symm)
      · exact absurd hconfirmed hunconfirmed
    · have hremoving : (s.erased listenerTag).removing worker other = s.removing worker other := by
        simp only [removing, mem_erased_closingTags, ne_eq, hother, not_false_eq_true, and_true]
        rfl
      rw [hremoving]
      rcases h.tasks worker hworker other with habout | ⟨hstarted, hlive, hunconfirmed, habout⟩
      · exact .inl habout
      · refine .inr ⟨hstarted, ?_, hunconfirmed, habout⟩
        rcases mem_append.mp hlive with hactive | hdraining
        · exact mem_append_left _ hactive
        · exact mem_append_right _ (mem_erased_drainingTags.mpr ⟨hdraining, hother⟩)
  · by_cases hother : other = listenerTag
    · exact mem_append_right _ (hother ▸ mem_append_right _ (mem_singleton_self _))
    · rcases mem_append.mp (h.confirmed worker other hconfirmed) with hclosing | hdestroyed
      · exact mem_append_left _ (mem_erased_closingTags.mpr ⟨hclosing, hother⟩)
      · exact mem_append_right _ (mem_append_left _ hdestroyed)

theorem Tagged.perm_erased (h : s.Tagged) (hmem : listenerTag ∈ s.drainingTags) :
    ((s.erased listenerTag).drainingTags ++ (s.erased listenerTag).destroyed).Perm
      (s.drainingTags ++ s.destroyed) := by
  have herase : (s.erased listenerTag).drainingTags = s.drainingTags.erase listenerTag := by
    rw [h.drainingTags_nodup.erase_eq_filter, drainingTags, drainingTags, filter_map, erased]
    refine congrArg _ (filter_congr fun d _ => ?_)
    rw [Bool.eq_iff_iff]
    simp
  have hdestroyed : (s.erased listenerTag).destroyed.Perm (listenerTag :: s.destroyed) :=
    perm_append_singleton ..
  rw [herase]
  exact (hdestroyed.append_left _).trans
    (perm_middle.trans ((perm_cons_erase hmem).symm.append_right _))

theorem Tagged.erased (h : s.Tagged) (hmem : listenerTag ∈ s.drainingTags) :
    (s.erased listenerTag).Tagged := by
  have hperm := h.perm_erased hmem
  refine h.shrink (Nat.le_refl _) fun other => Nat.le_of_eq ?_
  exact (hperm.append_left (s.activeTags ++ s.warmingTags)).count_eq other

theorem pendingWorkers_confirm (hworker : worker < s.workers.length)
    (hunconfirmed : (worker, listenerTag) ∉ s.confirmed) :
    (s.confirm worker listenerTag).pendingWorkers listenerTag + 1 = s.pendingWorkers listenerTag := by
  have hmem : worker ∈ List.range s.workers.length := mem_range.mpr hworker
  have hupdate : (fun other => decide ((other, listenerTag) ∉ (worker, listenerTag) :: s.confirmed)) =
      Function.update (fun other => decide ((other, listenerTag) ∉ s.confirmed)) worker false := by
    funext other
    by_cases hother : other = worker
    · subst hother
      rw [update_self]
      simp
    · rw [update_of_ne hother]
      simp [hother]
  have hafter := countP_update (fun other => decide ((other, listenerTag) ∉ s.confirmed))
    nodup_range hmem false
  have hbefore := countP_erase (fun other => decide ((other, listenerTag) ∉ s.confirmed)) hmem
  rw [pendingWorkers, pendingWorkers, confirm]
  rw [hupdate, hafter, hbefore]
  simp [hunconfirmed]

theorem pendingWorkers_confirm_ne (hne : other ≠ listenerTag) :
    (s.confirm worker listenerTag).pendingWorkers other = s.pendingWorkers other := by
  rw [pendingWorkers, pendingWorkers, confirm]
  refine countP_congr fun index _ => ?_
  simp [hne]

theorem Counted.confirm (h : s.Counted) {pending : Nat} (hworker : worker < s.workers.length)
    (hunconfirmed : (worker, listenerTag) ∉ s.confirmed)
    (hpending : s.pendingWorkers listenerTag = pending + 2) :
    ((s.confirm worker listenerTag).counted listenerTag (pending + 1)).Counted := by
  have hafter := pendingWorkers_confirm hworker hunconfirmed
  refine ⟨h.workers, fun d hd => ?_, fun other hdestroyed index hindex =>
    mem_cons_of_mem _ (h.destroyed other hdestroyed index hindex)⟩
  obtain ⟨before, hbefore, rfl⟩ := mem_map.mp hd
  by_cases htag : before.listener.listenerTag = listenerTag
  · rw [if_pos htag]
    refine ⟨?_, Nat.succ_pos _⟩
    rw [htag]
    exact (Nat.succ.inj (hafter.trans hpending)).symm
  · rw [if_neg htag]
    exact ⟨(h.pending before hbefore).1.trans (pendingWorkers_confirm_ne htag).symm,
      (h.pending before hbefore).2⟩

theorem Counted.confirm_last (h : s.Counted) (hall : ∀ index < s.workers.length,
      (index, listenerTag) ∈ (s.confirm worker listenerTag).confirmed) :
    ((s.confirm worker listenerTag).erased listenerTag).Counted := by
  refine ⟨h.workers, fun d hd => ?_, fun other hdestroyed index hindex => ?_⟩
  · obtain ⟨hmem, hne⟩ := mem_filter.mp hd
    have htag : d.listener.listenerTag ≠ listenerTag := by simpa using hne
    exact ⟨(h.pending d hmem).1.trans (pendingWorkers_confirm_ne htag).symm, (h.pending d hmem).2⟩
  · rcases mem_append.mp hdestroyed with hdestroyed | hdestroyed
    · exact mem_cons_of_mem _ (h.destroyed other hdestroyed index hindex)
    · rw [mem_singleton.mp hdestroyed]
      exact hall index hindex

/-- What is left of the draining listeners after a step that lets `existing` drain. -/
structure Drains (s s' : ListenerManager Name Address Body) (existing : List Nat) : Prop where
  perm : (s'.drainingTags ++ s'.destroyed).Perm (existing ++ (s.drainingTags ++ s.destroyed))
  closing : ∀ listenerTag ∈ s.closingTags ++ s.destroyed,
    listenerTag ∈ s'.closingTags ++ s'.destroyed
  drained : s'.drained = s.drained
  completed : s'.completed = s.completed

theorem destroy_erased : s.erased listenerTag =
    ({ s.erased listenerTag with destroyed := s.destroyed } :
      ListenerManager Name Address Body).destroy listenerTag := by
  have hgone : listenerTag ∉ ({ s.erased listenerTag with destroyed := s.destroyed } :
      ListenerManager Name Address Body).drainingTags := fun hthere =>
    (mem_erased_drainingTags.mp hthere).2 rfl
  rw [destroy, if_neg hgone]
  rfl

theorem onRemoved_spec (hflow : s.Flow) (hcounted : s.Counted) (htagged : s.Tagged)
    (hposts : s.posts = ⟨worker, .removeListener listenerTag, success⟩ :: rest) :
    ∃ s', ((({ s with posts := rest } : ListenerManager Name Address Body).confirm worker
        listenerTag).onRemoved listenerTag).map (fun s => s.destroy listenerTag) = some s' ∧
      (s'.Flow ∧ s'.Counted ∧ s'.Tagged) ∧ Drains s s' [] ∧ s'.active = s.active ∧
      s'.warming = s.warming ∧ s'.requests = s.requests ∧ s'.workersStarted = s.workersStarted := by
  obtain ⟨hworker, hclosing, hunconfirmed, hconfirm⟩ := hflow.popRemove hposts
  obtain ⟨closed, hclosed, -, htag⟩ := mem_closingTags.mp hclosing
  have hmem : listenerTag ∈ s.drainingTags := mem_drainingTags.mpr ⟨closed, hclosed, htag⟩
  let popped : ListenerManager Name Address Body := { s with posts := rest }
  have hcounted' : popped.Counted := hcounted.advance rfl rfl rfl fun d hd => .inl ⟨d, hd, rfl, rfl⟩
  have htagged' : (popped.confirm worker listenerTag).Tagged := { htagged with }
  have hafter : (popped.confirm worker listenerTag).pendingWorkers listenerTag + 1 =
    popped.pendingWorkers listenerTag := pendingWorkers_confirm hworker hunconfirmed
  obtain ⟨d, hfound⟩ : ∃ d, (popped.confirm worker listenerTag).draining.find?
      (fun d => d.listener.listenerTag = listenerTag) = some d :=
    Option.isSome_iff_exists.mp (find?_isSome.mpr ⟨closed, hclosed, by simpa using htag⟩)
  have hd : d ∈ s.draining := mem_of_find?_eq_some hfound
  have hdtag : d.listener.listenerTag = listenerTag := by simpa using find?_some hfound
  obtain ⟨hpending, hpos⟩ := hcounted'.pending d hd
  rw [hdtag] at hpending
  obtain hone | ⟨pending, hmore⟩ :
      d.workersPendingRemoval = 1 ∨ ∃ pending, d.workersPendingRemoval = pending + 2 := by
    by_cases hone : d.workersPendingRemoval = 1
    · exact .inl hone
    · exact .inr ⟨d.workersPendingRemoval - 2, by omega⟩
  · -- the last confirmation: the listener leaves the draining ones and is destroyed
    have hperm := htagged'.perm_erased hmem
    refine ⟨(popped.confirm worker listenerTag).erased listenerTag, ?_, ⟨?_, ?_, ?_⟩,
      ⟨hperm, ?_, rfl, rfl⟩, rfl, rfl, rfl, rfl⟩
    · rw [onRemoved, hfound]
      dsimp only
      rw [hone]
      exact congrArg some (destroy_erased (s := popped.confirm worker listenerTag)).symm
    pick_goal 4
    · intro other hother
      by_cases hsame : other = listenerTag
      · exact mem_append_right _ (hsame ▸ mem_append_right _ (mem_singleton_self _))
      · rcases mem_append.mp hother with hclosing | hdestroyed
        · exact mem_append_left _ (mem_erased_closingTags.mpr ⟨hclosing, hsame⟩)
        · exact mem_append_right _ (mem_append_left _ hdestroyed)
    all_goals
      have hzero : (popped.confirm worker listenerTag).pendingWorkers listenerTag = 0 := by omega
      have hall (index : Nat) (hindex : index < s.workers.length) :
          (index, listenerTag) ∈ (popped.confirm worker listenerTag).confirmed := by
        have hnone := countP_eq_zero.mp hzero index (mem_range.mpr hindex)
        simpa using hnone
    · exact hconfirm.erased hall
    · exact hcounted'.confirm_last hall
    · exact htagged'.erased hmem
  · have hstill : listenerTag ∈ ((popped.confirm worker listenerTag).counted listenerTag
        (pending + 1)).drainingTags := by
      rw [counted_drainingTags]
      exact hmem
    refine ⟨(popped.confirm worker listenerTag).counted listenerTag (pending + 1), ?_, ⟨?_, ?_, ?_⟩,
      ⟨?_, ?_, rfl, rfl⟩, rfl, rfl, rfl, rfl⟩
    · rw [onRemoved, hfound]
      dsimp only
      rw [hmore]
      exact congrArg some (if_pos hstill)
    · refine @Flow.advance _ _ _ (popped.confirm worker listenerTag) _ [] hconfirm (by simp [counted])
        rfl rfl rfl (counted_closingTags _) id (fun _ other hlive => ?_) fun _ => .inl rfl
      rw [counted_drainingTags]
      exact hlive
    · exact hcounted'.confirm hworker hunconfirmed (hpending.symm.trans hmore)
    · refine htagged'.shrink (Nat.le_refl _) fun other => Nat.le_of_eq ?_
      rw [tags, tags, counted_drainingTags]
      rfl
    · rw [counted_drainingTags]
      exact .refl _
    · rw [counted_closingTags]
      exact fun _ hother => hother

end Meliproxy.Envoy.Server.ListenerManager
