import Meliproxy.Envoy.Server.ListenerMoves

/-!
# Runs of the listener manager

`Tracks` says that the listener of a name is the one that was asked for last, and that a listener
that was drained is destroyed once, as soon as every worker has confirmed its removal. `Regular` is
what the steps of a run need: an update is held for a duplicate of the listener that is current only,
and the first failure to listen meets no other listener of its name.
-/

namespace Meliproxy.Envoy.Server.ListenerManager

open Lib List

variable {Name Address Body : Type} [DecidableEq Name]
  {s s' : ListenerManager Name Address Body} {name : Name}

variable (s)

structure Tracks : Prop where
  active : (s.active.map ListenerImpl.name).Nodup
  warming : (s.warming.map ListenerImpl.name).Nodup
  current : ∀ name,
    (s.current name).map ListenerImpl.config = (wanted s.requests name).map Prod.fst
  nodup : s.drained.Nodup
  drained : s.drained.Perm (s.drainingTags ++ s.destroyed)
  completed : ∀ listenerTag ∈ s.completed, ∀ worker < s.workers.length,
    (worker, listenerTag) ∈ s.confirmed ∨ .removeListener listenerTag ∈ s.stream worker
  pending : ∀ listenerTag ∈ s.drainingTags, ∃ worker < s.workers.length,
    (worker, listenerTag) ∉ s.confirmed
  destroyed : ∀ listenerTag ∈ s.destroyed, ∀ worker < s.workers.length,
    (worker, listenerTag) ∈ s.confirmed

def Regular : Event Name Address Body → Prop
  | .addOrUpdateListener update =>
    (isDuplicate update (getListenerByName s.warming update.name) ||
      isDuplicate update (getListenerByName s.active update.name)) = true →
    (s.current update.name).map ListenerImpl.config = some update.config
  | .startWorkers => s.workersStarted = false
  | .runPost => ∀ post ∈ s.posts.head?, post.success = false → ∀ listener ∈ s.listeners,
    post.task = .addListener listener.listenerTag → listener.sawListenerCreateFailure = false →
    ∀ other ∈ s.active ++ s.warming, other.name = listener.name →
      other.listenerTag = listener.listenerTag
  | _ => True

structure Inv : Prop where
  sound : s.Sound
  wanted : ∀ name, (s.current name).map (fun listener => (listener.config, listener.listenerTag)) =
    wanted s.requests name
  fresh : ∀ listener ∈ s.active ++ s.warming, listener.sawListenerCreateFailure = false

variable {s}

omit [DecidableEq Name] in
/-- The histories of the listeners that drain. -/
structure Accounted (s : ListenerManager Name Address Body) : Prop where
  drained : s.drained.Perm (s.drainingTags ++ s.destroyed)
  completed : ∀ listenerTag ∈ s.completed, listenerTag ∈ s.closingTags ++ s.destroyed

theorem Inv.tracks (h : s.Inv) (haccounted : s.Accounted) : s.Tracks := by
  refine ⟨h.sound.named.active, h.sound.named.warming, fun name => ?_, ?_, haccounted.drained,
    fun listenerTag hmem worker hworker => ?_, fun listenerTag hmem => ?_, h.sound.counted.destroyed⟩
  · rw [← h.wanted, Option.map_map]
    rfl
  · exact haccounted.drained.nodup_iff.mpr (List.nodup_append.mp h.sound.tagged.nodup).2.1
  · rcases mem_append.mp (haccounted.completed listenerTag hmem) with hclosing | hdestroyed
    · -- a worker that has not confirmed still has the removal in its stream
      refine or_iff_not_imp_left.mpr fun hunconfirmed => ?_
      have hremoving : s.removing worker listenerTag = [.removeListener listenerTag] :=
        if_pos ⟨hclosing, hunconfirmed⟩
      have hthere : .removeListener listenerTag ∈ s.about worker listenerTag := by
        rcases h.sound.flow.tasks worker hworker listenerTag with habout | ⟨-, -, -, habout⟩
        · rw [habout, hremoving]
          exact mem_singleton_self _
        · rw [habout, hremoving]
          exact mem_cons_of_mem _ (mem_singleton_self _)
      exact (mem_filter.mp hthere).1
    · exact .inl (h.sound.counted.destroyed listenerTag hdestroyed worker hworker)
  · obtain ⟨d, hd, rfl⟩ := mem_drainingTags.mp hmem
    obtain ⟨hpending, hpos⟩ := h.sound.counted.pending d hd
    obtain ⟨worker, hworker, hunconfirmed⟩ := countP_pos_iff.mp (hpending ▸ hpos)
    exact ⟨worker, mem_range.mp hworker, by simpa using hunconfirmed⟩

theorem create_inv (concurrency : Nat) : (create concurrency : ListenerManager Name Address Body).Inv := by
  refine ⟨⟨⟨nodup_nil, nodup_nil, fun _ => rfl⟩, ⟨nofun, fun worker hworker listenerTag => ?_,
    nofun⟩, ⟨?_, nofun, nofun⟩, ⟨nodup_nil, nofun⟩⟩, fun _ => rfl, nofun⟩
  · have hworker : worker < max 1 concurrency := by simpa [create] using hworker
    left
    rw [about, stream, create, getD_eq_getElem _ _ (by simpa using hworker), getElem_replicate]
    rfl
  · rw [create, length_replicate]
    exact Nat.lt_of_lt_of_le Nat.zero_lt_one (Nat.le_max_left ..)

theorem Inv.keep (h : s.Inv) (hsound : s'.Sound) (hrequests : s'.requests = s.requests)
    (hcurrent : ∀ name, s'.current name = s.current name)
    (hmem : ∀ listener ∈ s'.active ++ s'.warming, listener ∈ s.active ++ s.warming) : s'.Inv :=
  ⟨hsound, fun name => by rw [hcurrent, hrequests, h.wanted],
    fun listener hlistener => h.fresh listener (hmem listener hlistener)⟩

theorem Inv.retire {after : ListenerManager Name Address Body} (h : after.Inv) :
    (s.retire after).Inv :=
  h.keep ⟨{ h.sound.named with }, { h.sound.flow with }, { h.sound.counted with },
    { h.sound.tagged with }⟩ rfl (fun _ => rfl) fun _ hmem => hmem

omit [DecidableEq Name] in
theorem Accounted.retire {after : ListenerManager Name Address Body} (h : s.Accounted)
    (hretires : Retires s after) : (s.retire after).Accounted := by
  obtain ⟨gone, hdrains, hleft⟩ := hretires
  refine ⟨?_, fun listenerTag hmem => ?_⟩
  · have hall : (after.drained ++ s.activeTags.filter fun listenerTag =>
        listenerTag ∉ after.activeTags).Perm (after.drainingTags ++ after.destroyed) := by
      rw [hdrains.drained]
      exact ((h.drained.append hleft).trans perm_append_comm).trans hdrains.perm.symm
    exact hall
  · exact hdrains.closing listenerTag (h.completed listenerTag (hdrains.completed ▸ hmem))

omit [DecidableEq Name] in
theorem Accounted.drains {after : ListenerManager Name Address Body} (h : s.Accounted)
    (hdrains : Drains s after []) : after.Accounted :=
  ⟨hdrains.drained ▸ h.drained.trans hdrains.perm.symm, fun listenerTag hmem =>
    hdrains.closing listenerTag (h.completed listenerTag (hdrains.completed ▸ hmem))⟩

section Update

variable [DecidableEq Address] {update : Update Name Address Body}

omit [DecidableEq Address] in
theorem Inv.duplicate (h : s.Inv)
    (hsame : (s.current update.name).map ListenerImpl.config = some update.config) :
    (s.request (s.requested update (some false))).Inv := by
  refine ⟨h.sound.annotate s.stats _, fun name => ?_, h.fresh⟩
  obtain ⟨listener, hcurrent, hconfig⟩ := Option.map_eq_some_iff.mp hsame
  rw [request, requested, wanted_concat, applyRequest]
  split
  · rename_i hname
    subst hname
    rw [hcurrent, ← hconfig]
    exact congrArg (Option.map _) hcurrent
  · exact h.wanted name

/-- The new listener is the current one of its name. -/
structure Answers (s : ListenerManager Name Address Body)
    (newListener : ListenerImpl Name Address Body) (after : ListenerManager Name Address Body) :
    Prop where
  sound : after.Sound
  requests : after.requests = s.requests
  self : after.current newListener.name = some newListener
  others : ∀ name, name ≠ newListener.name → after.current name = s.current name
  fresh : ∀ listener ∈ after.active ++ after.warming, listener.sawListenerCreateFailure = false

omit [DecidableEq Address] in
theorem Answers.onListenerWarmed {newListener : ListenerImpl Name Address Body}
    (h : Answers s newListener s') (listenerTag : Nat) :
    Answers s newListener (s'.onListenerWarmed listenerTag) := by
  refine ⟨h.sound.onListenerWarmed, onListenerWarmed_frame.1.trans h.requests, ?_, fun name hne => ?_,
    fun listener hmem => h.fresh listener (mem_onListenerWarmed hmem)⟩
  · rw [h.sound.named.current_onListenerWarmed]
    exact h.self
  · rw [h.sound.named.current_onListenerWarmed]
    exact h.others name hne

omit [DecidableEq Address] in
theorem finishUpdate_cases (placed : ListenerManager Name Address Body)
    (update : Update Name Address Body) (listenerTag : Nat) (added : Bool) :
    ∃ stats, placed.finishUpdate update listenerTag added =
      if placed.workersStarted && update.initializes then
        ({ placed with stats := stats } : ListenerManager Name Address Body).onListenerWarmed listenerTag
      else { placed with stats := stats } := ⟨_, rfl⟩

omit [DecidableEq Address] in
theorem Inv.finishUpdate (h : s.Inv) {socketAddress : Address}
    {placed : ListenerManager Name Address Body}
    (hplaced : Placed { s with nextListenerTag := s.nextListenerTag + 1 }
      (update.newListener s.nextListenerTag socketAddress) placed) (added : Bool) :
    ((placed.finishUpdate update s.nextListenerTag added).request
      (s.requested update (some true))).Inv := by
  have hfinished (stats : ListenerManagerStats) :
      Answers s (update.newListener s.nextListenerTag socketAddress)
        { placed with stats := stats } := by
    refine ⟨(hplaced.sound h.sound rfl).annotate stats _, ?_, hplaced.current_self, ?_, ?_⟩
    · cases hplaced <;> rfl
    · exact fun name hne => hplaced.current_ne hne
    · intro listener hmem
      rcases hplaced.mem hmem with rfl | hmem
      · rfl
      · exact h.fresh listener hmem
  have hanswers : Answers s (update.newListener s.nextListenerTag socketAddress)
      (placed.finishUpdate update s.nextListenerTag added) := by
    obtain ⟨stats, heq⟩ := finishUpdate_cases placed update s.nextListenerTag added
    rw [heq]
    split
    · exact (hfinished stats).onListenerWarmed _
    · exact hfinished stats
  generalize placed.finishUpdate update s.nextListenerTag added = after at hanswers ⊢
  refine ⟨hanswers.sound.annotate after.stats _, fun name => ?_, hanswers.fresh⟩
  rw [request, requested, hanswers.requests, wanted_concat, applyRequest]
  split
  · rename_i hupdated
    subst hupdated
    exact congrArg (Option.map _) hanswers.self
  · rename_i hother
    exact (congrArg (Option.map _) (hanswers.others name fun heq => hother heq.symm)).trans
      (h.wanted name)

theorem Inv.addOrUpdateListener (h : s.Inv) (hregular : s.Regular (.addOrUpdateListener update)) :
    ((s.addOrUpdateListener update).1.request
      (s.requested update (s.addOrUpdateListener update).2)).Inv := by
  rcases addOrUpdateListener_cases s update with ⟨hduplicate, heq⟩ | heq |
    ⟨socketAddress, placed, added, hplaced, heq⟩
  · rw [heq]
    exact h.duplicate (hregular hduplicate)
  · rw [heq]
    refine h.keep (h.sound.skip.annotate _ _) ?_ (fun _ => rfl) fun _ hmem => hmem
    exact append_nil _
  · rw [heq]
    exact h.finishUpdate hplaced added

/-- Before the workers have started no listener begins to drain. -/
theorem addOrUpdateListener_drains (hstill : s.workersStarted = false) :
    Drains s ((s.addOrUpdateListener update).1.request
      (s.requested update (s.addOrUpdateListener update).2)) [] := by
  rcases addOrUpdateListener_cases s update with ⟨-, heq⟩ | heq |
    ⟨socketAddress, placed, added, hplaced, heq⟩
  · rw [heq]
    exact ⟨.refl _, fun _ hmem => hmem, rfl, rfl⟩
  · rw [heq]
    exact ⟨.refl _, fun _ hmem => hmem, rfl, rfl⟩
  · have hwaits : placed.workersStarted = false := by cases hplaced <;> exact hstill
    obtain ⟨stats, hfinished⟩ := finishUpdate_cases placed update s.nextListenerTag added
    rw [heq]
    dsimp only
    rw [hfinished, hwaits, Bool.false_and, if_neg Bool.false_ne_true]
    exact { hplaced.moved.drains with }

theorem addOrUpdateListener_retires (h : s.Inv) (hstarted : s.workersStarted = true) :
    Retires s ((s.addOrUpdateListener update).1.request
      (s.requested update (s.addOrUpdateListener update).2)) := by
  rcases addOrUpdateListener_cases s update with ⟨-, heq⟩ | heq |
    ⟨socketAddress, placed, added, hplaced, heq⟩
  · rw [heq]
    exact .still ⟨.refl _, fun _ hmem => hmem, rfl, rfl⟩ rfl
  · rw [heq]
    exact .still ⟨.refl _, fun _ hmem => hmem, rfl, rfl⟩ rfl
  · have hactive : placed.active = s.active := by
      cases hplaced with
      | replaceWarming | addWarming => rfl
      | replaceActive existing hstill => cases hstarted.symm.trans hstill
      | addActive hstill => cases hstarted.symm.trans hstill
    obtain ⟨stats, hfinished⟩ := finishUpdate_cases placed update s.nextListenerTag added
    have hsound : ({ placed with stats := stats } : ListenerManager Name Address Body).Sound :=
      (hplaced.sound h.sound rfl).annotate stats placed.requests
    have hsame : Same s { placed with stats := stats } := by
      refine ⟨?_, ?_, ?_, hplaced.moved.destroyed, hplaced.moved.drained, hplaced.moved.completed⟩
      · rw [activeTags, activeTags, hactive]
      · exact hplaced.moved.drainingTags
      · exact hplaced.moved.closingTags
    rw [heq]
    dsimp only
    rw [hfinished]
    split
    · exact (hsame.retires (hsound.retires_onListenerWarmed s.nextListenerTag)).request _
    · exact .still { hsame.drains with } hactive

end Update

theorem Inv.removeListener (h : s.Inv) : ((s.request [.remove name]).removeListener name).Inv := by
  have hsound := h.sound.annotate s.stats (s.requests ++ [.remove name])
  refine ⟨hsound.removeListener, fun other => ?_, fun listener hmem => ?_⟩
  · rw [removeListener_frame.1, request, wanted_concat, applyRequest]
    split
    · rename_i hname
      subst hname
      rw [current_removeListener_self]
      rfl
    · rename_i hname
      rw [current_removeListener_ne fun heq => hname heq.symm]
      exact h.wanted other
  · rw [removeListener_active, removeListener_warming] at hmem
    rcases mem_append.mp hmem with hmem | hmem
    · exact h.fresh listener (mem_append_left _ (mem_filter.mp hmem).1)
    · exact h.fresh listener (mem_append_right _ (mem_filter.mp hmem).1)

omit [DecidableEq Name] in
theorem listeners_tags :
    s.listeners.map ListenerImpl.listenerTag = s.activeTags ++ s.warmingTags ++ s.drainingTags := by
  rw [listeners, map_append, map_append, map_map]
  rfl

omit [DecidableEq Name] in
theorem Tagged.listener_eq (h : s.Tagged) {listener other : ListenerImpl Name Address Body}
    (hlistener : listener ∈ s.listeners) (hother : other ∈ s.listeners)
    (htag : listener.listenerTag = other.listenerTag) : listener = other := by
  have hnodup : (s.listeners.map ListenerImpl.listenerTag).Nodup := by
    rw [listeners_tags]
    have htags := h.nodup
    rw [tags, ← append_assoc] at htags
    exact (List.nodup_append.mp htags).1
  exact inj_on_of_nodup_map hnodup hlistener hother htag

variable {listener : ListenerImpl Name Address Body}

/-- The first failure of a listener. -/
theorem Inv.fail (h : s.Inv) (hmem : listener ∈ s.listeners)
    (honly : ∀ other ∈ s.active ++ s.warming, other.name = listener.name →
      other.listenerTag = listener.listenerTag) (stats : ListenerManagerStats) :
    (({ s.markFailure listener.listenerTag with
      stats := stats
      requests := s.requests ++ [.failed listener.listenerTag] } : ListenerManager Name Address Body)
        |>.removeListener listener.name).Inv := by
  have hsound := (h.sound.markFailure listener.listenerTag).annotate stats
    (s.requests ++ [.failed listener.listenerTag])
  refine ⟨hsound.removeListener, fun name => ?_, fun other hother => ?_⟩
  · rw [removeListener_frame.1, wanted_concat, applyRequest, ← h.wanted]
    by_cases hname : name = listener.name
    · subst hname
      rw [current_removeListener_self]
      cases hcurrent : s.current listener.name with
      | none => rfl
      | some other =>
        obtain ⟨hother, hsame⟩ := mem_of_current hcurrent
        simp [Option.filter, honly other hother hsame]
    · rw [current_removeListener_ne hname]
      refine (congrArg (Option.map _) current_markFailure).trans ?_
      cases hcurrent : s.current name with
      | none => rfl
      | some other =>
        obtain ⟨hother, hsame⟩ := mem_of_current hcurrent
        have hne : other.listenerTag ≠ listener.listenerTag := fun htag => by
          rw [h.sound.tagged.listener_eq (mem_append_left _ hother) hmem htag] at hsame
          exact hname hsame.symm
        simp [Option.filter, hne, marked_same]
  · -- the listener that is marked has gone with its name
    have hkept : ∀ listeners : List (ListenerImpl Name Address Body),
        (∀ old ∈ listeners, old ∈ s.active ++ s.warming) →
        other ∈ eraseByName (listeners.map (marked listener.listenerTag)) listener.name →
        other.sawListenerCreateFailure = false := by
      intro listeners hsub hthere
      obtain ⟨hmarked, hname⟩ := mem_filter.mp hthere
      obtain ⟨old, hold, rfl⟩ := mem_map.mp hmarked
      have hne : old.listenerTag ≠ listener.listenerTag := fun htag => by
        have hsame := h.sound.tagged.listener_eq (mem_append_left _ (hsub old hold)) hmem htag
        subst hsame
        simp [marked_same] at hname
      rw [marked, if_neg hne]
      exact h.fresh old (hsub old hold)
    rw [removeListener_active, removeListener_warming] at hother
    rcases mem_append.mp hother with hother | hother
    · exact hkept s.active (fun _ => mem_append_left _) hother
    · exact hkept s.warming (fun _ => mem_append_right _) hother

/-- A failure that is not the first meets no current listener. -/
theorem Inv.fail_again (h : s.Inv) (hmem : listener ∈ s.listeners)
    (hsaw : listener.sawListenerCreateFailure = true) :
    (s.request [.failed listener.listenerTag]).Inv := by
  refine ⟨h.sound.annotate s.stats _, fun name => ?_, h.fresh⟩
  rw [request, wanted_concat, applyRequest, ← h.wanted]
  change (s.current name).map _ = _
  cases hcurrent : s.current name with
  | none => rfl
  | some other =>
    obtain ⟨hother, -⟩ := mem_of_current hcurrent
    have hne : other.listenerTag ≠ listener.listenerTag := fun htag => by
      have hsame := h.sound.tagged.listener_eq (mem_append_left _ hother) hmem htag
      subst hsame
      rw [h.fresh other hother] at hsaw
      cases hsaw
    simp [Option.filter, hne]

theorem Inv.onAdded (h : s.Inv) {worker listenerTag : Nat} {success : Bool} {rest : List Post}
    (hposts : s.posts = ⟨worker, .addListener listenerTag, success⟩ :: rest)
    (hregular : success = false → ∀ listener ∈ s.listeners, listenerTag = listener.listenerTag →
      listener.sawListenerCreateFailure = false → ∀ other ∈ s.active ++ s.warming,
      other.name = listener.name → other.listenerTag = listener.listenerTag) :
    ∃ s', (({ s with posts := rest } : ListenerManager Name Address Body).request
        (if success then [] else [.failed listenerTag])).onAdded listenerTag success = some s' ∧
      s'.Inv ∧ Retires s s' := by
  obtain ⟨hlive, hflow⟩ := h.sound.flow.popAdd hposts
  let popped : ListenerManager Name Address Body := { s with posts := rest }
  have hpopped : popped.Inv := h.keep ⟨{ h.sound.named with }, hflow, { h.sound.counted with },
    { h.sound.tagged with }⟩ rfl (fun _ => rfl) fun _ hmem => hmem
  have hthere : listenerTag ∈ s.listeners.map ListenerImpl.listenerTag := by
    rw [listeners_tags]
    rcases mem_append.mp hlive with hactive | hdraining
    · exact mem_append_left _ (mem_append_left _ hactive)
    · exact mem_append_right _ hdraining
  obtain ⟨there, hmem, htag⟩ := mem_map.mp hthere
  obtain ⟨listener, hfound⟩ : ∃ listener, s.listeners.find?
      (fun listener => listener.listenerTag = listenerTag) = some listener :=
    Option.isSome_iff_exists.mp (find?_isSome.mpr ⟨there, hmem, by simpa using htag⟩)
  obtain ⟨hlistener, hlistenerTag⟩ := find_tag hfound
  have hfound' (requests : List (Request Name Address Body)) :
      (popped.request requests).listeners.find?
        (fun listener => listener.listenerTag = listenerTag) = some listener := hfound
  have hsame (stats : ListenerManagerStats) (requests : List (Request Name Address Body)) :
      Retires s { popped with stats := stats, requests := requests } :=
    .still ⟨.refl _, fun _ hmem => hmem, rfl, rfl⟩ rfl
  cases success with
  | true =>
    rw [if_pos rfl, ListenerManager.onAdded, hfound']
    refine ⟨_, rfl, hpopped.keep (hpopped.sound.annotate _ _) (append_nil _) (fun _ => rfl)
      (fun _ hmem => hmem), hsame _ _⟩
  | false =>
    rw [if_neg Bool.false_ne_true, ListenerManager.onAdded, hfound']
    dsimp only
    rw [if_neg Bool.false_ne_true]
    subst hlistenerTag
    cases hsaw : listener.sawListenerCreateFailure with
    | true => exact ⟨_, rfl, hpopped.fail_again hlistener hsaw, hsame _ _⟩
    | false =>
      let failed := popped.request [.failed listener.listenerTag]
      have hmarked (stats : ListenerManagerStats) :
          Same s { failed.markFailure listener.listenerTag with stats := stats } := by
        refine ⟨marked_tags s.active, ?_, ?_, rfl, rfl, rfl⟩
        · exact markFailure_drainingTags (s := failed)
        · exact markFailure_closingTags (s := failed)
      have hsound (stats : ListenerManagerStats) : ({ failed.markFailure listener.listenerTag with
          stats := stats } : ListenerManager Name Address Body).Sound :=
        (hpopped.sound.markFailure listener.listenerTag).annotate stats failed.requests
      exact ⟨_, rfl, hpopped.fail hlistener (hregular rfl listener hlistener rfl hsaw) _,
        (hmarked _).retires ((hsound _).retires_removeListener _)⟩

theorem Inv.runPost (h : s.Inv) (hregular : s.Regular (.runPost : Event Name Address Body)) :
    ∃ s', s.runPost = some s' ∧ s'.Inv ∧ Retires s s' := by
  rw [ListenerManager.runPost]
  split
  · exact ⟨s, rfl, h, .still ⟨.refl _, fun _ hmem => hmem, rfl, rfl⟩ rfl⟩
  · rename_i post rest hposts
    obtain ⟨worker, task, success⟩ := post
    cases task with
    | addListener listenerTag =>
      refine h.onAdded hposts fun hfailure listener hmem htag hsaw => ?_
      refine hregular ⟨worker, .addListener listenerTag, success⟩ ?_ hfailure listener hmem ?_ hsaw
      · rw [hposts]
        rfl
      · rw [htag]
    | removeListener listenerTag =>
      obtain ⟨s', hs', ⟨hflow, hcounted, htagged⟩, hdrains, hactive, hwarming, hrequests, hstarted⟩ :=
        onRemoved_spec h.sound.flow h.sound.counted h.sound.tagged hposts
      refine ⟨s', hs', h.keep ⟨h.sound.named.congr hactive hwarming hstarted, hflow, hcounted,
        htagged⟩ hrequests (fun name => current_congr hactive hwarming) fun listener hmem => ?_,
        .still hdrains hactive⟩
      rw [hactive, hwarming] at hmem
      exact hmem

omit [DecidableEq Name] in
theorem complete_eq (s : ListenerManager Name Address Body) (listenerTag : Nat) :
    ∃ completed, s.complete listenerTag = { s with completed := completed } := by
  rw [complete]
  split
  · exact ⟨_, rfl⟩
  · exact ⟨s.completed, rfl⟩

theorem Inv.drainComplete (h : s.Inv) (listenerTag : Nat) :
    ((s.complete listenerTag).drainComplete listenerTag).Inv := by
  obtain ⟨completed, heq⟩ := complete_eq s listenerTag
  rw [heq]
  let t : ListenerManager Name Address Body := { s with completed := completed }
  have ht : t.Inv := h.keep ⟨{ h.sound.named with }, { h.sound.flow with },
    { h.sound.counted with }, { h.sound.tagged with }⟩ rfl (fun _ => rfl) fun _ hmem => hmem
  change (t.drainComplete listenerTag).Inv
  rcases drainComplete_cases t listenerTag with ⟨-, heq⟩ | ⟨d, hd, htag, hdraining, heq⟩
  · rw [heq]
    exact ht
  · rw [heq]
    refine ht.keep ⟨{ h.sound.named with },
      ht.sound.flow.closed ht.sound.tagged hd htag hdraining, ?_, ?_⟩ rfl (fun _ => rfl)
        fun _ hmem => hmem
    · refine ht.sound.counted.advance (length_map ..) rfl rfl fun after hafter => ?_
      obtain ⟨before, hbefore, rfl⟩ := mem_map.mp hafter
      refine .inl ⟨before, hbefore, ?_⟩
      split <;> exact ⟨rfl, rfl⟩
    · refine ht.sound.tagged.shrink (Nat.le_refl _) fun other => Nat.le_of_eq ?_
      rw [tags, tags, closed_drainingTags]
      rfl

omit [DecidableEq Name] in
theorem Accounted.drainComplete (h : s.Accounted) (listenerTag : Nat) :
    ((s.complete listenerTag).drainComplete listenerTag).Accounted := by
  by_cases hmem : listenerTag ∈ s.drainingTags
  · have hcomplete : s.complete listenerTag =
        { s with completed := s.completed ++ [listenerTag] } := if_pos hmem
    rw [hcomplete]
    let t : ListenerManager Name Address Body := { s with completed := s.completed ++ [listenerTag] }
    change (t.drainComplete listenerTag).Accounted
    rcases drainComplete_cases t listenerTag with ⟨hclosed, heq⟩ | ⟨d, hd, htag, hdraining, heq⟩
    · -- the drain sequence was complete before
      rw [heq]
      refine ⟨h.drained, fun other hother => ?_⟩
      rcases mem_append.mp hother with hother | hother
      · exact h.completed other hother
      · obtain ⟨d, hd, htag⟩ := mem_drainingTags.mp hmem
        exact mem_append_left _ (mem_closingTags.mpr
          ⟨d, hd, hclosed d hd htag, htag.trans (mem_singleton.mp hother).symm⟩)
    · rw [heq]
      refine ⟨?_, fun other hother => ?_⟩
      · rw [closed_drainingTags]
        exact h.drained
      · rcases mem_append.mp hother with hother | hother
        · rcases mem_append.mp (h.completed other hother) with hclosing | hdestroyed
          · exact mem_append_left _ ((mem_closed_closingTags (s := t) hmem).mpr (.inl hclosing))
          · exact mem_append_right _ hdestroyed
        · exact mem_append_left _ ((mem_closed_closingTags (s := t) hmem).mpr
            (.inr (mem_singleton.mp hother)))
  · have hcomplete : s.complete listenerTag = s := if_neg hmem
    rw [hcomplete]
    rcases drainComplete_cases s listenerTag with ⟨-, heq⟩ | ⟨d, hd, htag, -, -⟩
    · rw [heq]
      exact h
    · exact absurd (mem_drainingTags.mpr ⟨d, hd, htag⟩) hmem

theorem Inv.runWorker (h : s.Inv) (worker : Nat) (success : Bool) :
    (s.runWorker worker success).Inv ∧ Retires s (s.runWorker worker success) := by
  have hflow := h.sound.flow.runWorker worker success
  have hcounted := h.sound.counted.runWorker worker success
  rcases runWorker_cases s worker success with heq | ⟨task, rest, -, heq⟩
  · rw [heq]
    exact ⟨h, .still ⟨.refl _, fun _ hmem => hmem, rfl, rfl⟩ rfl⟩
  · rw [heq] at hflow hcounted ⊢
    exact ⟨h.keep ⟨{ h.sound.named with }, hflow, hcounted, { h.sound.tagged with }⟩ rfl
      (fun _ => rfl) fun _ hmem => hmem, .still ⟨.refl _, fun _ hmem => hmem, rfl, rfl⟩ rfl⟩

section Steps

variable [DecidableEq Address]

theorem step_retire {event : Event Name Address Body} {after : ListenerManager Name Address Body}
    (hact : s.act event = some after) (hplace : s.inPlace event = false) :
    s.step event = some (s.retire after) := by
  rw [step, hact, Option.map_some, if_neg (Bool.eq_false_iff.mp hplace)]

theorem Inv.step (h : s.Inv) (ha : s.Accounted) (event : Event Name Address Body)
    (hregular : s.Regular event) : ∃ s', s.step event = some s' ∧ s'.Inv ∧ s'.Accounted := by
  cases event with
  | addOrUpdateListener update =>
    have hinv := h.addOrUpdateListener hregular
    cases hstarted : s.workersStarted with
    | true =>
      have hplace : s.inPlace (.addOrUpdateListener update) = false := by rw [inPlace, hstarted]; rfl
      exact ⟨_, step_retire rfl hplace, hinv.retire,
        ha.retire (addOrUpdateListener_retires h hstarted)⟩
    | false =>
      have hplace : s.inPlace (.addOrUpdateListener update) = true := by rw [inPlace, hstarted]; rfl
      refine ⟨_, ?_, hinv, ha.drains (addOrUpdateListener_drains hstarted)⟩
      exact congrArg some (if_pos hplace)
  | removeListener name =>
    have hsound := h.sound.annotate s.stats (s.requests ++ [.remove name])
    have hsame : Same s (s.request [.remove name]) := ⟨rfl, rfl, rfl, rfl, rfl, rfl⟩
    exact ⟨_, rfl, h.removeListener.retire,
      ha.retire (hsame.retires (hsound.retires_removeListener name))⟩
  | startWorkers =>
    obtain ⟨s', hs', hsound, hactive, hwarming, hrequests, hsame⟩ := h.sound.startWorkers hregular
    refine ⟨s.retire s', step_retire hs' rfl, Inv.retire (h.keep hsound hrequests
      (fun name => current_congr hactive hwarming) fun listener hmem => ?_),
      ha.retire (.still hsame.drains hactive)⟩
    rw [hactive, hwarming] at hmem
    exact hmem
  | onListenerWarmed listenerTag =>
    exact ⟨_, rfl, Inv.retire (h.keep h.sound.onListenerWarmed onListenerWarmed_frame.1
      (fun name => h.sound.named.current_onListenerWarmed) fun _ => mem_onListenerWarmed),
      ha.retire (h.sound.retires_onListenerWarmed listenerTag)⟩
  | drainComplete listenerTag =>
    have hactive : ((s.complete listenerTag).drainComplete listenerTag).active = s.active := by
      obtain ⟨completed, heq⟩ := complete_eq s listenerTag
      rw [heq, ListenerManager.drainComplete]
      split <;> rfl
    refine ⟨_, step_retire rfl rfl, ?_⟩
    rw [retire_still hactive]
    exact ⟨h.drainComplete listenerTag, ha.drainComplete listenerTag⟩
  | runWorker worker success =>
    obtain ⟨hinv, hretires⟩ := h.runWorker worker success
    exact ⟨_, rfl, hinv.retire, ha.retire hretires⟩
  | runPost =>
    obtain ⟨s', hs', hinv, hretires⟩ := h.runPost hregular
    exact ⟨s.retire s', step_retire hs' rfl, hinv.retire, ha.retire hretires⟩

/-- A run of such steps goes through, and the last request wins. -/
theorem regular_tracks (concurrency : Nat) (events : List (Event Name Address Body))
    (hregular : AllMeet step Regular (create concurrency) events) :
    ∃ s, run step (create concurrency) events = some s ∧ s.Tracks := by
  have hcreate : (create concurrency : ListenerManager Name Address Body).Inv ∧
      (create concurrency : ListenerManager Name Address Body).Accounted :=
    ⟨create_inv concurrency, ⟨List.Perm.nil, nofun⟩⟩
  obtain ⟨s, hrun, hinv, haccounted⟩ := run_safe
    (fun s event hinv hmeet => Inv.step hinv.1 hinv.2 event hmeet) hcreate hregular
  exact ⟨s, hrun, hinv.tracks haccounted⟩

end Steps

instance [DecidableEq Address] [DecidableEq Body]
    (s : ListenerManager Name Address Body) : DecidablePred s.Regular := by
  intro e
  cases e <;> dsimp only [Regular] <;> infer_instance

def sampleUpdate (body : Nat) (initializes : Bool) : Update Nat Nat Nat :=
  ⟨⟨some 0, 80, true, body⟩, body.toUInt64, 0, true, some 80, initializes⟩

/-- An update comes into force, repeated while it warms, and its listener fails to listen. The one
before it is destroyed. -/
def replacedEvents : List (Event Nat Nat Nat) :=
  [.addOrUpdateListener (sampleUpdate 1 true), .startWorkers, .runWorker 0 true, .runPost,
    .addOrUpdateListener (sampleUpdate 2 false), .addOrUpdateListener (sampleUpdate 2 false),
    .onListenerWarmed 2, .drainComplete 1, .runWorker 0 false, .runWorker 0 true, .runPost, .runPost,
    .addOrUpdateListener (sampleUpdate 1 false), .removeListener 0]

theorem replacedEvents_tracks : ∃ s, run step (create 1) replacedEvents = some s ∧ s.Tracks :=
  regular_tracks 1 replacedEvents (by decide)

def revertedEvents : List (Event Nat Nat Nat) :=
  [.startWorkers, .addOrUpdateListener (sampleUpdate 1 true),
    .addOrUpdateListener (sampleUpdate 2 false), .addOrUpdateListener (sampleUpdate 1 true),
    .onListenerWarmed 2]

def lateFailureEvents : List (Event Nat Nat Nat) :=
  [.startWorkers, .addOrUpdateListener (sampleUpdate 1 true), .runWorker 0 false,
    .addOrUpdateListener (sampleUpdate 2 true), .runPost]

theorem revertedEvents_not_tracks : (∃ s, run step (create 1) revertedEvents = some s ∧ ¬s.Tracks) ∧
    ∃ s, run step (create 1) lateFailureEvents = some s ∧ ¬s.Tracks := by
  refine ⟨⟨_, rfl, fun h => ?_⟩, ⟨_, rfl, fun h => ?_⟩⟩
  · cases h.current 0
  · cases h.current 0

end Meliproxy.Envoy.Server.ListenerManager
