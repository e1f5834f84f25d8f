import Meliproxy.Envoy.Upstream.EdsCluster

/-!
# The hosts of an EDS update

What `updateDynamicHostList` does with the hosts, and what the health checker makes of the hosts that
come and go.
-/

namespace Meliproxy.Envoy.Upstream

open Lib List Option Function

variable {Address Locality : Type}

variable {nextTag : Nat} {newHosts : List (HostImpl Address Locality × Nat)}

theorem mapM_zipIdx_tags {α : Type} {f : α × Nat → Option (HostImpl Address Locality × Nat)}
    (htag : ∀ a new, f a = some new → new.1.tag = a.2) {l : List α}
    (h : (l.zipIdx nextTag).mapM f = some newHosts) :
    newHosts.map (fun new => new.1.tag) = List.range' nextTag newHosts.length := by
  induction l generalizing nextTag newHosts with
  | nil =>
    cases h
    rfl
  | cons a l ih =>
    rw [zipIdx_cons, mapM_cons] at h
    obtain ⟨new, hnew, h⟩ := bind_eq_some_iff.mp h
    obtain ⟨rest, hrest, h⟩ := bind_eq_some_iff.mp h
    cases h
    rw [map_cons, ih hrest, htag _ new hnew]
    rfl

theorem newHosts_tags {assignment : ClusterLoadAssignment Address Locality}
    (h : assignment.newHosts nextTag = some newHosts) : (newHosts.map Prod.fst).Nodup ∧
      ∀ host ∈ newHosts.map Prod.fst, nextTag ≤ host.tag ∧ host.tag < nextTag + newHosts.length := by
  have htags : (newHosts.map Prod.fst).map HostImpl.tag = List.range' nextTag newHosts.length := by
    rw [List.map_map]
    refine mapM_zipIdx_tags (fun a new hnew => ?_) h
    obtain ⟨address, -, rfl⟩ := map_eq_some_iff.mp hnew
    rfl
  refine ⟨List.Nodup.of_map HostImpl.tag (htags ▸ nodup_range'), fun host hmem => ?_⟩
  have hmem : host.tag ∈ List.range' nextTag newHosts.length := htags ▸ List.mem_map_of_mem hmem
  exact mem_range'_1.mp hmem

namespace HostListUpdate

variable {current : List (HostImpl Address Locality)} {failed : HostImpl Address Locality → Bool}
  {done rest : List (HostImpl Address Locality × Nat)} {u : HostListUpdate Address Locality}

section Hosts

variable [DecidableEq Address] [DecidableEq Locality]

/-- Where the hosts are once the new hosts in `done` have had their turn. -/
structure Follows (current : List (HostImpl Address Locality))
    (failed : HostImpl Address Locality → Bool) (done : List (HostImpl Address Locality × Nat))
    (u : HostListUpdate Address Locality) : Prop where
  perm : (u.finalHosts ++ u.currentHosts).Perm (current ++ u.hostsAdded)
  rest : u.currentHosts.Sublist current
  added : u.hostsAdded.Sublist (done.map Prod.fst)
  addresses : ∀ address, address ∈ u.hostAddresses ↔ ∃ new ∈ done, new.1.address = address
  left : ∀ host ∈ u.currentHosts, host.address ∉ u.hostAddresses
  failed : ∀ host, u.failedActiveHc host = (failed host || decide (host ∈ u.hostsAdded))

section

variable (h : Follows current failed done u)
include h

theorem Follows.addNewHost (new : HostImpl Address Locality × Nat) :
    Follows current failed (done ++ [new]) (u.addNewHost true new) := by
  have hsub : (done.map Prod.fst).Sublist ((done ++ [new]).map Prod.fst) := by
    rw [map_append]
    exact sublist_append_left ..
  have haddresses (address : Address) : address ∈ new.1.address :: u.hostAddresses ↔
      ∃ other ∈ done ++ [new], other.1.address = address := by
    simp only [mem_cons, h.addresses, mem_append, not_mem_nil, or_false,
      or_and_right, exists_or, exists_eq_left]
    rw [or_comm, eq_comm]
  rw [HostListUpdate.addNewHost]
  split
  · rename_i hseen
    refine ⟨h.perm, h.rest, h.added.trans hsub, fun address => ?_, h.left, h.failed⟩
    rw [← haddresses, mem_cons, iff_or_self]
    rintro rfl
    exact hseen
  · rename_i hfresh
    dsimp only
    split
    · rename_i hnone
      refine ⟨?_, h.rest, ?_, haddresses, fun host hmem => ?_, fun host => ?_⟩
      · dsimp only
        rw [← append_assoc, append_assoc u.finalHosts]
        exact (perm_append_comm_assoc ..).trans
          ((perm_append_comm ..).trans (h.perm.append_right _))
      · rw [map_append]
        exact h.added.append (List.Sublist.refl _)
      · rw [mem_cons, not_or]
        refine ⟨fun heq => ?_, h.left host hmem⟩
        have : host ∈ u.currentHosts.filter fun current => current.address = new.1.address :=
          mem_filter.mpr ⟨hmem, decide_eq_true heq⟩
        rw [hnone] at this
        cases this
      · dsimp only
        rw [if_pos rfl, update_apply, h.failed]
        split <;> simp_all
    · refine ⟨?_, filter_sublist.trans h.rest, h.added.trans hsub, haddresses,
        fun host hmem => ?_, h.failed⟩
      · dsimp only
        rw [append_assoc]
        refine (List.Perm.append_left _ ?_).trans h.perm
        simpa using filter_append_perm (fun host : HostImpl Address Locality =>
          decide (host.address = new.1.address)) u.currentHosts
      · obtain ⟨hmem, hne⟩ := mem_filter.mp hmem
        rw [mem_cons, not_or]
        exact ⟨by simpa using hne, h.left host hmem⟩

theorem Follows.foldl :
    Follows current failed (done ++ rest) (rest.foldl (HostListUpdate.addNewHost true) u) := by
  induction rest generalizing done u with
  | nil =>
    rw [append_nil]
    exact h
  | cons new rest ih =>
    rw [append_cons]
    exact ih (h.addNewHost new)

theorem Follows.keepHealthy :
    Follows current failed done u.keepHealthy := by
  refine ⟨?_, filter_sublist.trans h.rest, h.added, h.addresses,
    fun host hmem => h.left host (mem_filter.mp hmem).1, h.failed⟩
  rw [HostListUpdate.keepHealthy]
  rw [append_assoc]
  refine (List.Perm.append_left _ ?_).trans h.perm
  exact (perm_append_comm ..).trans (filter_append_perm u.failedActiveHc u.currentHosts)

end

end Hosts

end HostListUpdate

theorem updateDynamicHostList_follows [DecidableEq Address] [DecidableEq Locality]
    (newHosts : List (HostImpl Address Locality × Nat))
    (currentHosts : List (HostImpl Address Locality))
    (failedActiveHc : HostImpl Address Locality → Bool) (weight : HostImpl Address Locality → Nat) :
    HostListUpdate.Follows currentHosts failedActiveHc newHosts
      (updateDynamicHostList newHosts currentHosts failedActiveHc weight true) := by
  have hstart : HostListUpdate.Follows currentHosts failedActiveHc []
      ⟨[], currentHosts, [], [], failedActiveHc, weight, 1⟩ :=
    ⟨by rw [append_nil]; rfl, List.Sublist.refl _, List.Sublist.slnil, fun address => by simp,
      fun _ _ => not_mem_nil, fun host => by simp⟩
  exact (hstart.foldl).keepHealthy

/-- The lists of an update, where no new host is a current one. -/
structure HostListUpdate.Parts (current : List (HostImpl Address Locality))
    (u : HostListUpdate Address Locality) : Prop where
  fresh : ∀ host ∈ u.hostsAdded, host ∉ current
  added : u.hostsAdded.Nodup
  removed : u.currentHosts.Nodup ∧ ∀ host ∈ u.currentHosts, host ∈ current
  final : u.finalHosts.Nodup
  mem : ∀ host, host ∈ u.finalHosts ↔
    (host ∈ current ∨ host ∈ u.hostsAdded) ∧ host ∉ u.currentHosts

theorem HostListUpdate.Follows.parts [DecidableEq Address] [DecidableEq Locality]
    {newHosts : List (HostImpl Address Locality × Nat)} {current : List (HostImpl Address Locality)}
    {failed : HostImpl Address Locality → Bool} {u : HostListUpdate Address Locality}
    (h : u.Follows current failed newHosts) (hcurrent : current.Nodup)
    (hnew : (newHosts.map Prod.fst).Nodup) (hfresh : ∀ host ∈ newHosts.map Prod.fst, host ∉ current) :
    u.Parts current := by
  have hadded : u.hostsAdded.Nodup := h.added.nodup hnew
  have hnot (host : HostImpl Address Locality) (hmem : host ∈ u.hostsAdded) : host ∉ current :=
    hfresh host (h.added.subset hmem)
  have hboth : (current ++ u.hostsAdded).Nodup :=
    List.nodup_append.mpr ⟨hcurrent, hadded, fun host hmem other hother heq =>
      hnot other hother (heq ▸ hmem)⟩
  obtain ⟨hfinal, hremoved, hapart⟩ := List.nodup_append.mp (h.perm.nodup_iff.mpr hboth)
  refine ⟨hnot, hadded, ⟨hremoved, fun host hmem => h.rest.subset hmem⟩, hfinal, fun host => ?_⟩
  have hmem := h.perm.mem_iff (a := host)
  rw [mem_append, mem_append] at hmem
  constructor
  · exact fun hin => ⟨hmem.mp (.inl hin), fun hout => hapart host hin host hout rfl⟩
  · exact fun ⟨hin, hout⟩ => (hmem.mpr hin).resolve_right hout

namespace HealthChecker

variable {Host : Type} [DecidableEq Host] {s s' : HealthChecker Host} {host : Host}

/-- A step that changes which hosts have sessions, and starts the sessions in `new`. -/
structure Moves (s s' : HealthChecker Host) (new : List Host) : Prop where
  failed : s'.failedActiveHc = s.failedActiveHc
  started : ∀ host ∈ new, s'.session host = .new
  others : ∀ host, host ∉ new → s'.session host = s.session host

omit [DecidableEq Host] in
theorem Moves.refl (s : HealthChecker Host) : Moves s s [] := ⟨rfl, nofun, fun _ _ => rfl⟩

omit [DecidableEq Host] in
theorem Moves.trans {s'' : HealthChecker Host} {new new' : List Host} (h : Moves s s' new)
    (h' : Moves s' s'' new') : Moves s s'' (new ++ new') := by
  classical
  refine ⟨h'.failed.trans h.failed, fun host hmem => ?_, fun host hnot => ?_⟩
  · by_cases hlater : host ∈ new'
    · exact h'.started host hlater
    · rw [h'.others host hlater]
      exact h.started host ((mem_append.mp hmem).resolve_right hlater)
  · rw [mem_append, not_or] at hnot
    rw [h'.others host hnot.2, h.others host hnot.1]

theorem addHost_moves (hnew : host ∉ s.activeSessions) (hadd : s.addHost host = some s') :
    Moves s s' [host] ∧ s'.activeSessions = host :: s.activeSessions := by
  have hsession (session : Host → ActiveHealthCheckSession) (other : Host) (hne : other ∉ [host]) :
      Function.update session host .new other = session other :=
    update_of_ne (fun heq => hne (mem_singleton.mpr heq)) ..
  have hstarted (session : Host → ActiveHealthCheckSession) (other : Host)
      (hmem : other ∈ [host]) : Function.update session host .new other = .new := by
    rw [mem_singleton.mp hmem]
    exact update_self ..
  rw [addHost] at hadd
  cases hflag : s.failedActiveHc host with
  | true =>
    rw [hflag, if_pos rfl, if_neg hnew] at hadd
    cases hadd
    exact ⟨⟨rfl, hstarted _, hsession _⟩, rfl⟩
  | false =>
    have hnot : host ∉ s.incHealthy.activeSessions := hnew
    rw [hflag, if_neg Bool.false_ne_true, if_neg hnot] at hadd
    cases hadd
    exact ⟨⟨rfl, hstarted _, hsession _⟩, rfl⟩

theorem removeHost_moves (hremove : s.removeHost host = some s') :
    Moves s s' [] ∧ s'.activeSessions = s.activeSessions.erase host := by
  rw [removeHost] at hremove
  split at hremove
  · obtain ⟨middle, hdestroy, hremove⟩ := bind_eq_some_iff.mp hremove
    cases hremove
    rw [destroySession] at hdestroy
    split at hdestroy
    · cases hdestroy
      exact ⟨⟨rfl, by simp, fun _ _ => rfl⟩, rfl⟩
    · rw [decHealthy] at hdestroy
      split at hdestroy
      · cases hdestroy
        exact ⟨⟨rfl, by simp, fun _ _ => rfl⟩, rfl⟩
      · cases hdestroy
  · cases hremove

variable {hosts : List Host}

theorem Inv.addHosts (h : s.Inv) (hnodup : hosts.Nodup)
    (hnew : ∀ host ∈ hosts, host ∉ s.activeSessions) :
    ∃ s', hosts.foldlM HealthChecker.addHost s = some s' ∧ s'.Inv ∧ Moves s s' hosts ∧
      ∀ host, host ∈ s'.activeSessions ↔ host ∈ s.activeSessions ∨ host ∈ hosts := by
  induction hosts generalizing s with
  | nil => exact ⟨s, rfl, h, .refl s, fun host => by simp⟩
  | cons host rest ih =>
    obtain ⟨hnot, hnodup⟩ := nodup_cons.mp hnodup
    obtain ⟨middle, hadd, hmiddle⟩ := h.addHost host
    obtain ⟨hmoves, hsessions⟩ := addHost_moves (hnew host mem_cons_self) hadd
    obtain ⟨s', hrest, hinv, hmoves', hsessions'⟩ := ih hmiddle hnodup fun other hother => by
      rw [hsessions, mem_cons, not_or]
      exact ⟨fun heq => hnot (heq ▸ hother), hnew other (mem_cons_of_mem _ hother)⟩
    refine ⟨s', ?_, hinv, hmoves.trans hmoves', fun other => ?_⟩
    · rw [foldlM_cons, hadd]
      exact hrest
    · rw [hsessions', hsessions, mem_cons, mem_cons]
      tauto

theorem Inv.removeHosts (h : s.Inv) (hnodup : hosts.Nodup)
    (hmem : ∀ host ∈ hosts, host ∈ s.activeSessions) :
    ∃ s', hosts.foldlM HealthChecker.removeHost s = some s' ∧ s'.Inv ∧ Moves s s' [] ∧
      ∀ host, host ∈ s'.activeSessions ↔ host ∈ s.activeSessions ∧ host ∉ hosts := by
  induction hosts generalizing s with
  | nil => exact ⟨s, rfl, h, .refl s, fun host => by simp⟩
  | cons host rest ih =>
    obtain ⟨hnot, hnodup⟩ := nodup_cons.mp hnodup
    obtain ⟨middle, hremove, hmiddle⟩ := h.removeHost (hmem host mem_cons_self)
    obtain ⟨hmoves, hsessions⟩ := removeHost_moves hremove
    have hleft (other : Host) : other ∈ middle.activeSessions ↔
        other ≠ host ∧ other ∈ s.activeSessions := by
      rw [hsessions]
      exact h.nodup.mem_erase_iff
    obtain ⟨s', hrest, hinv, hmoves', hsessions'⟩ := ih hmiddle hnodup fun other hother =>
      (hleft other).mpr ⟨fun heq => hnot (heq ▸ hother), hmem other (mem_cons_of_mem _ hother)⟩
    refine ⟨s', ?_, hinv, hmoves.trans hmoves', fun other => ?_⟩
    · rw [foldlM_cons, hremove]
      exact hrest
    · rw [hsessions', hleft, mem_cons]
      tauto

def setFlags (s : HealthChecker Host) (failed : Host → Bool) : HealthChecker Host :=
  { s with failedActiveHc := failed }

omit [DecidableEq Host] in
theorem Inv.setFlags (h : s.Inv) {failed : Host → Bool}
    (hsame : ∀ host ∈ s.activeSessions, failed host = s.failedActiveHc host) :
    (s.setFlags failed).Inv := by
  refine ⟨h.thresholds, ?_, h.nodup, fun other hother => ?_⟩
  · refine h.healthy.trans (countP_congr fun other hother => ?_)
    rw [HealthChecker.setFlags]
    dsimp only
    rw [hsame other hother]
  · rw [HealthChecker.setFlags]
    dsimp only
    rw [hsame other hother]
    exact h.counted other hother

theorem handle_sessions {result : CheckResult} (h : s.handle host result = some s') :
    s'.activeSessions = s.activeSessions := by
  cases result with
  | success =>
    cases h
    rw [handleSuccess]
    dsimp only
    split <;> rfl
  | failure type =>
    rw [handle, setUnhealthy] at h
    dsimp only at h
    split at h
    · obtain ⟨middle, hmiddle, h⟩ := bind_eq_some_iff.mp h
      cases h
      rw [decHealthy] at hmiddle
      split at hmiddle
      · cases hmiddle
        rfl
      · cases hmiddle
    · cases h
      rfl

end HealthChecker

end Meliproxy.Envoy.Upstream
