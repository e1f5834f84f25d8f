import Meliproxy.Envoy.Upstream.EdsClusterHosts

/-!
# What an update of the host list conserves

`updateDynamicHostList` of `upstream/upstream_impl.cc`, with and without a health checker: no host
is lost or doubled between the old list, the new one and the lists of the added and removed hosts.
-/

namespace Meliproxy.Envoy.Upstream

open List

variable {Address Locality : Type} [DecidableEq Address]

def firstByAddress : List (HostImpl Address Locality × Nat) → List (HostImpl Address Locality × Nat)
  | [] => []
  | new :: news => new :: (firstByAddress news).filter fun other => other.1.address ≠ new.1.address

theorem firstByAddress_append_singleton (news : List (HostImpl Address Locality × Nat))
    (new : HostImpl Address Locality × Nat) : firstByAddress (news ++ [new]) =
      firstByAddress news ++
        if new.1.address ∈ news.map fun new => new.1.address then [] else [new] := by
  induction news with
  | nil => rfl
  | cons first news ih =>
    rw [cons_append, firstByAddress, ih, filter_append, firstByAddress, cons_append]
    congr 2
    by_cases hfirst : new.1.address = first.1.address
    · rw [if_pos (mem_map.mpr ⟨first, mem_cons_self, hfirst.symm⟩)]
      split
      · rfl
      · simp [hfirst]
    · by_cases hseen : new.1.address ∈ news.map fun new => new.1.address
      · have hmem : new.1.address ∈ (first :: news).map fun new => new.1.address :=
          mem_cons_of_mem _ hseen
        rw [if_pos hseen, if_pos hmem]
        rfl
      · have hnot : new.1.address ∉ (first :: news).map fun new => new.1.address := by
          rw [map_cons, mem_cons, not_or]
          exact ⟨hfirst, hseen⟩
        rw [if_neg hseen, if_neg hnot]
        simp [hfirst]

variable {news : List (HostImpl Address Locality × Nat)} {new : HostImpl Address Locality × Nat}

theorem mem_firstByAddress (h : new ∈ firstByAddress news) : new ∈ news := by
  induction news with
  | nil => cases h
  | cons first news ih =>
    rcases mem_cons.mp h with rfl | h
    · exact mem_cons_self
    · exact mem_cons_of_mem first (ih (mem_filter.mp h).1)

theorem exists_firstByAddress (h : new ∈ news) :
    ∃ first ∈ firstByAddress news, first.1.address = new.1.address := by
  induction news with
  | nil => cases h
  | cons other news ih =>
    by_cases hsame : new.1.address = other.1.address
    · exact ⟨other, mem_cons_self, hsame.symm⟩
    · have hmem : new ∈ news :=
        (mem_cons.mp h).resolve_left fun heq => hsame (congrArg (·.1.address) heq)
      obtain ⟨first, hfirst, haddress⟩ := ih hmem
      refine ⟨first, mem_cons_of_mem other (mem_filter.mpr ⟨hfirst, ?_⟩), haddress⟩
      rw [haddress]
      exact decide_eq_true hsame

namespace HostListUpdate

variable {current : List (HostImpl Address Locality)}
  {failed : HostImpl Address Locality → Bool} {weight : HostImpl Address Locality → Nat}
  {dependOnHc : Bool} {done : List (HostImpl Address Locality × Nat)}
  {u : HostListUpdate Address Locality}

omit [DecidableEq Address] in
def changed (u : HostListUpdate Address Locality) : Bool := u.hostsAdded ≠ [] || u.currentHosts ≠ []

/-- The state of the loop once the new hosts in `done` have had their turn. -/
structure Merged (current : List (HostImpl Address Locality))
    (failed : HostImpl Address Locality → Bool) (weight : HostImpl Address Locality → Nat)
    (done : List (HostImpl Address Locality × Nat)) (u : HostListUpdate Address Locality) :
    Prop where
  addresses : ∀ address, address ∈ u.hostAddresses ↔ address ∈ done.map fun new => new.1.address
  left : u.currentHosts = current.filter fun host => host.address ∉ u.hostAddresses
  distinct : (u.finalHosts.map HostImpl.address).Nodup
  seen : ∀ host ∈ u.finalHosts, host.address ∈ u.hostAddresses
  merged : ∀ new ∈ firstByAddress done,
    ∃ host ∈ u.finalHosts, host.address = new.1.address ∧ u.weight host = new.2
  added : u.hostsAdded = ((firstByAddress done).map Prod.fst).filter
    fun host => host.address ∉ current.map HostImpl.address
  perm : (u.finalHosts ++ u.currentHosts).Perm (current ++ u.hostsAdded)
  weight : ∀ host : HostImpl Address Locality, host.address ∉ u.hostAddresses →
    u.weight host = weight host
  failed : ∀ host : HostImpl Address Locality, host.address ∉ u.hostAddresses →
    u.failedActiveHc host = failed host
  maxHostWeight : u.maxHostWeight = (u.finalHosts.map u.weight).foldl max 1

theorem merged_start (current : List (HostImpl Address Locality))
    (failed : HostImpl Address Locality → Bool) (weight : HostImpl Address Locality → Nat) :
    Merged current failed weight [] ⟨[], current, [], [], failed, weight, 1⟩ where
  addresses := fun _ => Iff.rfl
  left := by simp
  distinct := nodup_nil
  seen := nofun
  merged := nofun
  added := rfl
  perm := by simp
  weight := fun _ _ => rfl
  failed := fun _ _ => rfl
  maxHostWeight := rfl

variable {new : HostImpl Address Locality × Nat}

theorem Merged.repeated (h : Merged current failed weight done u) (hseen : new.1.address ∈ u.hostAddresses) :
    Merged current failed weight (done ++ [new]) u := by
  have hdone := (h.addresses _).mp hseen
  have hfirst : firstByAddress (done ++ [new]) = firstByAddress done := by
    rw [firstByAddress_append_singleton, if_pos hdone, append_nil]
  refine { h with addresses := ?_, merged := ?_, added := ?_ }
  · intro address
    rw [h.addresses, map_append, mem_append]
    constructor
    · exact Or.inl
    · rintro (hmem | hmem)
      · exact hmem
      · rw [mem_singleton.mp hmem]
        exact hdone
  · rw [hfirst]
    exact h.merged
  · rw [hfirst]
    exact h.added

theorem Merged.addresses_cons (h : Merged current failed weight done u)
    (new : HostImpl Address Locality × Nat) (address : Address) :
    address ∈ new.1.address :: u.hostAddresses ↔
      address ∈ (done ++ [new]).map fun new => new.1.address := by
  rw [mem_cons, h.addresses, map_append, mem_append, or_comm]
  simp

/-- What the turn of a new host with a new address does: `host`, an old one or the new one, becomes
the last of the final hosts. -/
structure Takes (current : List (HostImpl Address Locality)) (u : HostListUpdate Address Locality)
    (new : HostImpl Address Locality × Nat) (host : HostImpl Address Locality)
    (u' : HostListUpdate Address Locality) : Prop where
  address : host.address = new.1.address
  addresses : u'.hostAddresses = new.1.address :: u.hostAddresses
  final : u'.finalHosts = u.finalHosts ++ [host]
  left : u'.currentHosts = u.currentHosts.filter fun host => host.address ≠ new.1.address
  added : u'.hostsAdded = u.hostsAdded ++
    if new.1.address ∈ current.map HostImpl.address then [] else [new.1]
  perm : (host :: u'.currentHosts).Perm (u.currentHosts ++
    if new.1.address ∈ current.map HostImpl.address then [] else [new.1])
  weight : u'.weight host = new.2
  weights : ∀ other : HostImpl Address Locality, other.address ≠ new.1.address →
    u'.weight other = u.weight other
  failed : ∀ other : HostImpl Address Locality, other.address ≠ new.1.address →
    u'.failedActiveHc other = u.failedActiveHc other
  maxHostWeight : u'.maxHostWeight = max u.maxHostWeight new.2

theorem Merged.takes (h : Merged current failed weight done u) (host : HostImpl Address Locality)
    {u' : HostListUpdate Address Locality} (hfresh : new.1.address ∉ u.hostAddresses)
    (ht : Takes current u new host u') : Merged current failed weight (done ++ [new]) u' := by
  have hfirst : firstByAddress (done ++ [new]) = firstByAddress done ++ [new] := by
    rw [firstByAddress_append_singleton, if_neg (fun hmem => hfresh ((h.addresses _).mpr hmem))]
  have hother (old : HostImpl Address Locality) (hold : old ∈ u.finalHosts) :
      old.address ≠ new.1.address := fun heq => hfresh (heq ▸ h.seen old hold)
  refine ⟨?_, ?_, ?_, ?_, ?_, ?_, ?_, ?_, ?_, ?_⟩
  · intro address
    rw [ht.addresses]
    exact h.addresses_cons new address
  · rw [ht.left, h.left, ht.addresses, filter_filter]
    apply filter_congr
    intro old _
    simp [not_or]
  · rw [ht.final, map_append, List.nodup_append]
    refine ⟨h.distinct, nodup_singleton _, ?_⟩
    intro address haddress other hother' heq
    obtain ⟨old, hold, rfl⟩ := mem_map.mp haddress
    rw [map_singleton, mem_singleton] at hother'
    exact hother old hold (heq.trans (hother'.trans ht.address))
  · intro old hold
    rw [ht.final, mem_append, mem_singleton] at hold
    rw [ht.addresses]
    rcases hold with hold | rfl
    · exact mem_cons_of_mem _ (h.seen old hold)
    · rw [ht.address]
      exact mem_cons_self
  · intro other hmem
    rw [hfirst, mem_append, mem_singleton] at hmem
    rw [ht.final]
    rcases hmem with hmem | rfl
    · obtain ⟨old, hold, haddress, hweight⟩ := h.merged other hmem
      refine ⟨old, mem_append_left _ hold, haddress, ?_⟩
      rw [ht.weights old (hother old hold), hweight]
    · exact ⟨host, mem_append_right _ mem_cons_self, ht.address, ht.weight⟩
  · rw [ht.added, hfirst, h.added, map_append, filter_append]
    congr 1
    by_cases hmem : new.1.address ∈ current.map HostImpl.address
    · rw [if_pos hmem]
      simp only [map_singleton, filter_singleton, hmem]
      rfl
    · rw [if_neg hmem]
      simp only [map_singleton, filter_singleton, hmem]
      rfl
  · rw [ht.final, ht.added, append_assoc, ← append_assoc current]
    refine (List.Perm.append_left _ ht.perm).trans ?_
    rw [← append_assoc]
    exact h.perm.append_right _
  · intro old hold
    rw [ht.addresses, mem_cons, not_or] at hold
    rw [ht.weights old hold.1]
    exact h.weight old hold.2
  · intro old hold
    rw [ht.addresses, mem_cons, not_or] at hold
    rw [ht.failed old hold.1]
    exact h.failed old hold.2
  · have hsame : u.finalHosts.map u'.weight = u.finalHosts.map u.weight :=
      map_congr_left fun old hold => ht.weights old (hother old hold)
    rw [ht.maxHostWeight, ht.final, map_append, foldl_append, hsame, h.maxHostWeight,
      map_singleton, ht.weight]
    rfl

variable {address : Address}

theorem filter_address_eq {hosts : List (HostImpl Address Locality)}
    (hdistinct : (hosts.map HostImpl.address).Nodup)
    (hfound : (hosts.filter fun host => host.address = address) ≠ []) :
    ∃ host, host.address = address ∧
      (hosts.filter fun host => host.address = address) = [host] := by
  have hnodup := hdistinct.sublist ((filter_sublist (p := fun host =>
    decide (host.address = address))).map HostImpl.address)
  have haddress (host : HostImpl Address Locality)
      (hmem : host ∈ hosts.filter fun host => host.address = address) : host.address = address :=
    of_decide_eq_true (mem_filter.mp hmem).2
  match hfilter : hosts.filter fun host => host.address = address with
  | [] => exact absurd hfilter hfound
  | [host] =>
    exact ⟨host, haddress host (hfilter ▸ mem_cons_self), hfilter⟩
  | host :: other :: rest =>
    rw [hfilter] at hnodup haddress
    have hhost := haddress host mem_cons_self
    have hother := haddress other (mem_cons_of_mem _ mem_cons_self)
    simp [hhost, hother] at hnodup

theorem Merged.found_iff (h : Merged current failed weight done u)
    (hfresh : address ∉ u.hostAddresses) : address ∈ current.map HostImpl.address ↔
      (u.currentHosts.filter fun host => host.address = address) ≠ [] := by
  rw [h.left, filter_filter, Ne, filter_eq_nil_iff, mem_map]
  push Not
  refine exists_congr fun host => and_congr_right fun _ => ?_
  constructor
  · rintro rfl
    simpa using hfresh
  · intro hboth
    exact of_decide_eq_true (Bool.and_eq_true _ _ ▸ hboth).1

theorem Merged.addNewHost [DecidableEq Locality] (h : Merged current failed weight done u)
    (hcurrent : (current.map HostImpl.address).Nodup) (new : HostImpl Address Locality × Nat) :
    Merged current failed weight (done ++ [new]) (u.addNewHost dependOnHc new) := by
  rw [HostListUpdate.addNewHost]
  by_cases hseen : new.1.address ∈ u.hostAddresses
  · rw [if_pos hseen]
    exact h.repeated hseen
  · rw [if_neg hseen]
    have hfound := h.found_iff hseen
    dsimp only
    split
    · rename_i hnone
      have hmem : new.1.address ∉ current.map HostImpl.address := fun hmem =>
        hfound.mp hmem hnone
      have hupdate {β : Type} (f : HostImpl Address Locality → β) (value : β)
          (other : HostImpl Address Locality) (hne : other.address ≠ new.1.address) :
          Function.update f new.1 value other = f other :=
        Function.update_of_ne (fun heq => hne (congrArg HostImpl.address heq)) ..
      refine h.takes new.1 hseen ⟨rfl, rfl, rfl, ?_, ?_, ?_, Function.update_self .., hupdate _ _,
        ?_, rfl⟩
      · symm
        apply filter_eq_self.mpr
        intro host hhost
        have hne := filter_eq_nil_iff.mp hnone host hhost
        simpa using hne
      · rw [if_neg hmem]
      · rw [if_neg hmem]
        exact (perm_append_singleton _ _).symm
      · intro other hne
        dsimp only
        split
        · exact hupdate _ _ other hne
        · rfl
    · rename_i hsome
      have hdistinct : (u.currentHosts.map HostImpl.address).Nodup := by
        rw [h.left]
        exact hcurrent.sublist (filter_sublist.map _)
      obtain ⟨host, haddress, hhost⟩ := filter_address_eq hdistinct hsome
      rw [hhost]
      refine h.takes host hseen ⟨haddress, rfl, rfl, rfl, ?_, ?_, ?_, ?_, fun _ _ => rfl, rfl⟩
      · rw [if_pos (hfound.mpr hsome), append_nil]
      · rw [if_pos (hfound.mpr hsome), append_nil]
        have hsplit := filter_append_perm (fun host : HostImpl Address Locality =>
          decide (host.address = new.1.address)) u.currentHosts
        rw [hhost] at hsplit
        simpa using hsplit
      · exact if_pos mem_cons_self
      · intro other hne
        apply if_neg
        rw [mem_singleton]
        rintro rfl
        exact hne haddress

theorem Merged.foldl [DecidableEq Locality] (h : Merged current failed weight done u)
    (hcurrent : (current.map HostImpl.address).Nodup)
    (rest : List (HostImpl Address Locality × Nat)) : Merged current failed weight (done ++ rest)
      (rest.foldl (HostListUpdate.addNewHost dependOnHc) u) := by
  induction rest generalizing done u with
  | nil =>
    rw [append_nil]
    exact h
  | cons new rest ih =>
    rw [append_cons]
    exact ih (h.addNewHost hcurrent new)

/-- What is conserved. The hosts that are in both lists are kept with the weight of the new one, and
so are, where the cluster depends on health checks, those of the others that have not failed. -/
structure Conserves (newHosts : List (HostImpl Address Locality × Nat))
    (currentHosts : List (HostImpl Address Locality))
    (failedActiveHc : HostImpl Address Locality → Bool)
    (weight : HostImpl Address Locality → Nat) (dependOnHc : Bool)
    (u : HostListUpdate Address Locality) : Prop where
  distinct : (u.finalHosts.map HostImpl.address).Nodup
  contains : ∀ new ∈ newHosts, ∃ host ∈ u.finalHosts, host.address = new.1.address
  kept : ∀ host ∈ currentHosts, ∀ new ∈ firstByAddress newHosts, host.address = new.1.address →
    host ∈ u.finalHosts ∧ u.weight host = new.2
  added : u.hostsAdded = ((firstByAddress newHosts).map Prod.fst).filter
    fun host => host.address ∉ currentHosts.map HostImpl.address
  addedWeight : ∀ new ∈ firstByAddress newHosts, new.1 ∈ u.hostsAdded → u.weight new.1 = new.2
  removed : u.currentHosts = currentHosts.filter fun host =>
    host.address ∉ newHosts.map (fun new => new.1.address) ∧
      (dependOnHc = true → failedActiveHc host = true)
  absentWeight : ∀ host ∈ currentHosts, host.address ∉ newHosts.map (fun new => new.1.address) →
    u.weight host = weight host
  perm : (currentHosts ++ u.hostsAdded).Perm (u.finalHosts ++ u.currentHosts)
  changed : u.changed = false ↔ u.hostsAdded = [] ∧ u.currentHosts = []
  maxHostWeight : u.maxHostWeight = (u.finalHosts.map u.weight).foldl max 1

omit [DecidableEq Address] in
theorem changed_eq_false_iff : u.changed = false ↔ u.hostsAdded = [] ∧ u.currentHosts = [] := by
  simp [changed]

variable {newHosts : List (HostImpl Address Locality × Nat)}

theorem Merged.mem_left (h : Merged current failed weight newHosts u)
    (host : HostImpl Address Locality) : host ∈ u.currentHosts ↔
      host ∈ current ∧ host.address ∉ newHosts.map fun new => new.1.address := by
  rw [h.left, mem_filter, decide_eq_true_iff, h.addresses]

variable {host : HostImpl Address Locality}

section

variable (h : Merged current failed weight newHosts u)
include h

theorem Merged.kept (hhost : host ∈ current) (hnew : new ∈ firstByAddress newHosts)
    (hsame : host.address = new.1.address) : host ∈ u.finalHosts ∧ u.weight host = new.2 := by
  obtain ⟨other, hother, haddress, hweight⟩ := h.merged new hnew
  have hnot : host ∉ u.currentHosts := by
    rw [h.mem_left, hsame]
    intro hleft
    exact hleft.2 (mem_map_of_mem (mem_firstByAddress hnew))
  have hfinal : host ∈ u.finalHosts := by
    have hmem := h.perm.mem_iff.mpr (mem_append_left u.hostsAdded hhost)
    exact (mem_append.mp hmem).resolve_right hnot
  have heq : host = other :=
    inj_on_of_nodup_map h.distinct hfinal hother (hsame.trans haddress.symm)
  exact ⟨hfinal, heq ▸ hweight⟩

theorem Merged.addedWeight (hnew : new ∈ firstByAddress newHosts)
    (hadded : new.1 ∈ u.hostsAdded) : u.weight new.1 = new.2 := by
  obtain ⟨other, hother, haddress, hweight⟩ := h.merged new hnew
  have hnot : new.1 ∉ u.currentHosts := by
    rw [h.mem_left]
    intro hleft
    exact hleft.2 (mem_map_of_mem (mem_firstByAddress hnew))
  have hmem := h.perm.mem_iff.mpr (mem_append_right current hadded)
  have hfinal := (mem_append.mp hmem).resolve_right hnot
  have heq : new.1 = other := inj_on_of_nodup_map h.distinct hfinal hother haddress.symm
  exact heq ▸ hweight

theorem Merged.contains (hnew : new ∈ newHosts) :
    ∃ host ∈ u.finalHosts, host.address = new.1.address := by
  obtain ⟨first, hfirst, hsame⟩ := exists_firstByAddress hnew
  obtain ⟨host, hhost, haddress, -⟩ := h.merged first hfirst
  exact ⟨host, hhost, haddress.trans hsame⟩

theorem Merged.absent (habsent : host.address ∉ newHosts.map fun new => new.1.address) :
    u.weight host = weight host ∧ u.failedActiveHc host = failed host := by
  rw [← h.addresses] at habsent
  exact ⟨h.weight host habsent, h.failed host habsent⟩

theorem Merged.conserves : Conserves newHosts current failed weight false u where
  distinct := h.distinct
  contains := fun _ hnew => h.contains hnew
  kept := fun _ hhost _ hnew hsame => h.kept hhost hnew hsame
  added := h.added
  addedWeight := fun _ hnew hadded => h.addedWeight hnew hadded
  removed := by
    rw [h.left]
    apply filter_congr
    intro host _
    simp [h.addresses]
  absentWeight := fun _ _ habsent => (h.absent habsent).1
  perm := h.perm.symm
  changed := changed_eq_false_iff
  maxHostWeight := h.maxHostWeight

theorem Merged.keepHealthy (hcurrent : (current.map HostImpl.address).Nodup) :
    Conserves newHosts current failed weight true u.keepHealthy where
  distinct := by
    have hkept : ((u.currentHosts.filter fun host => !u.failedActiveHc host).map
        HostImpl.address).Nodup := by
      refine List.Nodup.sublist ?_ hcurrent
      rw [h.left]
      exact (filter_sublist.trans filter_sublist).map _
    rw [HostListUpdate.keepHealthy, map_append, List.nodup_append]
    refine ⟨h.distinct, hkept, ?_⟩
    intro address hfinal other hother heq
    obtain ⟨final, hmem, rfl⟩ := mem_map.mp hfinal
    obtain ⟨left, hleft, rfl⟩ := mem_map.mp hother
    have habsent := ((h.mem_left left).mp (mem_filter.mp hleft).1).2
    rw [← h.addresses, ← heq] at habsent
    exact habsent (h.seen final hmem)
  contains := by
    intro new hnew
    obtain ⟨host, hhost, haddress⟩ := h.contains hnew
    exact ⟨host, mem_append_left _ hhost, haddress⟩
  kept := by
    intro host hhost new hnew hsame
    obtain ⟨hfinal, hweight⟩ := h.kept hhost hnew hsame
    exact ⟨mem_append_left _ hfinal, hweight⟩
  added := h.added
  addedWeight := fun _ hnew hadded => h.addedWeight hnew hadded
  removed := by
    rw [HostListUpdate.keepHealthy]
    rw [h.left, filter_filter]
    apply filter_congr
    intro host _
    by_cases hmem : host.address ∈ u.hostAddresses
    · have hmem' := (h.addresses _).mp hmem
      simp [hmem, hmem']
    · have hmem' := (not_congr (h.addresses _)).mp hmem
      simp [hmem, hmem', (h.absent hmem').2]
  absentWeight := fun _ _ habsent => (h.absent habsent).1
  perm := by
    refine h.perm.symm.trans ?_
    rw [HostListUpdate.keepHealthy]
    rw [append_assoc]
    apply List.Perm.append_left
    exact ((perm_append_comm ..).trans
      (filter_append_perm u.failedActiveHc u.currentHosts)).symm
  changed := changed_eq_false_iff
  maxHostWeight := by
    rw [HostListUpdate.keepHealthy]
    rw [map_append, foldl_append, ← h.maxHostWeight, foldl_map]

end

end HostListUpdate

/-- No host is lost or doubled. -/
theorem updateDynamicHostList_conserves [DecidableEq Locality]
    (newHosts : List (HostImpl Address Locality × Nat))
    (currentHosts : List (HostImpl Address Locality))
    (failedActiveHc : HostImpl Address Locality → Bool)
    (weight : HostImpl Address Locality → Nat) (dependOnHc : Bool)
    (hdistinct : (currentHosts.map HostImpl.address).Nodup) :
    HostListUpdate.Conserves newHosts currentHosts failedActiveHc weight dependOnHc
      (updateDynamicHostList newHosts currentHosts failedActiveHc weight dependOnHc) := by
  have hstart := HostListUpdate.merged_start currentHosts failedActiveHc weight
  rw [updateDynamicHostList]
  cases dependOnHc with
  | false => exact (hstart.foldl hdistinct newHosts).conserves
  | true => exact (hstart.foldl hdistinct newHosts).keepHealthy hdistinct

theorem updateDynamicHostList_conserves_failed :
    (updateDynamicHostList [(⟨2, 7, ()⟩, 3), (⟨3, 7, ()⟩, 9)] [⟨1, 7, ()⟩, ⟨0, 8, ()⟩]
      (fun _ => true) (fun _ => 1) true).hostsAdded = ([] : List (HostImpl Nat Unit)) :=
  (updateDynamicHostList_conserves [(⟨2, 7, ()⟩, 3), (⟨3, 7, ()⟩, 9)] [⟨1, 7, ()⟩, ⟨0, 8, ()⟩]
    (fun _ => true) (fun _ => 1) true (by decide)).added.trans (by decide)

end Meliproxy.Envoy.Upstream
