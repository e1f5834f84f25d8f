import Meliproxy.Lib.Replicas
import Meliproxy.Lib.Runs

/-!
# The original destination cluster

A load balancer on a worker makes a host for a destination it does not know, and posts it to the
primary cluster on the main thread. The primary cluster adds the hosts it is sent, gives up those
that were not used between two rounds of the cleanup timer, and posts both to every worker. A
main thread that runs its own copy of the updates is one more worker.

A host object is its number with its address. An entry of the `HostMap` has its host's address as
the key.
-/

namespace Meliproxy.Envoy.Upstream

open Lib List Function

namespace OriginalDstCluster

variable {Key Worker : Type} [DecidableEq Key] [DecidableEq Worker]

structure Host (Key : Type) where
  id : Nat
  address : Key
  deriving DecidableEq

/-- A membership update on its way to a worker. -/
structure Update (Key : Type) where
  hostsAdded : List (Host Key)
  hostsRemoved : List (Host Key)

abbrev HostMap (Key : Type) := List (Host Key)

namespace HostMap

def insert (map : HostMap Key) (host : Host Key) (check : Bool) : HostMap Key :=
  if check ∧ host ∈ map then map else map ++ [host]

/-- It asserts that the host is there. -/
def remove (map : HostMap Key) (host : Host Key) : Option (HostMap Key) :=
  if host ∈ map then some (map.erase host) else none

end HostMap

def memberUpdate (map : HostMap Key) (update : Update Key) : Option (HostMap Key) :=
  (update.hostsRemoved.foldlM HostMap.remove map).map fun map =>
    update.hostsAdded.foldl (fun map host => HostMap.insert map host true) map

/-- A worker's load balancer, and the updates that have been posted to its thread. -/
structure LoadBalancer (Key : Type) where
  hostMap : HostMap Key
  posted : List (Update Key)

inductive Entry (Key : Type) where
  | chosen (host : Host Key)
  | cleanup (removed : List (Host Key))

/-- The threads: `used` are the flags of the host objects, `posts` the calls of `addHost` on their
way to the main thread with the worker that posted them. The log is newest first. `failed` is
the assertion of `HostMap::remove`. -/
structure Threads (Worker Key : Type) where
  created : Nat
  used : Nat → Bool
  hosts : List (Host Key)
  posts : List (Worker × Host Key)
  workers : Worker → LoadBalancer Key
  log : List (Entry Key)
  failed : Bool

/-- `dst` is the text of the local address, `ip` that of the address a new host would get, if it
is an IP address, and `found` what `HostMap::find` returns, any host of that address. -/
inductive Event (Worker Key : Type) where
  | chooseHost (worker : Worker) (dst : Key) (ip : Option Key) (found : Option (Host Key))
  | addHost (post : Nat)
  | cleanup
  | deliver (worker : Worker)

def start : Threads Worker Key := ⟨0, fun _ => false, [], [], fun _ => ⟨[], []⟩, [], false⟩

namespace Threads

variable (s : Threads Worker Key)

def setUsed (host : Host Key) (used : Bool) : Nat → Bool :=
  Function.update s.used host.id used

def setMap (worker : Worker) (map : HostMap Key) : Worker → LoadBalancer Key :=
  Function.update s.workers worker { s.workers worker with hostMap := map }

/-- `chooseHost` for a connection that uses its original destination. Without a host and without
an IP address it returns no host. -/
def chooseHost (worker : Worker) (dst : Key) (ip : Option Key) :
    Option (Host Key) → Option (Threads Worker Key)
  | some host =>
    if host ∈ (s.workers worker).hostMap ∧ host.address = dst then
      some { s with used := s.setUsed host true, log := .chosen host :: s.log }
    else none
  | none =>
    if ∃ host ∈ (s.workers worker).hostMap, host.address = dst then none
    else
      match ip with
      | none => some s
      | some address =>
        some { s with
          created := s.created + 1
          used := s.setUsed ⟨s.created, address⟩ true
          posts := s.posts ++ [(worker, ⟨s.created, address⟩)]
          workers := s.setMap worker
            (HostMap.insert (s.workers worker).hostMap ⟨s.created, address⟩ false)
          log := .chosen ⟨s.created, address⟩ :: s.log }

def updateHosts (hosts : List (Host Key)) (update : Update Key) : Threads Worker Key :=
  { s with
    hosts := hosts
    workers := fun worker => { s.workers worker with posted := (s.workers worker).posted ++ [update] } }

def addHost (post : Nat) : Option (Threads Worker Key) :=
  s.posts[post]?.map fun (_, host) =>
    { s with posts := s.posts.eraseIdx post }.updateHosts (s.hosts ++ [host]) ⟨[host], []⟩

def kept : List (Host Key) := s.hosts.filter fun host => s.used host.id

def stale : List (Host Key) := s.hosts.filter fun host => !s.used host.id

def cleanup (s : Threads Worker Key) : Threads Worker Key :=
  let cleared := { s with
    used := s.kept.foldl (fun used host => Function.update used host.id false) s.used
    log := .cleanup s.stale :: s.log }
  if 0 < s.stale.length then cleared.updateHosts s.kept ⟨[], s.stale⟩ else cleared

def deliver (worker : Worker) : Option (Threads Worker Key) :=
  match (s.workers worker).posted with
  | [] => none
  | update :: rest =>
    match memberUpdate (s.workers worker).hostMap update with
    | none => some { s with failed := true }
    | some map => some { s with workers := Function.update s.workers worker ⟨map, rest⟩ }

end Threads

def step (s : Threads Worker Key) : Event Worker Key → Option (Threads Worker Key)
  | .chooseHost worker dst ip found => s.chooseHost worker dst ip found
  | .addHost post => s.addHost post
  | .cleanup => some s.cleanup
  | .deliver worker => s.deliver worker

/-! ## What is wanted -/

def chosenSince : List (Entry Key) → List (Host Key)
  | .chosen host :: log => host :: chosenSince log
  | _ => []

/-- A cleanup removes only hosts that were not chosen after the cleanup before it. -/
def RemovalsRight (log : List (Entry Key)) : Prop :=
  ∀ later removed earlier, log = later ++ .cleanup removed :: earlier →
    ∀ host ∈ removed, host ∉ chosenSince earlier

structure Consistent (s : Threads Worker Key) : Prop where
  found : s.failed = false
  maps : ∀ worker, (s.workers worker).hostMap.Nodup
  hosts : s.hosts.Nodup
  removals : RemovalsRight s.log
  quiet : s.posts = [] → (∀ worker, (s.workers worker).posted = []) →
    ∀ worker host, host ∈ (s.workers worker).hostMap ↔ host ∈ s.hosts

/-!
## Runs of an original destination cluster

Every host has a phase, seen from the primary cluster, and the queue of a worker with what the
worker's map has of the host settles that phase. An operation at the head of a queue can be
carried out, and leaves a queue that still settles it.
-/

variable {Key Worker : Type}

theorem RemovalsRight.chosen {log : List (Entry Key)} (h : RemovalsRight log) (host : Host Key) :
    RemovalsRight (.chosen host :: log) := by
  intro later removed earlier heq
  cases later with
  | nil => cases heq
  | cons entry later => exact h later removed earlier (List.cons.inj heq).2

theorem RemovalsRight.cleanup {log : List (Entry Key)} (h : RemovalsRight log)
    {removed : List (Host Key)} (hremoved : ∀ host ∈ removed, host ∉ chosenSince log) :
    RemovalsRight (.cleanup removed :: log) := by
  intro later removed' earlier heq
  cases later with
  | nil =>
    obtain ⟨hentry, rfl⟩ := List.cons.inj heq
    obtain rfl := Entry.cleanup.inj hentry
    exact hremoved
  | cons entry later => exact h later removed' earlier (List.cons.inj heq).2

variable {s : Threads Worker Key}

theorem used_chosen (hused : ∀ host ∈ chosenSince s.log, s.used host.id = true) (new : Host Key) :
    ∀ host ∈ chosenSince (.chosen new :: s.log), s.setUsed new true host.id = true := by
  intro host hhost
  unfold Threads.setUsed
  by_cases hid : host.id = new.id
  · rw [hid, update_self]
  · rw [update_of_ne hid]
    rcases mem_cons.mp hhost with rfl | hhost
    · exact absurd rfl hid
    · exact hused host hhost

theorem mem_stale {host : Host Key} :
    host ∈ s.stale ↔ host ∈ s.hosts ∧ s.used host.id = false := by
  simp [Threads.stale]

theorem mem_kept {host : Host Key} :
    host ∈ s.kept ↔ host ∈ s.hosts ∧ s.used host.id = true := by
  simp [Threads.kept]

def Update.ops (update : Update Key) : List (Op (Host Key)) :=
  update.hostsRemoved.map (Op.mk .remove) ++ update.hostsAdded.map (Op.mk .add)

def LoadBalancer.ops (lb : LoadBalancer Key) : List (Op (Host Key)) := lb.posted.flatMap Update.ops

theorem LoadBalancer.ops_posted (lb : LoadBalancer Key) (update : Update Key) :
    LoadBalancer.ops { lb with posted := lb.posted ++ [update] } = lb.ops ++ update.ops := by
  simp [LoadBalancer.ops]

/-- What a worker's map and the operations on their way to it are, for hosts in these phases. -/
structure WorkerOk [DecidableEq Key] (phase : Host Key → ElementPhase Worker) (worker : Worker)
    (map : HostMap Key) (ops : List (Op (Host Key))) : Prop where
  nodup : map.Nodup
  settles : ∀ host, Settles worker (phase host) (decide (host ∈ map)) (kindsOf host ops)

variable [DecidableEq Key] {phase : Host Key → ElementPhase Worker} {worker : Worker}
  {map : HostMap Key} {ops : List (Op (Host Key))} {host : Host Key}

theorem WorkerOk.remove (h : WorkerOk phase worker map (⟨.remove, host⟩ :: ops)) :
    ∃ map', HostMap.remove map host = some map' ∧ WorkerOk phase worker map' ops := by
  have hhost := h.settles host
  rw [kindsOf_cons_self ⟨.remove, host⟩ ops] at hhost
  obtain ⟨hpresent, hrest⟩ := hhost.deliver_remove
  have hmem : host ∈ map := by simpa using hpresent
  refine ⟨map.erase host, if_pos hmem, h.nodup.erase host, ?_⟩
  intro other
  by_cases hother : host = other
  · subst hother
    have hgone : decide (host ∈ map.erase host) = false := by
      simp [h.nodup.mem_erase_iff]
    rw [hgone]
    exact hrest
  · have hsettles := h.settles other
    rw [kindsOf_cons_ne hother] at hsettles
    have hsame : decide (other ∈ map.erase host) = decide (other ∈ map) := by
      simp [h.nodup.mem_erase_iff, Ne.symm hother]
    rw [hsame]
    exact hsettles

theorem WorkerOk.add (h : WorkerOk phase worker map (⟨.add, host⟩ :: ops)) :
    WorkerOk phase worker (HostMap.insert map host true) ops := by
  have hhost := h.settles host
  rw [kindsOf_cons_self ⟨.add, host⟩ ops] at hhost
  have hrest := hhost.deliver_add
  have hmem : ∀ other, other ∈ HostMap.insert map host true ↔ other ∈ map ∨ other = host := by
    intro other
    unfold HostMap.insert
    split
    · rename_i hin
      constructor
      · exact .inl
      · rintro (h | rfl)
        · exact h
        · exact hin.2
    · simp
  refine ⟨?_, ?_⟩
  · unfold HostMap.insert
    split
    · exact h.nodup
    · rename_i hout
      have hnot : host ∉ map := fun hin => hout ⟨rfl, hin⟩
      rw [← concat_eq_append]
      exact h.nodup.concat hnot
  · intro other
    by_cases hother : host = other
    · subst hother
      have hpresent : decide (host ∈ HostMap.insert map host true) = true := by
        simp [hmem host]
      rw [hpresent]
      exact hrest
    · have hsettles := h.settles other
      rw [kindsOf_cons_ne hother] at hsettles
      have hsame : decide (other ∈ HostMap.insert map host true) = decide (other ∈ map) := by
        simp [hmem other, Ne.symm hother]
      rw [hsame]
      exact hsettles

theorem WorkerOk.memberUpdate {update : Update Key}
    (h : WorkerOk phase worker map (update.ops ++ ops)) :
    ∃ map', OriginalDstCluster.memberUpdate map update = some map' ∧
      WorkerOk phase worker map' ops := by
  obtain ⟨added, removed⟩ := update
  have hadd : ∀ (added : List (Host Key)) (map : HostMap Key),
      WorkerOk phase worker map (added.map (Op.mk .add) ++ ops) →
        WorkerOk phase worker
          (added.foldl (fun map host => HostMap.insert map host true) map) ops := by
    intro added
    induction added with
    | nil => exact fun _ h => h
    | cons host added ih => exact fun map h => ih _ h.add
  have hremove : ∀ (removed : List (Host Key)) (map : HostMap Key) (rest : List (Op (Host Key))),
      WorkerOk phase worker map (removed.map (Op.mk .remove) ++ rest) →
        ∃ map', removed.foldlM HostMap.remove map = some map' ∧ WorkerOk phase worker map' rest := by
    intro removed
    induction removed with
    | nil => exact fun map rest h => ⟨map, rfl, h⟩
    | cons host removed ih =>
      intro map rest h
      obtain ⟨map₁, h₁, hok⟩ := h.remove
      obtain ⟨map₂, h₂, hok'⟩ := ih map₁ rest hok
      refine ⟨map₂, ?_, hok'⟩
      rw [foldlM_cons, h₁]
      exact h₂
  have hsplit : (Update.mk added removed).ops ++ ops =
      removed.map (Op.mk .remove) ++ (added.map (Op.mk .add) ++ ops) := append_assoc _ _ _
  rw [hsplit] at h
  obtain ⟨map', hmap', hok⟩ := hremove removed map _ h
  refine ⟨_, ?_, hadd added map' hok⟩
  unfold OriginalDstCluster.memberUpdate
  rw [hmap']
  rfl

theorem WorkerOk.posted (phase' : Host Key → ElementPhase Worker) (update : Update Key)
    (h : WorkerOk phase worker map ops)
    (hsettles : ∀ host present kinds, Settles worker (phase host) present kinds →
      Settles worker (phase' host) present (kinds ++ kindsOf host update.ops)) :
    WorkerOk phase' worker map (ops ++ update.ops) := by
  refine ⟨h.nodup, ?_⟩
  intro host
  rw [kindsOf_append]
  exact hsettles host _ _ (h.settles host)

structure Inv (phase : Host Key → ElementPhase Worker) (s : Threads Worker Key) : Prop where
  fresh : ∀ host, s.created ≤ host.id → phase host = .unborn
  hosts : ∀ host, host ∈ s.hosts ↔ phase host = .live
  hostsNodup : s.hosts.Nodup
  posts : ∀ worker host, (worker, host) ∈ s.posts ↔ phase host = .posted worker
  postsNodup : s.posts.Nodup
  workers : ∀ worker, WorkerOk phase worker (s.workers worker).hostMap (s.workers worker).ops
  sound : s.failed = false
  used : ∀ host ∈ chosenSince s.log, s.used host.id = true
  removals : RemovalsRight s.log

theorem inv_start : Inv (fun _ => .unborn) (start : Threads Worker Key) := by
  refine ⟨fun _ _ => rfl, ?_, nodup_nil, ?_, nodup_nil, ?_, rfl, ?_, ?_⟩
  · intro host
    simp [start]
  · intro worker host
    simp [start]
  · intro worker
    exact ⟨nodup_nil, fun host => Settles.unborn⟩
  · intro host hhost
    cases hhost
  · intro later removed earlier h
    simp [start] at h

variable [DecidableEq Worker] {s s' : Threads Worker Key}

theorem WorkerOk.create (h : WorkerOk phase worker map ops) (hunborn : phase host = .unborn)
    (creator : Worker) : WorkerOk (Function.update phase host (.posted creator)) worker
      (if worker = creator then HostMap.insert map host false else map) ops := by
  have hhost := h.settles host
  rw [hunborn] at hhost
  obtain ⟨hnot, hkinds⟩ := hhost.unborn_iff
  have hout : host ∉ map := by simpa using hnot
  have hinsert : HostMap.insert map host false = map ++ [host] := by simp [HostMap.insert]
  by_cases hcreator : worker = creator
  · subst hcreator
    rw [if_pos rfl, hinsert]
    refine ⟨?_, ?_⟩
    · rw [← concat_eq_append]
      exact h.nodup.concat hout
    · intro other
      by_cases hother : other = host
      · subst hother
        rw [update_self, hkinds]
        have hpresent : decide (other ∈ map ++ [other]) = true := by simp
        rw [hpresent]
        exact .mine
      · rw [update_of_ne hother]
        have hsame : decide (other ∈ map ++ [host]) = decide (other ∈ map) := by simp [hother]
        rw [hsame]
        exact h.settles other
  · rw [if_neg hcreator]
    refine ⟨h.nodup, ?_⟩
    intro other
    by_cases hother : other = host
    · subst hother
      rw [update_self, hkinds, hnot]
      exact .other (Ne.symm hcreator)
    · rw [update_of_ne hother]
      exact h.settles other

theorem Inv.chooseHost (hi : Inv phase s) {dst : Key} {ip : Option Key} {found : Option (Host Key)}
    (h : s.chooseHost worker dst ip found = some s') : ∃ phase', Inv phase' s' := by
  cases found with
  | some host =>
    simp only [Threads.chooseHost] at h
    split at h
    · cases h
      exact ⟨phase, hi.fresh, hi.hosts, hi.hostsNodup, hi.posts, hi.postsNodup, hi.workers, hi.sound,
        used_chosen hi.used host, hi.removals.chosen host⟩
    · cases h
  | none =>
    simp only [Threads.chooseHost] at h
    split at h
    · cases h
    split at h
    · cases h
      exact ⟨phase, hi⟩
    · rename_i address
      cases h
      have hunborn : phase ⟨s.created, address⟩ = .unborn := hi.fresh _ (Nat.le_refl _)
      refine ⟨Function.update phase ⟨s.created, address⟩ (.posted worker), ?_, ?_,
        hi.hostsNodup, ?_, ?_, ?_, hi.sound, used_chosen hi.used _, hi.removals.chosen _⟩
      · intro host hhost
        change s.created + 1 ≤ host.id at hhost
        rw [update_of_ne]
        · exact hi.fresh host (by omega)
        · rintro rfl
          exact absurd hhost (by simp)
      · intro host
        by_cases hhost : host = ⟨s.created, address⟩
        · rw [hhost, update_self, hi.hosts, hunborn]
          simp
        · rw [update_of_ne hhost]
          exact hi.hosts host
      · intro other host
        change (other, host) ∈ s.posts ++ [(worker, ⟨s.created, address⟩)] ↔ _
        rw [mem_append, hi.posts, mem_singleton]
        by_cases hhost : host = ⟨s.created, address⟩
        · rw [hhost, update_self, hunborn]
          simp [eq_comm]
        · rw [update_of_ne hhost]
          simp [hhost]
      · have hnot : (worker, Host.mk s.created address) ∉ s.posts := by
          rw [hi.posts, hunborn]
          simp
        have hnodup := hi.postsNodup.concat hnot
        rw [concat_eq_append] at hnodup
        exact hnodup
      · intro other
        have hcreate := (hi.workers other).create hunborn worker
        by_cases hother : other = worker
        · subst hother
          rw [if_pos rfl] at hcreate
          simpa [Threads.setMap, update_self, LoadBalancer.ops] using hcreate
        · rw [if_neg hother] at hcreate
          simpa [Threads.setMap, update_of_ne hother] using hcreate

theorem Inv.addHost (hi : Inv phase s) {post : Nat} (h : s.addHost post = some s') :
    ∃ phase', Inv phase' s' := by
  obtain ⟨⟨creator, host⟩, hpost, rfl⟩ := Option.map_eq_some_iff.mp h
  have hphase : phase host = .posted creator := (hi.posts creator host).mp (mem_of_getElem? hpost)
  have hnotLive : host ∉ s.hosts := by
    rw [hi.hosts, hphase]
    simp
  refine ⟨Function.update phase host .live, ?_, ?_, ?_, ?_, ?_, ?_, hi.sound, hi.used, hi.removals⟩
  · intro other hother
    have hunborn := hi.fresh other hother
    rw [update_of_ne]
    · exact hunborn
    · rintro rfl
      rw [hphase] at hunborn
      cases hunborn
  · intro other
    change other ∈ s.hosts ++ [host] ↔ _
    by_cases hother : other = host
    · rw [hother, update_self]
      simp
    · rw [update_of_ne hother, mem_append, hi.hosts]
      simp [hother]
  · change (s.hosts ++ [host]).Nodup
    rw [← concat_eq_append]
    exact hi.hostsNodup.concat hnotLive
  · intro worker other
    change (worker, other) ∈ s.posts.eraseIdx post ↔ _
    obtain ⟨hlt, hget⟩ := List.getElem?_eq_some_iff.mp hpost
    rw [← hi.postsNodup.erase_getElem post hlt, hi.postsNodup.mem_erase_iff, hget, hi.posts]
    by_cases hother : other = host
    · rw [hother, update_self, hphase]
      simp [eq_comm]
    · rw [update_of_ne hother]
      simp [hother]
  · exact hi.postsNodup.eraseIdx post
  · intro worker
    have hposted := (hi.workers worker).posted (Function.update phase host .live) ⟨[host], []⟩ (by
        intro other present kinds hsettles
        by_cases hother : host = other
        · subst hother
          rw [hphase] at hsettles
          rw [update_self]
          simpa [Update.ops, kindsOf] using hsettles.confirm
        · rw [update_of_ne (Ne.symm hother)]
          simpa [Update.ops, kindsOf, hother] using hsettles)
    rw [← LoadBalancer.ops_posted] at hposted
    exact hposted

def retire (phase : Host Key → ElementPhase Worker) (stale : List (Host Key)) :
    Host Key → ElementPhase Worker :=
  fun host => if host ∈ stale then .gone else phase host

omit [DecidableEq Worker] in
theorem Inv.cleanup (hi : Inv phase s) : ∃ phase', Inv phase' s.cleanup := by
  have hlive : ∀ host ∈ s.stale, phase host = .live := by
    intro host hhost
    exact (hi.hosts host).mp (mem_stale.mp hhost).1
  have hnot : ∀ host, phase host ≠ .live → host ∉ s.stale := fun host h hin => h (hlive host hin)
  have hremovals : RemovalsRight (.cleanup s.stale :: s.log) := by
    apply hi.removals.cleanup
    intro host hhost hchosen
    have hused := hi.used host hchosen
    rw [(mem_stale.mp hhost).2] at hused
    cases hused
  unfold Threads.cleanup
  split
  · refine ⟨retire phase s.stale, ?_, ?_, hi.hostsNodup.filter _, ?_, hi.postsNodup, ?_, hi.sound,
      ?_, hremovals⟩
    · intro host hhost
      have hunborn := hi.fresh host hhost
      rw [retire, if_neg (hnot host (by rw [hunborn]; simp))]
      exact hunborn
    · intro host
      change host ∈ s.kept ↔ _
      unfold retire
      by_cases hstale : host ∈ s.stale
      · have hunused := (mem_stale.mp hstale).2
        rw [if_pos hstale, mem_kept, hunused]
        simp
      · rw [if_neg hstale, ← hi.hosts, mem_kept]
        rw [mem_stale] at hstale
        constructor
        · exact fun h => h.1
        · intro h
          refine ⟨h, ?_⟩
          by_contra hunused
          exact hstale ⟨h, by simpa using hunused⟩
    · intro worker host
      change (worker, host) ∈ s.posts ↔ _
      rw [hi.posts, retire]
      split
      · rename_i hstale
        rw [hlive host hstale]
        simp
      · rfl
    · intro worker
      have hposted := (hi.workers worker).posted (retire phase s.stale) ⟨[], s.stale⟩ (by
          intro host present kinds hsettles
          have hkinds : kindsOf host (s.stale.map (Op.mk .remove)) =
              if host ∈ s.stale then [.remove] else [] := kindsOf_map (hi.hostsNodup.filter _) host
          have hops : (Update.mk [] s.stale).ops = s.stale.map (Op.mk .remove) := by
            simp [Update.ops]
          rw [hops, hkinds, retire]
          split
          · rename_i hstale
            rw [hlive host hstale] at hsettles
            exact hsettles.retire
          · rw [append_nil]
            exact hsettles)
      rw [← LoadBalancer.ops_posted] at hposted
      exact hposted
    · intro host hhost
      cases hhost
  · refine ⟨phase, hi.fresh, hi.hosts, hi.hostsNodup, hi.posts, hi.postsNodup, hi.workers, hi.sound, ?_,
      hremovals⟩
    intro host hhost
    cases hhost

theorem Inv.deliver (hi : Inv phase s) (h : s.deliver worker = some s') : Inv phase s' := by
  unfold Threads.deliver at h
  split at h
  · cases h
  · rename_i update rest hposted
    have hworker := hi.workers worker
    have hops : (s.workers worker).ops = update.ops ++ rest.flatMap Update.ops := by
      rw [LoadBalancer.ops, hposted, flatMap_cons]
    rw [hops] at hworker
    obtain ⟨map, hmap, hok⟩ := hworker.memberUpdate
    rw [hmap] at h
    cases h
    refine { hi with workers := ?_ }
    intro other
    by_cases hother : other = worker
    · subst hother
      simp only [update_self]
      exact hok
    · simp only [update_of_ne hother]
      exact hi.workers other

theorem step_inv {e : Event Worker Key} (hi : ∃ phase, Inv phase s) (h : step s e = some s') :
    ∃ phase, Inv phase s' := by
  obtain ⟨phase, hi⟩ := hi
  cases e with
  | chooseHost worker dst ip found => exact hi.chooseHost h
  | addHost post => exact hi.addHost h
  | cleanup =>
    cases h
    exact hi.cleanup
  | deliver worker => exact ⟨phase, hi.deliver h⟩

/-- In every run, with any number of workers, the maps of the workers and the hosts of the primary
cluster are consistent. -/
theorem run_consistent (events : List (Event Worker Key)) (s : Threads Worker Key)
    (h : run step start events = some s) : Consistent s := by
  obtain ⟨phase, hi⟩ : ∃ phase, Inv phase s :=
    run_keeps (fun _ _ _ hi hstep => step_inv hi hstep) ⟨_, inv_start⟩ h
  refine ⟨hi.sound, fun worker => (hi.workers worker).nodup, hi.hostsNodup, hi.removals, ?_⟩
  intro hposts hqueues worker host
  have hsettles := (hi.workers worker).settles host
  have hops : (s.workers worker).ops = [] := by
    rw [LoadBalancer.ops, hqueues worker]
    rfl
  rw [hops] at hsettles
  have hnotPosted : phase host ≠ .posted worker := by
    rw [ne_eq, ← hi.posts, hposts]
    exact not_mem_nil
  have hquiet := hsettles.quiet
  rw [decide_eq_true_iff] at hquiet
  rw [hquiet, hi.hosts]
  exact or_iff_left hnotPosted

def twoHosts : List (Event Bool Nat) :=
  [.chooseHost false 7 (some 7) none, .chooseHost true 7 (some 7) none, .addHost 1, .addHost 0,
    .cleanup, .chooseHost false 7 none (some ⟨0, 7⟩), .cleanup, .deliver false, .deliver true,
    .deliver false, .deliver false, .deliver true, .deliver true]

theorem run_consistent_twoHosts : ∃ s : Threads Bool Nat,
    run step start twoHosts = some s ∧ Consistent s ∧ s.hosts = [⟨0, 7⟩] := by
  obtain ⟨s, hs, hhosts⟩ : ∃ s : Threads Bool Nat,
      run step start twoHosts = some s ∧ s.hosts = [⟨0, 7⟩] := ⟨_, rfl, rfl⟩
  exact ⟨s, hs, run_consistent twoHosts s hs, hhosts⟩

end OriginalDstCluster

end Meliproxy.Envoy.Upstream
