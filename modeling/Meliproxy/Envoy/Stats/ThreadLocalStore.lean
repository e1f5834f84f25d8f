import Meliproxy.Lib.Runs
import Meliproxy.Lib.Text

/-!
# The thread local store of stats

A scope keeps its stats in a central cache; each thread caches them under the address of the
scope. When a scope goes, the main thread is asked to have that address erased from the caches
of all threads. A lookup that misses the cache waits for the lock, and may be overtaken by what
other threads do. Stats and scopes carry an identity that the code does not have.
-/

namespace Meliproxy.Envoy.Stats

open Lib List Option

inductive Kind where
  | counter
  | gauge
  | histogram
  deriving DecidableEq

/-- A counter, gauge or histogram, and the scope that made it. -/
structure Object where
  id : Nat
  scope : Nat
  deriving DecidableEq

structure Stat where
  kind : Kind
  name : Bytes
  object : Object

/-- The three maps, of which an object is in one. Empty pointers are left out. -/
abbrev TlsCacheEntry := List Stat

def TlsCacheEntry.find (entry : TlsCacheEntry) (kind : Kind) (name : Bytes) : Option Object :=
  (List.find? (fun stat => stat.kind = kind ∧ stat.name = name) entry).map (·.object)

structure ScopeImpl where
  id : Nat
  address : Nat
  namePrefix : Bytes
  centralCache : TlsCacheEntry

/-- An entry of `scope_cache_` of a thread. -/
structure Cached where
  thread : Nat
  address : Nat
  stat : Stat

/-- A lookup that waits for the lock, with the place in the cache of its thread if it has one. -/
structure Lookup where
  thread : Nat
  address : Nat
  kind : Kind
  name : Bytes
  tlsRef : Bool
  deriving DecidableEq

structure Returned where
  scope : Nat
  kind : Kind
  name : Bytes
  object : Object

/-- The main thread is thread 0. `scopes` are the live ones. -/
structure Store where
  workers : List Nat
  scopes : List ScopeImpl
  nextScope : Nat
  nextObject : Nat
  threading : Bool
  shuttingDown : Bool
  caches : List Cached
  lookups : List Lookup
  mainPosts : List Nat
  threadPosts : List (Nat × Nat)
  returned : List Returned

inductive Event where
  | initializeThreading
  | shutdownThreading
  | createScope (address : Nat) (name : Bytes)
  | destroyScope (address : Nat)
  /-- `counter`, `gauge` or `histogram`, up to the lock. -/
  | lookup (thread address : Nat) (kind : Kind) (name : Bytes)
  | lock (thread : Nat)
  | runMain
  | runThread (thread : Nat)

def sanitizeStatsName (name : Bytes) : Bytes := name.map fun c => if c = 58 then 95 else c

namespace Store

def create (workers : List Nat) : Store where
  workers := workers
  scopes := [⟨0, 0, [], []⟩]
  nextScope := 1
  nextObject := 0
  threading := false
  shuttingDown := false
  caches := []
  lookups := []
  mainPosts := []
  threadPosts := []
  returned := []

variable (s : Store)

def scopeAt (address : Nat) : Option ScopeImpl :=
  s.scopes.find? fun scope => scope.address = address

def busy (thread : Nat) : Bool := s.lookups.any fun lookup => lookup.thread = thread

def tlsFind (thread address : Nat) (kind : Kind) (name : Bytes) : Option Object :=
  (s.caches.find? fun cached => cached.thread = thread ∧ cached.address = address ∧
    cached.stat.kind = kind ∧ cached.stat.name = name).map (·.stat.object)

def erase (thread address : Nat) : List Cached :=
  s.caches.filter fun cached => ¬ (cached.thread = thread ∧ cached.address = address)

variable (address : Nat)

def createScope (name : Bytes) : Store :=
  { s with
    scopes := ⟨s.nextScope, address, sanitizeStatsName name, []⟩ :: s.scopes
    nextScope := s.nextScope + 1 }

/-- `~ScopeImpl`: `releaseScopeCrossThread`, and the central cache goes. -/
def destroyScope : Store :=
  { s with
    scopes := s.scopes.filter fun scope => scope.address ≠ address
    mainPosts := if s.threading && !s.shuttingDown then s.mainPosts ++ [address] else s.mainPosts }

def clearScopeFromCaches : Store :=
  if s.shuttingDown then s
  else
    { s with
      threadPosts := s.threadPosts ++ s.workers.map fun thread => (thread, address)
      caches := s.erase 0 address }

/-- What a lookup does before it takes the lock: it ends where the cache has the stat. -/
def startLookup (thread : Nat) (scope : ScopeImpl) (kind : Kind) (name : Bytes) : Store :=
  let finalName := scope.namePrefix ++ name
  let tlsRef := s.threading && !s.shuttingDown
  match if tlsRef then s.tlsFind thread scope.address kind finalName else none with
  | some object => { s with returned := ⟨scope.id, kind, finalName, object⟩ :: s.returned }
  | none => { s with lookups := ⟨thread, scope.address, kind, finalName, tlsRef⟩ :: s.lookups }

/-- `central_ref`, made where it was empty. -/
def centralRef (scope : ScopeImpl) (kind : Kind) (name : Bytes) : Object × Store :=
  match scope.centralCache.find kind name with
  | some object => (object, s)
  | none =>
    let object := ⟨s.nextObject, scope.id⟩
    (object, { s with
      scopes := s.scopes.map fun other =>
        if other.address = scope.address then
          { other with centralCache := ⟨kind, name, object⟩ :: other.centralCache }
        else other
      nextObject := s.nextObject + 1 })

def finishLookup (scope : ScopeImpl) (lookup : Lookup) : Store :=
  let (object, s) := s.centralRef scope lookup.kind lookup.name
  { s with
    caches := if lookup.tlsRef then
        ⟨lookup.thread, lookup.address, lookup.kind, lookup.name, object⟩ :: s.caches
      else s.caches
    lookups := s.lookups.erase lookup
    returned := ⟨scope.id, lookup.kind, lookup.name, object⟩ :: s.returned }

def step : Event → Option Store
  | .initializeThreading => if s.threading then none else some { s with threading := true }
  | .shutdownThreading => some { s with shuttingDown := true }
  | .createScope address name =>
    if (s.scopeAt address).isSome then none else some (s.createScope address name)
  | .destroyScope address =>
    if (s.scopeAt address).isNone ∨ s.lookups.any (fun lookup => lookup.address = address) then none
    else some (s.destroyScope address)
  | .lookup thread address kind name =>
    if s.busy thread ∨ thread ∉ 0 :: s.workers then none
    else (s.scopeAt address).map fun scope => s.startLookup thread scope kind name
  | .lock thread =>
    (s.lookups.find? fun lookup => lookup.thread = thread).bind fun lookup =>
      (s.scopeAt lookup.address).map fun scope => s.finishLookup scope lookup
  | .runMain =>
    if s.busy 0 then none
    else match s.mainPosts with
      | [] => none
      | address :: mainPosts => some { s.clearScopeFromCaches address with mainPosts := mainPosts }
  | .runThread thread =>
    if s.busy thread then none
    else (s.threadPosts.find? fun post => post.1 = thread).map fun post =>
      { s with threadPosts := s.threadPosts.erase post, caches := s.erase thread post.2 }

def Exists (object : Object) : Prop :=
  (∃ scope ∈ s.scopes, ∃ stat ∈ scope.centralCache, stat.object = object) ∨
    ∃ cached ∈ s.caches, cached.stat.object = object

instance (s : Store) (object : Object) : Decidable (s.Exists object) :=
  inferInstanceAs (Decidable (_ ∨ _))

/-- What a lookup on a live scope has returned is in the central cache of that scope, under the
full name, and has not been destroyed. -/
def Stable : Prop :=
  ∀ r ∈ s.returned, ∀ scope ∈ s.scopes, scope.id = r.scope →
    scope.centralCache.find r.kind r.name = some r.object ∧ s.Exists r.object

instance : DecidablePred Stable := fun s => inferInstanceAs (Decidable
  (∀ r ∈ s.returned, ∀ scope ∈ s.scopes, scope.id = r.scope →
    scope.centralCache.find r.kind r.name = some r.object ∧ s.Exists r.object))

/-!
## What the lookups of a live scope return

An entry of a cache is right for the scope that put it there, however the flushes are ordered.
It is wrong for a later scope at the same address, so a lookup must not meet one.
-/

/-- Every object that is cached or was returned is the one in the central cache of the scope
that made it, as long as that is alive. -/
structure Inv (s : Store) : Prop where
  scopeIds : ∀ scope ∈ s.scopes, scope.id < s.nextScope
  returnedIds : ∀ r ∈ s.returned, r.scope < s.nextScope
  cachedIds : ∀ cached ∈ s.caches, cached.stat.object.scope < s.nextScope
  addresses : ∀ scope ∈ s.scopes, ∀ other ∈ s.scopes, scope.address = other.address → scope = other
  ids : ∀ scope ∈ s.scopes, ∀ other ∈ s.scopes, scope.id = other.id → scope = other
  owned : ∀ scope ∈ s.scopes, ∀ stat ∈ scope.centralCache, stat.object.scope = scope.id
  cached : ∀ cached ∈ s.caches, ∀ scope ∈ s.scopes, cached.stat.object.scope = scope.id →
    scope.centralCache.find cached.stat.kind cached.stat.name = some cached.stat.object
  returned : ∀ r ∈ s.returned, ∀ scope ∈ s.scopes, scope.id = r.scope →
    scope.centralCache.find r.kind r.name = some r.object

/-- A lookup does not meet an entry that a destroyed scope left at the address of its scope. -/
def Regular : Event → Prop
  | .lookup thread address kind name =>
    ∀ scope ∈ s.scopeAt address, s.threading = true → s.shuttingDown = false →
      ∀ object ∈ s.tlsFind thread address kind (scope.namePrefix ++ name), object.scope = scope.id
  | _ => True

instance (s : Store) : DecidablePred s.Regular := by
  intro e
  cases e <;> dsimp only [Regular] <;> infer_instance

variable {s s' : Store}
variable {entry : TlsCacheEntry} {kind : Kind} {name : Bytes} {object : Object}

theorem mem_of_find (h : entry.find kind name = some object) : ⟨kind, name, object⟩ ∈ entry := by
  obtain ⟨stat, hstat, rfl⟩ := map_eq_some_iff.mp h
  have hmatch := find?_some hstat
  obtain ⟨rfl, rfl⟩ : stat.kind = kind ∧ stat.name = name := of_decide_eq_true hmatch
  exact mem_of_find?_eq_some hstat

theorem Inv.stable (h : s.Inv) : s.Stable := by
  intro r hr scope hscope hid
  have hfind := h.returned r hr scope hscope hid
  exact ⟨hfind, Or.inl ⟨scope, hscope, _, mem_of_find hfind, rfl⟩⟩

theorem create_inv (workers : List Nat) : (create workers).Inv := by
  have hone : ∀ scope ∈ (create workers).scopes, scope = ⟨0, 0, [], []⟩ := fun scope hscope =>
    mem_singleton.mp hscope
  refine ⟨?_, nofun, nofun, ?_, ?_, ?_, nofun, nofun⟩
  · intro scope hscope
    rw [hone scope hscope]
    exact Nat.one_pos
  · intro scope hscope other hother _
    rw [hone scope hscope, hone other hother]
  · intro scope hscope other hother _
    rw [hone scope hscope, hone other hother]
  · intro scope hscope stat hstat
    rw [hone scope hscope] at hstat
    cases hstat

variable {address : Nat} {scope : ScopeImpl}

theorem scopeAt_spec (h : s.scopeAt address = some scope) :
    scope ∈ s.scopes ∧ scope.address = address := by
  have hmatch := find?_some h
  exact ⟨mem_of_find?_eq_some h, of_decide_eq_true hmatch⟩

theorem Inv.shrink (h : s.Inv) (hscopes : s'.scopes ⊆ s.scopes) (hcaches : s'.caches ⊆ s.caches)
    (hnext : s'.nextScope = s.nextScope) (hreturned : s'.returned = s.returned) : s'.Inv where
  scopeIds scope hscope := hnext ▸ h.scopeIds scope (hscopes hscope)
  returnedIds r hr := hnext ▸ h.returnedIds r (hreturned ▸ hr)
  cachedIds cached hcached := hnext ▸ h.cachedIds cached (hcaches hcached)
  addresses scope hscope other hother := h.addresses scope (hscopes hscope) other (hscopes hother)
  ids scope hscope other hother := h.ids scope (hscopes hscope) other (hscopes hother)
  owned scope hscope := h.owned scope (hscopes hscope)
  cached cached hcached scope hscope := h.cached cached (hcaches hcached) scope (hscopes hscope)
  returned r hr scope hscope := h.returned r (hreturned ▸ hr) scope (hscopes hscope)

theorem Inv.createScope (h : s.Inv) (hnone : s.scopeAt address = none) (name : Bytes) :
    (s.createScope address name).Inv := by
  have hother : ∀ scope ∈ s.scopes, scope.address ≠ address := fun scope hscope hsame =>
    absurd (decide_eq_true hsame) (find?_eq_none.mp hnone scope hscope)
  refine ⟨?_, ?_, ?_, ?_, ?_, ?_, ?_, ?_⟩
  · refine forall_mem_cons.mpr ⟨Nat.lt_succ_self _, fun scope hscope => ?_⟩
    exact Nat.lt_succ_of_lt (h.scopeIds scope hscope)
  · exact fun r hr => Nat.lt_succ_of_lt (h.returnedIds r hr)
  · exact fun cached hcached => Nat.lt_succ_of_lt (h.cachedIds cached hcached)
  · intro scope hscope other hother' hsame
    rcases mem_cons.mp hscope with rfl | hscope <;> rcases mem_cons.mp hother' with rfl | hother'
    · rfl
    · exact absurd hsame.symm (hother other hother')
    · exact absurd hsame (hother scope hscope)
    · exact h.addresses scope hscope other hother' hsame
  · intro scope hscope other hother' hsame
    rcases mem_cons.mp hscope with rfl | hscope <;> rcases mem_cons.mp hother' with rfl | hother'
    · rfl
    · exact absurd hsame.symm (Nat.ne_of_lt (h.scopeIds other hother'))
    · exact absurd hsame (Nat.ne_of_lt (h.scopeIds scope hscope))
    · exact h.ids scope hscope other hother' hsame
  · refine forall_mem_cons.mpr ⟨fun stat hstat => ?_, h.owned⟩
    cases hstat
  · intro cached hcached
    refine forall_mem_cons.mpr ⟨fun hsame => ?_, h.cached cached hcached⟩
    exact absurd hsame (Nat.ne_of_lt (h.cachedIds cached hcached))
  · intro r hr
    refine forall_mem_cons.mpr ⟨fun hsame => ?_, h.returned r hr⟩
    exact absurd hsame.symm (Nat.ne_of_lt (h.returnedIds r hr))

variable {thread : Nat}

theorem Inv.tlsFind (h : s.Inv) (hscope : scope ∈ s.scopes)
    (hfind : s.tlsFind thread address kind name = some object) (howner : object.scope = scope.id) :
    scope.centralCache.find kind name = some object := by
  obtain ⟨cached, hcached, rfl⟩ := map_eq_some_iff.mp hfind
  have hmatch := find?_some hcached
  obtain ⟨-, -, rfl, rfl⟩ : cached.thread = thread ∧ cached.address = address ∧
      cached.stat.kind = kind ∧ cached.stat.name = name := of_decide_eq_true hmatch
  exact h.cached cached (mem_of_find?_eq_some hcached) scope hscope howner

theorem Inv.push (h : s.Inv) (hscope : scope ∈ s.scopes)
    (hfind : scope.centralCache.find kind name = some object) :
    ({ s with returned := ⟨scope.id, kind, name, object⟩ :: s.returned } : Store).Inv := by
  refine { h with returnedIds := ?_, returned := ?_ }
  · exact forall_mem_cons.mpr ⟨h.scopeIds scope hscope, h.returnedIds⟩
  · refine forall_mem_cons.mpr ⟨fun other hother hid => ?_, h.returned⟩
    obtain rfl := h.ids other hother scope hscope hid
    exact hfind

theorem Inv.startLookup (h : s.Inv) (hscope : scope ∈ s.scopes) (kind : Kind) (name : Bytes)
    (hregular : s.threading = true → s.shuttingDown = false →
      ∀ object ∈ s.tlsFind thread scope.address kind (scope.namePrefix ++ name),
        object.scope = scope.id) : (s.startLookup thread scope kind name).Inv := by
  unfold Store.startLookup
  dsimp only
  split
  · rename_i object hhit
    split at hhit
    · rename_i hthreading
      obtain ⟨hthreading, hrunning⟩ : s.threading = true ∧ s.shuttingDown = false := by
        simpa using hthreading
      exact h.push hscope (h.tlsFind hscope hhit (hregular hthreading hrunning object hhit))
    · cases hhit
  · exact h.shrink (List.Subset.refl _) (List.Subset.refl _) rfl rfl

theorem find_cons_of_none (hnone : entry.find kind name = none) (object : Object) {kind' : Kind}
    {name' : Bytes} {object' : Object} (h : entry.find kind' name' = some object') :
    TlsCacheEntry.find (⟨kind, name, object⟩ :: entry) kind' name' = some object' := by
  have hne : ¬ (kind = kind' ∧ name = name') := by
    rintro ⟨rfl, rfl⟩
    rw [hnone] at h
    cases h
  rw [TlsCacheEntry.find, find?_cons_of_neg (by simpa using hne)]
  exact h

theorem Inv.centralRef (h : s.Inv) (hscope : scope ∈ s.scopes) (kind : Kind) (name : Bytes) :
    (s.centralRef scope kind name).2.Inv ∧ (s.centralRef scope kind name).1.scope = scope.id ∧
      ∃ scope' ∈ (s.centralRef scope kind name).2.scopes, scope'.id = scope.id ∧
        scope'.centralCache.find kind name = some (s.centralRef scope kind name).1 := by
  unfold Store.centralRef
  cases hfind : scope.centralCache.find kind name with
  | some object =>
    have howned := h.owned scope hscope _ (mem_of_find hfind)
    exact ⟨h, howned, scope, hscope, rfl, hfind⟩
  | none =>
    let object : Object := ⟨s.nextObject, scope.id⟩
    let add : ScopeImpl → ScopeImpl := fun other =>
      if other.address = scope.address then
        { other with centralCache := ⟨kind, name, object⟩ :: other.centralCache }
      else other
    have haddress : ∀ other, (add other).address = other.address := fun other => by
      unfold add
      split <;> rfl
    have hid : ∀ other, (add other).id = other.id := fun other => by
      unfold add
      split <;> rfl
    have hkeep : ∀ other ∈ s.scopes, ∀ {kind' : Kind} {name' : Bytes} {object' : Object},
        other.centralCache.find kind' name' = some object' →
        (add other).centralCache.find kind' name' = some object' := by
      intro other hother kind' name' object' hfind'
      unfold add
      split
      · rename_i hsame
        obtain rfl := h.addresses other hother scope hscope hsame
        exact find_cons_of_none hfind object hfind'
      · exact hfind'
    refine ⟨⟨?_, h.returnedIds, h.cachedIds, ?_, ?_, ?_, ?_, ?_⟩, rfl, add scope,
      List.mem_map_of_mem hscope, hid scope, ?_⟩
    · rintro _ hmem
      obtain ⟨other, hother, rfl⟩ := List.mem_map.mp hmem
      exact (hid other).symm ▸ h.scopeIds other hother
    · intro _ hmem _ hmem' hsame
      obtain ⟨other, hother, rfl⟩ := List.mem_map.mp hmem
      obtain ⟨other', hother', rfl⟩ := List.mem_map.mp hmem'
      rw [h.addresses other hother other' hother'
        ((haddress other).symm.trans (hsame.trans (haddress other')))]
    · intro _ hmem _ hmem' hsame
      obtain ⟨other, hother, rfl⟩ := List.mem_map.mp hmem
      obtain ⟨other', hother', rfl⟩ := List.mem_map.mp hmem'
      rw [h.ids other hother other' hother' ((hid other).symm.trans (hsame.trans (hid other')))]
    · intro _ hmem stat hstat
      obtain ⟨other, hother, rfl⟩ := List.mem_map.mp hmem
      refine Eq.trans ?_ (hid other).symm
      by_cases hsame : other.address = scope.address
      · simp only [if_pos hsame] at hstat
        rcases mem_cons.mp hstat with rfl | hstat
        · rw [h.addresses other hother scope hscope hsame]
        · exact h.owned other hother stat hstat
      · simp only [if_neg hsame] at hstat
        exact h.owned other hother stat hstat
    · intro cached hcached _ hmem howner
      obtain ⟨other, hother, rfl⟩ := List.mem_map.mp hmem
      exact hkeep other hother (h.cached cached hcached other hother (howner.trans (hid other)))
    · intro r hr _ hmem hsame
      obtain ⟨other, hother, rfl⟩ := List.mem_map.mp hmem
      exact hkeep other hother (h.returned r hr other hother ((hid other).symm.trans hsame))
    · unfold add
      rw [if_pos rfl, TlsCacheEntry.find, find?_cons_of_pos (by simp)]
      rfl

theorem Inv.finishLookup (h : s.Inv) (hscope : scope ∈ s.scopes) (lookup : Lookup) :
    (s.finishLookup scope lookup).Inv := by
  obtain ⟨hinv, howner, scope', hscope', hid, hfind⟩ := h.centralRef hscope lookup.kind lookup.name
  unfold Store.finishLookup
  generalize s.centralRef scope lookup.kind lookup.name = result at *
  obtain ⟨object, s₁⟩ := result
  have hcache : ({ s₁ with caches := ⟨lookup.thread, lookup.address, lookup.kind, lookup.name,
      object⟩ :: s₁.caches } : Store).Inv := by
    refine { hinv with cachedIds := ?_, cached := ?_ }
    · refine forall_mem_cons.mpr ⟨?_, hinv.cachedIds⟩
      exact howner.trans hid.symm ▸ hinv.scopeIds scope' hscope'
    · refine forall_mem_cons.mpr ⟨fun other hother hsame => ?_, hinv.cached⟩
      obtain rfl := hinv.ids other hother scope' hscope' (hsame.symm.trans (howner.trans hid.symm))
      exact hfind
  have hstored : ({ s₁ with
      caches := if lookup.tlsRef then
          ⟨lookup.thread, lookup.address, lookup.kind, lookup.name, object⟩ :: s₁.caches
        else s₁.caches
      lookups := s₁.lookups.erase lookup } : Store).Inv := by
    split
    · exact hcache.shrink (List.Subset.refl _) (List.Subset.refl _) rfl rfl
    · exact hinv.shrink (List.Subset.refl _) (List.Subset.refl _) rfl rfl
  exact hid ▸ hstored.push hscope' hfind

theorem Inv.step (h : s.Inv) {event : Event} (hregular : s.Regular event)
    (hstep : s.step event = some s') : s'.Inv := by
  cases event with
  | initializeThreading =>
    rw [Store.step] at hstep
    split at hstep
    · cases hstep
    · cases hstep
      exact h.shrink (List.Subset.refl _) (List.Subset.refl _) rfl rfl
  | shutdownThreading =>
    cases hstep
    exact h.shrink (List.Subset.refl _) (List.Subset.refl _) rfl rfl
  | createScope address name =>
    rw [Store.step] at hstep
    split at hstep
    · cases hstep
    · rename_i hnone
      cases hstep
      exact h.createScope (not_isSome_iff_eq_none.mp hnone) name
  | destroyScope address =>
    rw [Store.step] at hstep
    split at hstep
    · cases hstep
    · cases hstep
      exact h.shrink (filter_subset_self _) (List.Subset.refl _) rfl rfl
  | lookup thread address kind name =>
    rw [Store.step] at hstep
    split at hstep
    · cases hstep
    · obtain ⟨scope, hat, rfl⟩ := map_eq_some_iff.mp hstep
      obtain ⟨hscope, rfl⟩ := scopeAt_spec hat
      exact h.startLookup hscope kind name (hregular scope hat)
  | lock thread =>
    obtain ⟨lookup, -, hlookup⟩ := bind_eq_some_iff.mp hstep
    obtain ⟨scope, hat, rfl⟩ := map_eq_some_iff.mp hlookup
    exact h.finishLookup (scopeAt_spec hat).1 lookup
  | runMain =>
    rw [Store.step] at hstep
    split at hstep
    · cases hstep
    · split at hstep
      · cases hstep
      · cases hstep
        unfold clearScopeFromCaches
        split
        · exact h.shrink (List.Subset.refl _) (List.Subset.refl _) rfl rfl
        · exact h.shrink (List.Subset.refl _) (filter_subset_self _) rfl rfl
  | runThread thread =>
    rw [Store.step] at hstep
    split at hstep
    · cases hstep
    · obtain ⟨post, -, rfl⟩ := map_eq_some_iff.mp hstep
      exact h.shrink (List.Subset.refl _) (filter_subset_self _) rfl rfl

/-- In a run without a stale hit, what a lookup on a live scope returns stays the stat of that
scope, and stays alive with it. -/
theorem regular_stable (workers : List Nat) (events : List Event)
    (hmeet : AllMeet step Regular (create workers) events)
    (hrun : run step (create workers) events = some s) : s.Stable := by
  have hinv : s.Inv := run_invariant (fun _ _ _ h hregular hstep => h.step hregular hstep) hmeet
    (create_inv workers) hrun
  exact hinv.stable

/-- A stale hit returns an object that is not in the central cache of the scope. -/
theorem Inv.stale (h : s.Inv) (hstale : ¬ s.Regular (.lookup thread address kind name))
    (hstep : s.step (.lookup thread address kind name) = some s') : ¬ s'.Stable := by
  simp only [Regular, not_forall] at hstale
  obtain ⟨scope, hat, hthreading, hrunning, object, hobject, hother⟩ := hstale
  have hscope := (scopeAt_spec hat).1
  obtain rfl := (scopeAt_spec hat).2
  rw [Store.step] at hstep
  split at hstep
  · cases hstep
  obtain ⟨scope', hat', rfl⟩ := map_eq_some_iff.mp hstep
  cases hat.symm.trans hat'
  have hhit : s.startLookup thread scope kind name =
      { s with returned := ⟨scope.id, kind, scope.namePrefix ++ name, object⟩ :: s.returned } := by
    unfold Store.startLookup
    rw [hthreading, hrunning]
    simp only [Bool.not_false, Bool.and_self, if_true]
    rw [hobject]
  intro hstable
  rw [hhit] at hstable
  have hfind := (hstable _ mem_cons_self scope hscope rfl).1
  exact hother (h.owned scope hscope _ (mem_of_find hfind))

def flushedEvents : List Event :=
  [.initializeThreading, .createScope 1 (ascii "a."), .lookup 1 1 .counter (ascii "x"),
    .lookup 0 1 .counter (ascii "x"), .lock 0, .lock 1, .destroyScope 1, .runMain, .runThread 1,
    .createScope 1 (ascii "a."), .lookup 1 1 .counter (ascii "x"), .lock 1,
    .lookup 1 1 .counter (ascii "x")]

theorem flushedEvents_stable : ∃ s, run step (create [1]) flushedEvents = some s ∧ s.Stable := by
  obtain ⟨s, hs⟩ := isSome_iff_exists.mp
    (by decide +kernel : (run step (create [1]) flushedEvents).isSome = true)
  exact ⟨s, hs, regular_stable [1] flushedEvents (by decide +kernel) hs⟩

def staleEvents : List Event :=
  [.initializeThreading, .createScope 1 (ascii "a."), .lookup 1 1 .counter (ascii "x"), .lock 1,
    .destroyScope 1, .createScope 1 (ascii "a."), .lookup 1 1 .counter (ascii "x"), .runMain,
    .runThread 1]

/-- The object was returned to a user of a live scope, and it is destroyed. -/
theorem staleEvents_not_stable : ∃ s, run step (create [1]) staleEvents = some s ∧ ¬ s.Stable ∧
      ∃ r ∈ s.returned, (∃ scope ∈ s.scopes, scope.id = r.scope) ∧ ¬ s.Exists r.object := by
  obtain ⟨s, hs⟩ := isSome_iff_exists.mp
    (by decide +kernel : (run step (create [1]) staleEvents).isSome = true)
  have hall : ∀ s ∈ run step (create [1]) staleEvents, ¬ s.Stable ∧
      ∃ r ∈ s.returned, (∃ scope ∈ s.scopes, scope.id = r.scope) ∧ ¬ s.Exists r.object := by
    decide +kernel
  exact ⟨s, hs, hall s hs⟩

/-- Right after the first stale hit of a run a user of a live scope has an object that is not its
own. -/
theorem stale_not_stable (workers : List Nat) (events : List Event)
    (hrun : (run step (create workers) events).isSome)
    (hstale : ¬ AllMeet step Regular (create workers) events) :
    ∃ before event after s s', events = before ++ event :: after ∧
      AllMeet step Regular (create workers) before ∧ run step (create workers) before = some s ∧
      ¬ s.Regular event ∧ s.step event = some s' ∧ ¬ s'.Stable := by
  obtain ⟨before, event, after, s, rfl, hmeet, hbefore, hinv, hunmet⟩ := first_unmet
    (fun _ _ _ h hregular hstep => h.step hregular hstep) (create_inv workers) hstale
  cases event with
  | lookup thread address kind name =>
    cases hstep : s.step (.lookup thread address kind name) with
    | none =>
      rw [run_append, hbefore, bind_some, run, show step s _ = none from hstep] at hrun
      cases hrun
    | some s' =>
      exact ⟨before, _, after, s, s', rfl, hmeet, hbefore, hunmet, hstep, hinv.stale hunmet hstep⟩
  | _ => exact absurd trivial hunmet

theorem staleEvents_stale : ∃ before event after s s', staleEvents = before ++ event :: after ∧
      AllMeet step Regular (create [1]) before ∧ run step (create [1]) before = some s ∧
      ¬ s.Regular event ∧ s.step event = some s' ∧ ¬ s'.Stable :=
  stale_not_stable [1] staleEvents (by decide +kernel) (by decide +kernel)

end Store

end Meliproxy.Envoy.Stats
