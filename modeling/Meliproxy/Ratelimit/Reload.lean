import Meliproxy.Lib.Runs
import Meliproxy.Ratelimit.ConfigErrors
import Meliproxy.Ratelimit.ConfigWalk
import Meliproxy.Ratelimit.Service

/-!
# Reloading the configuration

The service with the goroutine that reloads and those of its calls. A reload takes a snapshot of the
runtime, loads it and swaps the configuration. A call takes the current configuration, looks up its
limits one by one and then asks Redis. The steps of all of them interleave; an event that does not
fit the state does nothing. `none` is a panic that ends the process.

`Reloads` follows the reloads from outside: which snapshot each of them took and whether it is over
does not depend on what the service has made of it.
-/

namespace Meliproxy.Ratelimit

open Lib List Config

variable {σ : Type} (server : Server σ) (cache : RateLimitCacheImpl)

def checkRequest (request : Pb.RateLimitRequest) (config : Option RateLimitConfigImpl) :
    Except Bytes RateLimitConfigImpl :=
  if request.domain = [] then .error (ascii "rate limit domain must not be empty")
  else if request.descriptors = [] then
    .error (ascii "rate limit descriptor list must not be empty")
  else
    match config with
    | none => .error (ascii "no rate limit configuration loaded")
    | some snappedConfig => .ok snappedConfig

theorem shouldRateLimit_eq (call : Call) (w : World σ) : shouldRateLimit server cache call w =
      match checkRequest call.request call.config with
      | .error text =>
        (.ok (.error text), w.addStat (ascii "call.should_rate_limit.service_error") 1)
      | .ok snappedConfig =>
        recoverCall (answer server cache call (limitsToCheck snappedConfig call.request) w) := by
  unfold checkRequest shouldRateLimit shouldRateLimitWorker
  by_cases hdomain : call.request.domain = []
  · rw [if_pos hdomain, if_pos hdomain]
    rfl
  · rw [if_neg hdomain, if_neg hdomain]
    by_cases hempty : call.request.descriptors = []
    · rw [if_pos hempty, if_pos hempty]
      rfl
    · rw [if_neg hempty, if_neg hempty]
      cases call.config <;> rfl

theorem shouldRateLimit_of_check {request : Pb.RateLimitRequest} {config config' : Option RateLimitConfigImpl}
    {snappedConfig : RateLimitConfigImpl} (hcheck : checkRequest request config = .ok snappedConfig)
    (connect : Except Bytes Unit) (now : Int) (jitter : Nat → Int) (w : World σ) :
    recoverCall (answer server cache ⟨request, config', connect, now, jitter⟩
      (limitsToCheck snappedConfig request) w) =
        shouldRateLimit server cache ⟨request, config, connect, now, jitter⟩ w := by
  rw [shouldRateLimit_eq, hcheck]
  rfl

abbrev Snapshot := List (Bytes × Bytes)

def configFiles (snapshot : Snapshot) : List RateLimitConfigToLoad :=
  (snapshot.filter fun entry => (ascii "config.").isPrefixOf entry.1).map fun entry =>
    ⟨entry.1, entry.2⟩

/-- Where the reloading goroutine is in `reloadConfig`. -/
inductive Reload where
  | idle
  | loading (files : List RateLimitConfigToLoad)
  | swapping (newConfig : RateLimitConfigImpl)

inductive CallPhase where
  | deciding (snappedConfig : RateLimitConfigImpl) (limitsToCheck : List (Option RateLimit))
  | answered (reply : Except Bytes Pb.RateLimitResponse)

/-- A call. Its history is the number of reloads that were over when it took the configuration, the
look-ups it has had, and whether it has got to Redis behind the last of them. -/
structure Goroutine where
  request : Pb.RateLimitRequest
  reloads : Nat
  lookups : Nat
  asked : Bool
  phase : CallPhase

inductive Event where
  | startReload (snapshot : Snapshot)
  | load
  | swap
  | startCall (request : Pb.RateLimitRequest)
  | getLimit (call : Nat)
  | finishCall (call : Nat) (connect : Except Bytes Unit) (now : Int) (jitter : Nat → Int)

def goesWell (yaml : Yaml) (snapshot : Snapshot) : Bool :=
  match newRateLimitConfigImpl yaml (configFiles snapshot) with
  | .ok _ => true
  | .error _ => false

/-- The snapshots of the reloads that are over, and that of the one that runs, with the flag whether
it has been loaded. -/
structure Reloads where
  past : List Snapshot
  running : Option (Snapshot × Bool)

/-- A reload is over when its snapshot does not load, or when its configuration has been swapped
in. -/
def Reloads.next (yaml : Yaml) (r : Reloads) : Event → Reloads
  | .startReload snapshot =>
    if r.running.isSome then r else { r with running := some (snapshot, false) }
  | .load =>
    match r.running with
    | some (snapshot, false) =>
      if goesWell yaml snapshot then { r with running := some (snapshot, true) }
      else ⟨r.past ++ [snapshot], none⟩
    | _ => r
  | .swap =>
    match r.running with
    | some (snapshot, true) => ⟨r.past ++ [snapshot], none⟩
    | _ => r
  | _ => r

structure Service (σ : Type) where
  config : Option RateLimitConfigImpl
  reload : Reload
  reloads : Reloads
  calls : List Goroutine
  world : World σ

namespace Goroutine

variable (call : Goroutine)

/-- One round of the loop over the descriptors. -/
def getLimit : CallPhase :=
  match call.phase with
  | .deciding snappedConfig limits =>
    match call.request.descriptors[limits.length]? with
    | some descriptor =>
      .deciding snappedConfig
        (limits ++ [Config.getLimit snappedConfig call.request.domain descriptor])
    | none => .deciding snappedConfig limits
  | phase => phase

def finishCall (connect : Except Bytes Unit) (now : Int) (jitter : Nat → Int)
    (w : World σ) : Option (CallPhase × World σ) :=
  match call.phase with
  | .deciding snappedConfig limits =>
    if limits.length = call.request.descriptors.length then
      match recoverCall (answer server cache
        ⟨call.request, some snappedConfig, connect, now, jitter⟩ limits w) with
      | (.ok reply, w) => some (.answered reply, w)
      | (.error _, _) => none
    else some (call.phase, w)
  | phase => some (phase, w)

/-- All the look-ups of the call are done. -/
def decided : Bool := call.request.descriptors.length ≤ call.lookups

end Goroutine

namespace Service

def new (world : World σ) : Service σ := ⟨none, .idle, ⟨[], none⟩, [], world⟩

def addStat (s : Service σ) (name : Bytes) : Service σ :=
  { s with world := s.world.addStat name 1 }

def startReload (s : Service σ) (snapshot : Snapshot) : Service σ :=
  match s.reload with
  | .idle => { s with reload := .loading (configFiles snapshot) }
  | _ => s

def load (yaml : Yaml) (s : Service σ) : Option (Service σ) :=
  match s.reload with
  | .loading files =>
    match newRateLimitConfigImpl yaml files with
    | .ok newConfig =>
      some (({ s with reload := .swapping newConfig } :
        Service σ).addStat (ascii "config_load_success"))
    | .error (.rateLimitConfigError _) =>
      some (({ s with reload := .idle } : Service σ).addStat (ascii "config_load_error"))
    | .error _ => none
  | _ => some s

def swap (s : Service σ) : Service σ :=
  match s.reload with
  | .swapping newConfig => { s with config := some newConfig, reload := .idle }
  | _ => s

def startCall (s : Service σ) (request : Pb.RateLimitRequest) : CallPhase × World σ :=
  match checkRequest request s.config with
  | .error text =>
    (.answered (.error text), s.world.addStat (ascii "call.should_rate_limit.service_error") 1)
  | .ok snappedConfig => (.deciding snappedConfig [], s.world)

variable (yaml : Yaml)

variable (s : Service σ)

/-- What the goroutines do, and what a call is told of it. -/
def act : Event → Option (Service σ)
  | .startReload snapshot => some (s.startReload snapshot)
  | .load => s.load yaml
  | .swap => some s.swap
  | .startCall request =>
    some { s with
      calls := s.calls ++ [⟨request, s.reloads.past.length, 0, false, (s.startCall request).1⟩]
      world := (s.startCall request).2 }
  | .getLimit i =>
    some { s with calls := s.calls.modify i fun call =>
      { call with lookups := call.lookups + 1, phase := call.getLimit } }
  | .finishCall i connect now jitter =>
    match s.calls[i]? with
    | none => some s
    | some call =>
      (call.finishCall server cache connect now jitter s.world).map fun ended =>
        { s with
          calls := s.calls.set i { call with asked := call.asked || call.decided, phase := ended.1 }
          world := ended.2 }

def step (event : Event) : Option (Service σ) :=
  (s.act server cache yaml event).map fun t => { t with reloads := s.reloads.next yaml event }

def lastGood (snapshots : List Snapshot) : Option RateLimitConfigImpl :=
  snapshots.foldl (fun config snapshot =>
    match newRateLimitConfigImpl yaml (configFiles snapshot) with
    | .ok newConfig => some newConfig
    | .error _ => config) none

/-- The limits of a call, and its reply, are those of one configuration. It has a reply once it has
got to Redis. -/
def Decides (config : Option RateLimitConfigImpl) (call : Goroutine) : Prop :=
  match call.phase with
  | .deciding snappedConfig limits =>
    checkRequest call.request config = .ok snappedConfig ∧
      limits = (limitsToCheck snappedConfig call.request).take call.lookups ∧ call.asked = false
  | .answered reply => ∃ connect now jitter w,
    (shouldRateLimit server cache ⟨call.request, config, connect, now, jitter⟩ w).1 = .ok reply

structure Current : Prop where
  config : s.config = lastGood yaml s.reloads.past
  calls : ∀ call ∈ s.calls, call.reloads ≤ s.reloads.past.length ∧
    Decides server cache (lastGood yaml (s.reloads.past.take call.reloads)) call
  failing : ∀ snapshot e, s.reloads.running = some (snapshot, false) →
    newRateLimitConfigImpl yaml (configFiles snapshot) = .error e →
      step server cache yaml s .load = some { s with
        reload := .idle
        reloads := ⟨s.reloads.past ++ [snapshot], none⟩
        world := s.world.addStat (ascii "config_load_error") 1 }

theorem lastGood_concat (snapshots : List Snapshot) (snapshot : Snapshot) :
    lastGood yaml (snapshots ++ [snapshot]) =
      match newRateLimitConfigImpl yaml (configFiles snapshot) with
      | .ok newConfig => some newConfig | .error _ => lastGood yaml snapshots := by
  rw [lastGood, foldl_append]
  rfl

/-!
## Runs of the service with reloads

In every run the configuration is that of the last snapshot that loads, and every call decides with
the one that was there when it began.
-/

/-- The goroutine is where the reload that runs is. -/
inductive Follows (yaml : Yaml) : Option (Snapshot × Bool) → Reload → Prop
  | idle : Follows yaml none .idle
  | loading (snapshot : Snapshot) :
    Follows yaml (some (snapshot, false)) (.loading (configFiles snapshot))
  | swapping (snapshot : Snapshot) (newConfig : RateLimitConfigImpl)
    (loaded : newRateLimitConfigImpl yaml (configFiles snapshot) = .ok newConfig) :
    Follows yaml (some (snapshot, true)) (.swapping newConfig)

structure Inv : Prop where
  config : s.config = lastGood yaml s.reloads.past
  follows : Follows yaml s.reloads.running s.reload
  calls : ∀ call ∈ s.calls, call.reloads ≤ s.reloads.past.length ∧
    Decides server cache (lastGood yaml (s.reloads.past.take call.reloads)) call

variable {server cache yaml} {s : Service σ}

theorem Follows.loading_eq {snapshot : Snapshot} {reload : Reload}
    (h : Follows yaml (some (snapshot, false)) reload) : reload = .loading (configFiles snapshot) := by
  cases h
  rfl

theorem load_failing (hfollows : Follows yaml s.reloads.running s.reload) {snapshot : Snapshot}
    {e : Panic} (hrunning : s.reloads.running = some (snapshot, false))
    (h : newRateLimitConfigImpl yaml (configFiles snapshot) = .error e) :
    step server cache yaml s .load = some { s with
      reload := .idle
      reloads := ⟨s.reloads.past ++ [snapshot], none⟩
      world := s.world.addStat (ascii "config_load_error") 1 } := by
  obtain ⟨text, rfl⟩ := loadConfigs_error h
  have hreload : s.reload = .loading (configFiles snapshot) := by
    rw [hrunning] at hfollows
    exact hfollows.loading_eq
  have hnext : s.reloads.next yaml .load = ⟨s.reloads.past ++ [snapshot], none⟩ := by
    simp [Reloads.next, hrunning, goesWell, h]
  rw [step, act, load, hreload, hnext]
  dsimp only
  rw [h]
  rfl

section

variable (h : Inv server cache yaml s)
include h

theorem Inv.current : Current server cache yaml s :=
  ⟨h.config, h.calls, fun _ _ hrunning herror => load_failing h.follows hrunning herror⟩

/-- One more reload is over, and the configuration is what it has made of it. -/
theorem Inv.past (snapshot : Snapshot)
    {config : Option RateLimitConfigImpl} {world : World σ}
    (hconfig : config = lastGood yaml (s.reloads.past ++ [snapshot])) :
    Inv server cache yaml { s with
      config := config
      reload := .idle
      reloads := ⟨s.reloads.past ++ [snapshot], none⟩
      world := world } := by
  refine ⟨hconfig, .idle, ?_⟩
  intro call hcall
  obtain ⟨hreloads, hdecides⟩ := h.calls call hcall
  dsimp only
  rw [take_append_of_le_length hreloads, length_append]
  exact ⟨Nat.le_add_right_of_le hreloads, hdecides⟩

theorem Inv.load : ∃ s', step server cache yaml s .load = some s' ∧ Inv server cache yaml s' := by
  obtain ⟨config, reload, ⟨past, running⟩, calls, world⟩ := s
  cases h.follows with
  | idle | swapping => exact ⟨_, rfl, h⟩
  | loading snapshot =>
    cases hload : newRateLimitConfigImpl yaml (configFiles snapshot) with
    | error e =>
      refine ⟨_, load_failing h.follows rfl hload, h.past snapshot ?_⟩
      rw [lastGood_concat, hload]
      exact h.config
    | ok newConfig =>
      have hnext : Reloads.next yaml ⟨past, some (snapshot, false)⟩ .load =
          ⟨past, some (snapshot, true)⟩ := by
        simp [Reloads.next, goesWell, hload]
      rw [step, act, Service.load, hnext]
      dsimp only
      rw [hload]
      exact ⟨_, rfl, h.config, .swapping snapshot newConfig hload, h.calls⟩

theorem Inv.swap : ∃ s', step server cache yaml s .swap = some s' ∧ Inv server cache yaml s' := by
  obtain ⟨config, reload, ⟨past, running⟩, calls, world⟩ := s
  cases h.follows with
  | idle | loading => exact ⟨_, rfl, h⟩
  | swapping snapshot newConfig loaded =>
    refine ⟨_, rfl, h.past snapshot ?_⟩
    rw [lastGood_concat, loaded]
    rfl

theorem Inv.startReload (snapshot : Snapshot) :
    ∃ s', step server cache yaml s (.startReload snapshot) = some s' ∧
      Inv server cache yaml s' := by
  obtain ⟨config, reload, ⟨past, running⟩, calls, world⟩ := s
  cases h.follows with
  | idle => exact ⟨_, rfl, h.config, .loading snapshot, h.calls⟩
  | loading | swapping => exact ⟨_, rfl, h⟩

theorem Inv.startCall (request : Pb.RateLimitRequest) :
    ∃ s', step server cache yaml s (.startCall request) = some s' ∧ Inv server cache yaml s' := by
  refine ⟨_, rfl, h.config, h.follows, ?_⟩
  intro call hcall
  rcases mem_append.mp hcall with hearlier | hnew
  · exact h.calls call hearlier
  · obtain rfl := mem_singleton.mp hnew
    refine ⟨Nat.le_refl _, ?_⟩
    change Decides server cache (lastGood yaml (s.reloads.past.take s.reloads.past.length)) _
    rw [take_length, ← h.config, Service.startCall]
    cases hcheck : checkRequest request s.config with
    | error text =>
      refine ⟨.ok (), 0, fun _ => 0, s.world, ?_⟩
      rw [shouldRateLimit_eq, hcheck]
    | ok snappedConfig => exact ⟨hcheck, rfl, rfl⟩

/-- The goroutines of the calls go on by themselves. -/
theorem Inv.setCalls {calls : List Goroutine} (world : World σ)
    (hcalls : ∀ call ∈ calls, ∃ call₀ ∈ s.calls, call.reloads = call₀.reloads ∧
      ∀ config, Decides server cache config call₀ → Decides server cache config call) :
    Inv server cache yaml { s with calls := calls, world := world } := by
  refine ⟨h.config, h.follows, ?_⟩
  intro call hcall
  obtain ⟨call₀, hcall₀, hreloads, hdecides⟩ := hcalls call hcall
  obtain ⟨hle, hbefore⟩ := h.calls call₀ hcall₀
  dsimp only
  rw [hreloads]
  exact ⟨hle, hdecides _ hbefore⟩

end

variable {config : Option RateLimitConfigImpl}

theorem decides_deciding {request : Pb.RateLimitRequest}
    {reloads lookups : Nat} {asked : Bool} {snappedConfig : RateLimitConfigImpl}
    {limits : List (Option RateLimit)} :
    Decides server cache config ⟨request, reloads, lookups, asked, .deciding snappedConfig limits⟩ ↔
      checkRequest request config = .ok snappedConfig ∧
        limits = (limitsToCheck snappedConfig request).take lookups ∧ asked = false := Iff.rfl

theorem decides_getLimit (call : Goroutine) (h : Decides server cache config call) : Decides server
    cache config
      { call with lookups := call.lookups + 1, phase := call.getLimit } := by
  obtain ⟨request, reloads, lookups, asked, phase⟩ := call
  cases phase with
  | answered reply => exact h
  | deciding snappedConfig limits =>
    obtain ⟨hcheck, rfl, hasked⟩ := decides_deciding.mp h
    have hlength : ((limitsToCheck snappedConfig request).take lookups).length =
        min lookups request.descriptors.length := by
      rw [length_take, length_limitsToCheck snappedConfig request]
    rcases Nat.lt_or_ge lookups request.descriptors.length with hlt | hge
    · unfold Goroutine.getLimit
      dsimp only
      rw [hlength, Nat.min_eq_left (Nat.le_of_lt hlt), getElem?_eq_getElem hlt]
      refine decides_deciding.mpr ⟨hcheck, ?_, hasked⟩
      rw [take_add_one, limitsToCheck, getElem?_map, getElem?_eq_getElem hlt]
      rfl
    · unfold Goroutine.getLimit
      dsimp only
      rw [hlength, Nat.min_eq_right hge, getElem?_eq_none (Nat.le_refl _)]
      refine decides_deciding.mpr ⟨hcheck, ?_, hasked⟩
      have hall : (limitsToCheck snappedConfig request).length ≤ lookups :=
        (length_limitsToCheck snappedConfig request) ▸ hge
      rw [take_of_length_le hall, take_of_length_le (Nat.le_succ_of_le hall)]

theorem Inv.getLimit (h : Inv server cache yaml s) (i : Nat) :
    ∃ s', step server cache yaml s (.getLimit i) = some s' ∧ Inv server cache yaml s' := by
  refine ⟨_, rfl, h.setCalls s.world ?_⟩
  intro call hcall
  obtain ⟨j, hj⟩ := mem_iff_getElem?.mp hcall
  rw [getElem?_modify] at hj
  obtain ⟨call₀, hcall₀, rfl⟩ := Option.map_eq_some_iff.mp hj
  refine ⟨call₀, mem_of_getElem? hcall₀, ?_⟩
  split
  · exact ⟨rfl, fun _ => decides_getLimit call₀⟩
  · exact ⟨rfl, fun _ => id⟩

theorem finishCall_decides (call : Goroutine) (h : Decides server cache config call)
    (connect : Except Bytes Unit) (now : Int)
    (jitter : Nat → Int) (w : World σ) :
    ∃ ended, call.finishCall server cache connect now jitter w = some ended ∧
      Decides server cache config
        { call with asked := call.asked || call.decided, phase := ended.1 } := by
  obtain ⟨request, reloads, lookups, asked, phase⟩ := call
  cases phase with
  | answered reply => exact ⟨_, rfl, h⟩
  | deciding snappedConfig limits =>
    obtain ⟨hcheck, rfl, rfl⟩ := decides_deciding.mp h
    have hlength := length_limitsToCheck snappedConfig request
    unfold Goroutine.finishCall Goroutine.decided
    dsimp only
    rw [length_take, ← hlength]
    rcases Nat.lt_or_ge lookups request.descriptors.length with hlt | hge
    · rw [if_neg (by omega)]
      refine ⟨_, rfl, hcheck, rfl, ?_⟩
      simp [hlt]
    · rw [if_pos (by omega), take_of_length_le (hlength ▸ hge),
        shouldRateLimit_of_check server cache hcheck]
      have houtcome := shouldRateLimit_outcome server cache
        ⟨request, config, connect, now, jitter⟩ w
      cases hresult : shouldRateLimit server cache ⟨request, config, connect, now, jitter⟩ w with
      | mk result w' =>
        rw [hresult] at houtcome
        cases result with
        | error e => exact houtcome.elim
        | ok reply => exact ⟨_, rfl, connect, now, jitter, w, by rw [hresult]⟩

theorem Inv.finishCall (h : Inv server cache yaml s) (i : Nat) (connect : Except Bytes Unit)
    (now : Int) (jitter : Nat → Int) :
    ∃ s', step server cache yaml s (.finishCall i connect now jitter) = some s' ∧
      Inv server cache yaml s' := by
  rw [step, act]
  cases hcall : s.calls[i]? with
  | none => exact ⟨s, rfl, h⟩
  | some call =>
    obtain ⟨hreloads, hbefore⟩ := h.calls call (mem_of_getElem? hcall)
    obtain ⟨ended, hended, hdecides⟩ :=
      finishCall_decides call hbefore connect now jitter s.world
    dsimp only
    rw [hended]
    refine ⟨_, rfl, h.config, h.follows, ?_⟩
    intro other hmem
    rcases mem_or_eq_of_mem_set hmem with hmem | rfl
    · exact h.calls other hmem
    · exact ⟨hreloads, hdecides⟩

theorem inv_step (h : Inv server cache yaml s) (event : Event) :
    ∃ s', step server cache yaml s event = some s' ∧ Inv server cache yaml s' := by
  cases event with
  | startReload snapshot => exact h.startReload snapshot
  | load => exact h.load
  | swap => exact h.swap
  | startCall request => exact h.startCall request
  | getLimit call => exact h.getLimit call
  | finishCall call connect now jitter => exact h.finishCall call connect now jitter

end Service

end Meliproxy.Ratelimit
