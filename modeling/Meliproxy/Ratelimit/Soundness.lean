import Meliproxy.Lib.Quota
import Meliproxy.Ratelimit.Service

/-!
# What one window admits

Redis is a map of 64-bit counters. The hits that one key receives, from whatever calls,
are hits on a growing counter, and `DoLimit` answers from the low 32 bits of it. The
answers are right as long as no increment reaches a value of 2^32 or more with low bits
within the limit; then the laws of `Lib.Quota` hold of the calls.
-/

namespace Meliproxy.Ratelimit

open Lib List

abbrev Counters := Bytes → Int

def maxInt64 : Int := 9223372036854775807

/-- `INCRBY` refuses to leave the range of a 64-bit integer. -/
def execCounters (s : Counters) : Cmd → Counters × Resp
  | .incrBy key amount =>
    if s key + amount.toNat ≤ maxInt64 then
      (fun k => if k = key then s key + amount.toNat else s k, .int (s key + amount.toNat))
    else (s, .err (ascii "ERR increment or decrement would overflow"))
  | .expire _ _ => (s, .int 1)

def redis : Server Counters := Server.ofStep execCounters

def windowKey (domain : Bytes) (descriptor : Pb.RateLimitDescriptor) (window : Int) : Bytes :=
  terminated underscore (keyNames domain descriptor) ++ formatInt window

/-- The hits and answers that an outcome holds for one descriptor in one window. -/
def observed (domain : Bytes) (descriptor : Pb.RateLimitDescriptor) (unit : Pb.RateLimitUnit)
    (window : Int) :
    Call × Except Panic (Except Bytes Pb.RateLimitResponse) → List (Nat × Pb.Code)
  | (call, .ok (.ok response)) =>
    if call.request.domain = domain ∧ windowStart unit call.now = window then
      ((call.request.descriptors.zip response.statuses).filter fun p => p.1 = descriptor).map
        fun p => ((max 1 call.request.hitsAddend).toNat, p.2.code)
    else []
  | _ => []

def okSum (xs : List (Nat × Pb.Code)) : Nat :=
  ((xs.filter fun x => x.2 = .ok).map Prod.fst).sum

def incrCount (key : Bytes) (cmds : List Cmd) : Nat :=
  cmds.countP fun
    | .incrBy k _ => k = key
    | .expire _ _ => false

/-- None of `n` increments of a counter reaches a value of 2^32 or more whose low 32
bits are within the limit. -/
def Fits (limit : UInt32) (count : Int) (hits : UInt32) (n : Nat) : Prop :=
  ∀ j < n, (count + (j + 1 : Nat) * hits.toNat) % 2 ^ 32 ≤ limit.toNat →
    count + (j + 1 : Nat) * hits.toNat < 2 ^ 32

/-- `Fits` before every call of a run. -/
def RunFits (cache : RateLimitCacheImpl) (key : Bytes) (limit : UInt32) :
    World Counters → List Call → Prop
  | _, [] => True
  | w, call :: calls =>
    Fits limit (w.server key) (max 1 call.request.hitsAddend)
      (incrCount key (sentCmds cache call)) ∧
    RunFits cache key limit (shouldRateLimit redis cache call w).2 calls

theorem checkLimit_code (limit : Config.RateLimit) (hitsAddend after : UInt32) :
    (checkLimit limit hitsAddend after).1.code =
      if limit.limit.requestsPerUnit < after then .overLimit else .ok := by
  by_cases h : limit.limit.requestsPerUnit < after
  · simp [checkLimit, h]
  · simp [checkLimit, h]

theorem toNat_ofInt (value : Int) : ((UInt32.ofInt value).toNat : Int) = value % 2 ^ 32 := by
  have hlt : (value % 2 ^ 32).toNat < UInt32.size := by
    change (value % 2 ^ 32).toNat < 2 ^ 32
    omega
  have hnat : (UInt32.ofInt value).toNat = (value % 2 ^ 32).toNat := UInt32.toNat_ofNat_of_lt hlt
  omega

theorem checkLimit_ok_iff (limit : Config.RateLimit) (hitsAddend : UInt32) (value : Int)
    (hvalue : 0 ≤ value)
    (hfits : value % 2 ^ 32 ≤ limit.limit.requestsPerUnit.toNat → value < 2 ^ 32) :
    (checkLimit limit hitsAddend (UInt32.ofInt value)).1.code = .ok ↔
      value ≤ limit.limit.requestsPerUnit.toNat := by
  have hlow := toNat_ofInt value
  rw [checkLimit_code]
  by_cases hover : limit.limit.requestsPerUnit < UInt32.ofInt value
  · rw [if_pos hover]
    rw [UInt32.lt_iff_toNat_lt] at hover
    simp only [reduceCtorEq, false_iff]
    omega
  · rw [if_neg hover]
    rw [UInt32.lt_iff_toNat_lt] at hover
    simp only [true_iff]
    omega

variable (cache : RateLimitCacheImpl) (s : Counters)

theorem execCounters_le (cmd : Cmd) (key : Bytes) : s key ≤ (execCounters s cmd).1 key := by
  cases cmd with
  | incrBy k amount =>
    by_cases hrange : s k + amount.toNat ≤ maxInt64
    · by_cases hkey : key = k
      · simp only [execCounters, if_pos hrange, hkey, if_true]
        omega
      · simp [execCounters, hrange, hkey]
    · simp [execCounters, hrange]
  | expire k seconds => exact Int.le_refl _

theorem execAll_le (cmds : List Cmd) (key : Bytes) :
    s key ≤ (execAll execCounters s cmds).1 key := by
  induction cmds generalizing s with
  | nil => exact Int.le_refl _
  | cons cmd cmds ih => exact Int.le_trans (execCounters_le s cmd key) (ih _)

variable {limit hits : UInt32} {count : Int}

theorem Fits.head {n : Nat} (h : Fits limit count hits (n + 1)) :
    (count + hits.toNat) % 2 ^ 32 ≤ limit.toNat → count + hits.toNat < 2 ^ 32 := by
  simpa using h 0 (by omega)

theorem Fits.tail {n : Nat} (h : Fits limit count hits (n + 1)) :
    Fits limit (count + hits.toNat) hits n := by
  intro j hj
  have hnext := h (j + 1) (by omega)
  have hsum : count + hits.toNat + (j + 1 : Nat) * hits.toNat =
      count + (j + 1 + 1 : Nat) * hits.toNat := by
    push_cast
    ring
  rw [hsum]
  exact hnext

def codesOf (descriptor : Pb.RateLimitDescriptor)
    (ps : List (Pb.RateLimitDescriptor × Option Config.RateLimit))
    (statuses : List Pb.DescriptorStatus) : List Pb.Code :=
  ((ps.zip statuses).filter fun p => p.1.1 = descriptor).map fun p => p.2.code

theorem execAll_limited (key : Bytes) (amount : UInt32) (seconds value : Int)
    (cmds : List Cmd) (reply : Resp) (replies : List Resp)
    (h : (execAll execCounters s (.incrBy key amount :: .expire key seconds :: cmds)).2 =
      .int value :: reply :: replies) : value = s key + amount.toNat ∧
      ∃ s', (∀ k, s' k = if k = key then s key + amount.toNat else s k) ∧
        (execAll execCounters s' cmds).2 = replies ∧
        (execAll execCounters s (.incrBy key amount :: .expire key seconds :: cmds)).1 =
          (execAll execCounters s' cmds).1 := by
  by_cases hrange : s key + amount.toNat ≤ maxInt64
  · simp only [execAll, execCounters, if_pos hrange, List.cons.injEq, Resp.int.injEq] at h
    refine ⟨h.1.symm, _, fun k => rfl, h.2.2, ?_⟩
    simp only [execAll, execCounters, if_pos hrange]
  · simp [execAll, execCounters, hrange] at h

variable {hitsAddend : UInt32} {domain : Bytes} {d : Pb.RateLimitDescriptor}
  {rest : List (Pb.RateLimitDescriptor × Option Config.RateLimit)} {replies : List Resp}
  {statuses : List Pb.DescriptorStatus}

theorem Attributed.none_inv {now : Int}
    (h : Attributed hitsAddend (pipelineItems domain now ((d, none) :: rest)) replies statuses) :
    ∃ status statuses', statuses = status :: statuses' ∧
      Attributed hitsAddend (pipelineItems domain now rest) replies statuses' := by
  change Attributed hitsAddend ((descriptorKey domain now (d, none), none) ::
    pipelineItems domain now rest) replies statuses at h
  cases h with
  | unlimited h => exact ⟨_, _, rfl, h⟩

theorem Attributed.some_inv {now : Int} {l : Config.RateLimit}
    (h : Attributed hitsAddend (pipelineItems domain now ((d, some l) :: rest)) replies statuses) :
    ∃ value reply replies' statuses', replies = .int value :: reply :: replies' ∧
      statuses = (checkLimit l hitsAddend (UInt32.ofInt value)).1 :: statuses' ∧
      Attributed hitsAddend (pipelineItems domain now rest) replies' statuses' := by
  change Attributed hitsAddend ((descriptorKey domain now (d, some l), some l) ::
    pipelineItems domain now rest) replies statuses at h
  cases h with
  | limited value reply h => exact ⟨value, reply, _, _, rfl, rfl, h⟩

theorem incrCount_limited (jitter : Nat → Int) (now : Int) (i : Nat)
    (l : Config.RateLimit) (key : Bytes) : incrCount key (pipelineCmds cache hitsAddend jitter i
      (pipelineItems domain now ((d, some l) :: rest))) =
      incrCount key (pipelineCmds cache hitsAddend jitter (i + 1) (pipelineItems domain now rest)) +
        if cacheKey domain d l.limit.unit now = key then 1 else 0 := by
  by_cases hkey : cacheKey domain d l.limit.unit now = key
  · simp [pipelineItems, pipelineCmds, descriptorKey, incrCount, hkey]
  · simp [pipelineItems, pipelineCmds, descriptorKey, incrCount, hkey]

theorem attributed_hits (hitsAddend : UInt32) (jitter : Nat → Int)
    (domain : Bytes) (now : Int) (descriptor : Pb.RateLimitDescriptor) (limit : Pb.RateLimit)
    (ps : List (Pb.RateLimitDescriptor × Option Config.RateLimit)) (i : Nat) (s : Counters)
    (statuses : List Pb.DescriptorStatus) {key : Bytes}
    (hkey : cacheKey domain descriptor limit.unit now = key)
    (hlimits : ∀ p ∈ ps, p.1 = descriptor → ∃ l, p.2 = some l ∧ l.limit = limit)
    (hcount : 0 ≤ s key) (hfits : Fits limit.requestsPerUnit (s key) hitsAddend (incrCount key
      (pipelineCmds cache hitsAddend jitter i (pipelineItems domain now ps))))
    (hat : Attributed hitsAddend (pipelineItems domain now ps) (execAll execCounters s
      (pipelineCmds cache hitsAddend jitter i (pipelineItems domain now ps))).2 statuses) :
    ∃ hits, Answered limit.requestsPerUnit.toNat (s key) hits ∧ (execAll execCounters s
        (pipelineCmds cache hitsAddend jitter i (pipelineItems domain now ps))).1 key =
        s key + hitSum hits ∧ answers hits =
        (codesOf descriptor ps statuses).map fun code => (hitsAddend.toNat, decide (code = .ok)) := by
  induction ps generalizing i s statuses with
  | nil =>
    exact ⟨[], trivial, by simp [pipelineItems, pipelineCmds, execAll, hitSum], by
      simp [answers, codesOf]⟩
  | cons p rest ih =>
    obtain ⟨d, l⟩ := p
    have hrest : ∀ p ∈ rest, p.1 = descriptor → ∃ l, p.2 = some l ∧ l.limit = limit :=
      fun p hp => hlimits p (by simp [hp])
    cases l with
    | none =>
      have hd : d ≠ descriptor := by
        intro hd
        obtain ⟨l, hl, -⟩ := hlimits (d, none) (by simp) hd
        simp at hl
      obtain ⟨status, statuses, rfl, hat'⟩ := hat.none_inv
      obtain ⟨hits, hans, hsum, hcodes⟩ := ih (i + 1) s statuses hrest hcount hfits hat'
      exact ⟨hits, hans, hsum, by simpa [codesOf, hd] using hcodes⟩
    | some l =>
      have hlimit (hd : d = descriptor) : l.limit = limit := by
        obtain ⟨l', hl', hlimit⟩ := hlimits (d, some l) (by simp) hd
        exact (congrArg Config.RateLimit.limit (Option.some.inj hl')).trans hlimit
      obtain ⟨value, reply, replies, statuses, hreplies, rfl, hat'⟩ := hat.some_inv
      obtain ⟨rfl, s', hs', rfl, hend⟩ := execAll_limited s _ _ _ value _ reply replies hreplies
      rw [incrCount_limited] at hfits
      by_cases hsame : cacheKey domain d l.limit.unit now = key
      · have hnext : s' key = s key + hitsAddend.toNat := by simp [hs', descriptorKey, hsame]
        rw [if_pos hsame] at hfits
        obtain ⟨hits, hans, hsum, hcodes⟩ := ih (i + 1) s' statuses hrest (by omega)
          (by rw [hnext]; exact hfits.tail) hat'
        rw [hnext] at hans hsum
        have hend' := (congrFun hend key).trans hsum
        by_cases hd : d = descriptor
        · refine ⟨⟨hitsAddend.toNat, some (decide ((checkLimit l hitsAddend (UInt32.ofInt
            (s key + hitsAddend.toNat))).1.code = .ok))⟩ :: hits, ⟨?_, hans⟩, hend'.trans ?_, ?_⟩
          · intro admitted hadmitted
            cases hadmitted
            have hok := checkLimit_ok_iff l hitsAddend (s key + hitsAddend.toNat) (by omega)
              (by rw [hlimit hd]; exact hfits.head)
            rw [hlimit hd] at hok
            simpa using hok
          · simp only [hitSum, map_cons, sum_cons]
            omega
          · simp [answers, codesOf, hd, descriptorKey, hlimit hd, hkey] at hcodes ⊢
            exact hcodes
        · refine ⟨⟨hitsAddend.toNat, none⟩ :: hits, ⟨by simp, hans⟩, hend'.trans ?_, ?_⟩
          · simp only [hitSum, map_cons, sum_cons]
            omega
          · simpa [answers, codesOf, hd] using hcodes
      · have hd : d ≠ descriptor := by
          intro hd
          exact hsame (by rw [hlimit hd, hd, hkey])
        have hnext : s' key = s key := by simp [hs', descriptorKey, Ne.symm hsame]
        rw [if_neg hsame] at hfits
        obtain ⟨hits, hans, hsum, hcodes⟩ := ih (i + 1) s' statuses hrest (by omega)
          (by rw [hnext]; exact hfits) hat'
        rw [hnext] at hans hsum
        exact ⟨hits, hans, (congrFun hend _).trans hsum, by simpa [codesOf, hd] using hcodes⟩

theorem codesOf_zip (descriptor : Pb.RateLimitDescriptor)
    (ds : List Pb.RateLimitDescriptor) (f : Pb.RateLimitDescriptor → Option Config.RateLimit)
    (statuses : List Pb.DescriptorStatus) : codesOf descriptor (ds.zip (ds.map f)) statuses =
      ((ds.zip statuses).filter fun p => p.1 = descriptor).map fun p => p.2.code := by
  induction ds generalizing statuses with
  | nil => rfl
  | cons d ds ih =>
    cases statuses with
    | nil => rfl
    | cons status statuses =>
      have h := ih statuses
      simp only [codesOf] at h
      by_cases hd : d = descriptor
      · simp [codesOf, hd, h]
      · simp [codesOf, hd, h]

theorem unanswered_hits (limit : Nat) (s s' : Counters) (cmds : List Cmd)
    (hs : s' = (redis.pipeline s cmds).1) (key : Bytes) :
    ∃ hits, Answered limit (s key) hits ∧ s' key = s key + hitSum hits ∧ answers hits = [] := by
  rw [redis, Server.pipeline_ofStep] at hs
  have hle := execAll_le s cmds key
  rw [← hs] at hle
  refine ⟨[⟨(s' key - s key).toNat, none⟩], ⟨by simp, trivial⟩, ?_, rfl⟩
  simp only [hitSum, map_cons, map_nil, sum_cons, sum_nil]
  omega

variable {descriptor : Pb.RateLimitDescriptor} {limit : Pb.RateLimit} {window : Int}

theorem shouldRateLimit_hits (call : Call) (w : World Counters)
    (hlimit : ∀ config, call.config = some config →
      ∃ l, Config.getLimit config domain descriptor = some l ∧ l.limit = limit)
    (hcount : 0 ≤ w.server (windowKey domain descriptor window))
    (hfits : Fits limit.requestsPerUnit (w.server (windowKey domain descriptor window))
      (max 1 call.request.hitsAddend)
      (incrCount (windowKey domain descriptor window) (sentCmds cache call))) :
    ∃ hits, Answered limit.requestsPerUnit.toNat
        (w.server (windowKey domain descriptor window)) hits ∧
      (shouldRateLimit redis cache call w).2.server (windowKey domain descriptor window) =
        w.server (windowKey domain descriptor window) + hitSum hits ∧
      answers hits = (observed domain descriptor limit.unit window
        (call, (shouldRateLimit redis cache call w).1)).map fun x => (x.1, decide (x.2 = .ok)) := by
  have hout := shouldRateLimit_outcome redis cache call w
  generalize shouldRateLimit redis cache call w = res at hout ⊢
  obtain ⟨outcome, w'⟩ := res
  match outcome, hout with
  | .ok (.error text), hout => exact unanswered_hits _ _ _ _ hout _
  | .ok (.ok response), ⟨hserver, config, hconfig, hsent, hat⟩ =>
    by_cases hseen : call.request.domain = domain ∧ windowStart limit.unit call.now = window
    · obtain ⟨rfl, rfl⟩ := hseen
      have hlimits : ∀ p ∈ call.request.descriptors.zip (limitsToCheck config call.request),
          p.1 = descriptor → ∃ l, p.2 = some l ∧ l.limit = limit := by
        intro p hp hd
        rw [limitsToCheck, ← map_prod_left_eq_zip] at hp
        obtain ⟨d, -, rfl⟩ := mem_map.mp hp
        obtain ⟨l, hl, hlimit'⟩ := hlimit config hconfig
        refine ⟨l, ?_, hlimit'⟩
        rw [← hl, ← hd]
      rw [hsent] at hfits hat hserver
      rw [redis, Server.pipeline_ofStep] at hat hserver
      obtain ⟨hits, hans, hsum, hcodes⟩ := attributed_hits cache (max 1 call.request.hitsAddend)
        call.jitter call.request.domain call.now descriptor limit _ 0 w.server response.statuses
        rfl hlimits hcount hfits hat
      refine ⟨hits, hans, ?_, ?_⟩
      · rw [hserver]
        exact hsum
      · rw [hcodes, limitsToCheck, codesOf_zip]
        simp [observed]
    · obtain ⟨hits, hans, hsum, hnone⟩ := unanswered_hits limit.requestsPerUnit.toNat w.server _ _
        hserver (windowKey domain descriptor window)
      exact ⟨hits, hans, hsum, by simp [hnone, observed, hseen]⟩

theorem serve_hits (calls : List Call) (w : World Counters)
    (hlimit : ∀ call ∈ calls, ∀ config, call.config = some config →
      ∃ l, Config.getLimit config domain descriptor = some l ∧ l.limit = limit)
    (hcount : 0 ≤ w.server (windowKey domain descriptor window))
    (hfits : RunFits cache (windowKey domain descriptor window) limit.requestsPerUnit w calls) :
    ∃ hits, Answered limit.requestsPerUnit.toNat
        (w.server (windowKey domain descriptor window)) hits ∧
      answers hits = ((serve redis cache w calls).flatMap
        (observed domain descriptor limit.unit window)).map fun x => (x.1, decide (x.2 = .ok)) := by
  induction calls generalizing w with
  | nil => exact ⟨[], trivial, rfl⟩
  | cons call calls ih =>
    obtain ⟨hfirst, hlater⟩ := hfits
    obtain ⟨hits, hans, hsum, hobs⟩ := shouldRateLimit_hits cache call w
      (hlimit call (by simp)) hcount hfirst
    obtain ⟨hits', hans', hobs'⟩ := ih (shouldRateLimit redis cache call w).2
      (fun call hcall => hlimit call (by simp [hcall])) (by omega) hlater
    refine ⟨hits ++ hits', ?_, ?_⟩
    · rw [hsum] at hans'
      exact (answered_append _ _ _ _).mpr ⟨hans, hans'⟩
    · rw [answers_append, hobs, hobs']
      simp [serve]

theorem Attributed.code_eq {items : List (Bytes × Option Config.RateLimit)}
    (h : Attributed hitsAddend items replies statuses) :
    ∀ status ∈ statuses, status.code = .ok ∨ status.code = .overLimit := by
  induction h with
  | nil => simp
  | unlimited h ih =>
    intro status hstatus
    rcases mem_cons.mp hstatus with rfl | hstatus
    · exact .inl rfl
    · exact ih status hstatus
  | limited value reply h ih =>
    intro status hstatus
    rcases mem_cons.mp hstatus with rfl | hstatus
    · rw [checkLimit_code]
      split
      · exact .inr rfl
      · exact .inl rfl
    · exact ih status hstatus

theorem observed_code (calls : List Call) (w : World Counters) :
    ∀ x ∈ (serve redis cache w calls).flatMap (observed domain descriptor limit.unit window),
      x.2 = .ok ∨ x.2 = .overLimit := by
  induction calls generalizing w with
  | nil => simp [serve]
  | cons call calls ih =>
    intro x hx
    simp only [serve, flatMap_cons, mem_append] at hx
    rcases hx with hx | hx
    · have hout := shouldRateLimit_outcome redis cache call w
      generalize shouldRateLimit redis cache call w = res at hout hx
      obtain ⟨outcome, w'⟩ := res
      match outcome, hout with
      | .ok (.error text), _ => simp [observed] at hx
      | .ok (.ok response), ⟨_, config, _, _, hat⟩ =>
        by_cases hseen : call.request.domain = domain ∧ windowStart limit.unit call.now = window
        · simp only [observed, hseen, and_self, if_true, mem_map, mem_filter] at hx
          obtain ⟨p, ⟨hp, -⟩, rfl⟩ := hx
          exact hat.code_eq p.2 (of_mem_zip hp).2
        · simp [observed, hseen] at hx
    · exact ih _ x hx

theorem okSum_eq (xs : List (Nat × Pb.Code)) :
    okSum xs = admittedSum (xs.map fun x => (x.1, decide (x.2 = .ok))) := by
  simp [okSum, admittedSum, filter_map, Function.comp_def]

/-- In a run whose calls never wrap the counter of the window, the hits answered OK fit
in the limit, and after an OVER_LIMIT every answer is OVER_LIMIT. -/
theorem shouldRateLimit_sound (cache : RateLimitCacheImpl) (domain : Bytes)
    (descriptor : Pb.RateLimitDescriptor) (limit : Pb.RateLimit) (window : Int)
    (calls : List Call) (w : World Counters)
    (hlimit : ∀ call ∈ calls, ∀ config, call.config = some config →
      ∃ l, Config.getLimit config domain descriptor = some l ∧ l.limit = limit)
    (hcount : 0 ≤ w.server (windowKey domain descriptor window))
    (hfits : RunFits cache (windowKey domain descriptor window) limit.requestsPerUnit w calls) :
    let seen := (serve redis cache w calls).flatMap (observed domain descriptor limit.unit window)
    okSum seen ≤ limit.requestsPerUnit.toNat ∧
      seen.Pairwise fun x y => x.2 = .overLimit → y.2 = .overLimit := by
  intro seen
  obtain ⟨hits, hans, hseen⟩ := serve_hits cache calls w hlimit hcount hfits
  constructor
  · have hsum := admittedSum_le_of_answered _ _ _ hans
    rw [hseen, ← okSum_eq] at hsum
    change okSum ((serve redis cache w calls).flatMap _) ≤ _
    omega
  · have hpairs := pairwise_of_answered _ _ _ hans
    rw [hseen, pairwise_map] at hpairs
    refine hpairs.imp_of_mem ?_
    intro x y hx hy hxy hover
    have hrefused := hxy (by simp [hover])
    rcases observed_code cache calls w y hy with hok | hover'
    · simp [hok] at hrefused
    · exact hover'

def userConfig : Config.RateLimitConfigImpl :=
  ⟨[(ascii "mobile", .mk [(ascii "user", .mk []
    (some collidingLimit))] none)]⟩

def userCall (hitsAddend : UInt32) : Call where
  request := ⟨ascii "mobile", [⟨[⟨ascii "user", ascii "a"⟩]⟩], hitsAddend⟩
  config := some userConfig
  connect := .ok ()
  now := 1234
  jitter := fun _ => 0

def emptyRedis : World Counters := ⟨fun _ => 0, .new, fun _ => 0⟩

theorem shouldRateLimit_sound_user :
    let calls := [userCall 7, userCall 4]
    let seen := (serve redis ⟨0⟩ emptyRedis calls).flatMap
      (observed (ascii "mobile") ⟨[⟨ascii "user", ascii "a"⟩]⟩ .minute 1200)
    okSum seen ≤ 10 ∧ seen.Pairwise fun x y => x.2 = .overLimit → y.2 = .overLimit :=
  shouldRateLimit_sound ⟨0⟩ (ascii "mobile") ⟨[⟨ascii "user", ascii "a"⟩]⟩ ⟨10, .minute⟩ 1200
    [userCall 7, userCall 4] emptyRedis
    (by
      intro call hcall config hconfig
      simp only [mem_cons, not_mem_nil, or_false] at hcall
      rcases hcall with rfl | rfl <;>
        obtain rfl := Option.some.inj hconfig <;>
        exact ⟨_, rfl, rfl⟩)
    (by decide) ⟨by unfold Fits; decide, by unfold Fits; decide, trivial⟩

/-- A hit of 2^32 - 1 is refused, and the next single hit finds the counter at 2^32 and
is admitted. -/
theorem shouldRateLimit_wraps :
    (serve redis ⟨0⟩ emptyRedis [userCall 4294967295, userCall 1]).flatMap
      (observed (ascii "mobile") ⟨[⟨ascii "user", ascii "a"⟩]⟩ .minute 1200) =
        [(4294967295, .overLimit), (1, .ok)] ∧
    ¬ ((serve redis ⟨0⟩ emptyRedis [userCall 4294967295, userCall 1]).flatMap
      (observed (ascii "mobile") ⟨[⟨ascii "user", ascii "a"⟩]⟩ .minute 1200)).Pairwise
        fun x y => x.2 = .overLimit → y.2 = .overLimit := by
  constructor <;> decide

end Meliproxy.Ratelimit
