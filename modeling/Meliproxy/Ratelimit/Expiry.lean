import Meliproxy.Ratelimit.Pipeline

/-!
# Counters that expire

Redis as a map from keys to counts with an expiry. Every hit refreshes the expiry of its
key to at least one unit from now, so a key outlives the window that it counts, unless
a hit of a shorter unit shares the key.
-/

namespace Meliproxy.Ratelimit

open Lib List Option

structure Counter where
  count : Int
  expiry : Option Int

structure Store where
  clock : Int
  counters : Bytes → Option Counter

namespace Store

variable (s : Store)

def alive (counter : Counter) : Bool :=
  match counter.expiry with
  | none => true
  | some expiry => s.clock < expiry

def find (key : Bytes) : Option Counter :=
  (s.counters key).filter s.alive

def set (key : Bytes) (counter : Counter) : Store :=
  { s with counters := fun k => if k = key then some counter else s.counters k }

/-- `INCRBY` keeps the expiry of a living key, and a new key has none. -/
def incremented (key : Bytes) (amount : UInt32) : Counter :=
  match s.find key with
  | some counter => { counter with count := counter.count + amount.toNat }
  | none => ⟨amount.toNat, none⟩

def exec : Cmd → Store × Resp
  | .incrBy key amount => (s.set key (s.incremented key amount), .int (s.incremented key amount).count)
  | .expire key seconds =>
    match s.find key with
    | some counter => (s.set key { counter with expiry := some (s.clock + seconds) }, .int 1)
    | none => (s, .int 0)

end Store

def expiringRedis : Server Store := Server.ofStep Store.exec

/-- A call of `DoLimit`. -/
structure LimitCall where
  request : Pb.RateLimitRequest
  limits : List (Option Config.RateLimit)
  length_eq : request.descriptors.length = limits.length
  connect : Except Bytes Unit
  now : Int
  jitter : Nat → Int

/-- One counted hit. -/
structure WindowHit where
  domain : Bytes
  descriptor : Pb.RateLimitDescriptor
  unit : Pb.RateLimitUnit
  now : Int
  amount : Nat

def WindowHit.key (hit : WindowHit) : Bytes :=
  cacheKey hit.domain hit.descriptor hit.unit hit.now

def hitsOf (domain : Bytes) (now : Int) (hitsAddend : UInt32)
    (ps : List (Pb.RateLimitDescriptor × Option Config.RateLimit)) : List WindowHit :=
  ps.filterMap fun p => p.2.map fun limit =>
    ⟨domain, p.1, limit.limit.unit, now, hitsAddend.toNat⟩

/-- The hits of a call, one for each descriptor that has a limit. -/
def LimitCall.hits (call : LimitCall) : List WindowHit :=
  match call.connect with
  | .error _ => []
  | .ok _ => hitsOf call.request.domain call.now (max 1 call.request.hitsAddend)
    (call.request.descriptors.zip call.limits)

/-- The replies to the `INCRBY` commands. -/
def incrValues : List Resp → List Int
  | .int value :: _ :: replies => value :: incrValues replies
  | _ => []

def returnedValues (this : RateLimitCacheImpl) : World Store → List LimitCall → List Int
  | _, [] => []
  | w, call :: calls =>
    let out := doLimit expiringRedis this call.connect call.request call.limits call.now call.jitter
      { w with server := { w.server with clock := call.now } }
    let values := if out.disposal = none then [] else incrValues out.world.conn.replies
    values ++ returnedValues this out.world calls

variable (past : List WindowHit)

/-- What the counter should hold after `hit`: the hits of its key in its window. -/
def windowSum (hit : WindowHit) : Nat :=
  (((past ++ [hit]).filter fun h => h.key = hit.key ∧
    windowStart hit.unit h.now = windowStart hit.unit hit.now).map WindowHit.amount).sum

def keySum (key : Bytes) : Nat :=
  ((past.filter fun h => h.key = key).map WindowHit.amount).sum

variable (unit : Pb.RateLimitUnit)

theorem windowStart_le (now : Int) (h : 0 ≤ now) :
    windowStart unit now ≤ now := by
  have hpos := divider_pos unit
  rw [windowStart, Int.tdiv_eq_ediv_of_nonneg h]
  exact Int.ediv_mul_le _ (by omega)

theorem lt_windowStart_add (now : Int) (h : 0 ≤ now) :
    now < windowStart unit now + divider unit := by
  have hpos := divider_pos unit
  rw [windowStart, Int.tdiv_eq_ediv_of_nonneg h]
  have := Int.lt_ediv_add_one_mul_self now hpos
  rw [Int.add_mul] at this
  omega

theorem windowStart_eq_of_mem (now t : Int) (h : 0 ≤ now) (ht : 0 ≤ t)
    (hle : windowStart unit now ≤ t) (hlt : t ≤ now) : windowStart unit t = windowStart unit now := by
  have hpos := divider_pos unit
  have hbound := lt_windowStart_add unit now h
  simp only [windowStart, Int.tdiv_eq_ediv_of_nonneg h, Int.tdiv_eq_ediv_of_nonneg ht] at *
  have hq : t / divider unit = now / divider unit := by
    apply Int.le_antisymm
    · exact Int.ediv_le_ediv hpos hlt
    · exact (Int.le_ediv_iff_mul_le hpos).mpr hle
  rw [hq]

theorem windowStart_eq_of_key {a b : WindowHit} (h : a.key = b.key) :
    windowStart a.unit a.now = windowStart b.unit b.now :=
  ((cacheKey_eq_iff _ _ _ _ _ _ _ _).mp h).2

/-- A hit `b` that comes after `a` is of a unit that is not longer, if they share a key. -/
def NotAfterShorter (a b : WindowHit) : Prop :=
  a.key = b.key → divider b.unit ≤ divider a.unit

/-- `hit` may follow `past`: the clock has not gone back and no hit of a shorter unit
came before on the same key. -/
structure Follows (hit : WindowHit) : Prop where
  now_nonneg : 0 ≤ hit.now
  past_nonneg : ∀ h ∈ past, 0 ≤ h.now
  past_le : ∀ h ∈ past, h.now ≤ hit.now
  notAfterShorter : ∀ h ∈ past, NotAfterShorter h hit

theorem windowSum_eq (hit : WindowHit) (h : Follows past hit) :
    windowSum past hit = keySum past hit.key + hit.amount := by
  have hfilter : past.filter (fun h => h.key = hit.key ∧
      windowStart hit.unit h.now = windowStart hit.unit hit.now) =
      past.filter fun h => h.key = hit.key := by
    apply filter_congr
    intro x hx
    simp only [decide_eq_decide, and_iff_left_iff_imp]
    intro hkey
    have hstart := windowStart_eq_of_key hkey
    apply windowStart_eq_of_mem _ _ _ h.now_nonneg (h.past_nonneg x hx) _ (h.past_le x hx)
    rw [← hstart]
    exact windowStart_le _ _ (h.past_nonneg x hx)
  rw [windowSum, filter_append, hfilter]
  simp [keySum]

namespace Store

/-- No hit has been lost, and every key lives at least one unit from some hit on it. -/
def Counts (s : Store) (past : List WindowHit) : Prop :=
  ∀ key, match s.counters key with
    | none => ∀ h ∈ past, h.key ≠ key
    | some counter => counter.count = keySum past key ∧
      ∃ h ∈ past, h.key = key ∧
        ∃ expiry, counter.expiry = some expiry ∧ h.now + divider h.unit ≤ expiry

variable (s : Store) (key : Bytes)

theorem counts_incremented (past : List WindowHit) (hit : WindowHit) (amount : UInt32)
    (hs : s.Counts past) (hclock : s.clock = hit.now) (h : Follows past hit) :
    (s.incremented hit.key amount).count = keySum past hit.key + amount.toNat := by
  have hkey := hs hit.key
  cases hc : s.counters hit.key with
  | none =>
    rw [hc] at hkey
    have hnone : past.filter (fun h => h.key = hit.key) = [] := by
      simpa [filter_eq_nil_iff] using hkey
    simp [incremented, find, hc, keySum, hnone]
  | some counter =>
    rw [hc] at hkey
    obtain ⟨hcount, x, hx, hxkey, expiry, hexpiry, hle⟩ := hkey
    have hstart := windowStart_eq_of_key hxkey
    have hbefore := lt_windowStart_add hit.unit hit.now h.now_nonneg
    have hafter := windowStart_le x.unit x.now (h.past_nonneg x hx)
    have hunit := h.notAfterShorter x hx hxkey
    have halive : s.alive counter = true := by
      simp only [alive, hexpiry, decide_eq_true_eq]
      omega
    have hfind : s.find hit.key = some counter := by
      rw [find, hc, filter_some_pos halive]
    simp [incremented, hfind, hcount]

theorem set_set (a b : Counter) : (s.set key a).set key b = s.set key b := by
  simp only [set, Store.mk.injEq, true_and]
  funext k
  by_cases hk : k = key
  · simp [hk]
  · simp [hk]

theorem find_set_incremented (amount : UInt32) :
    (s.set key (s.incremented key amount)).find key = some (s.incremented key amount) := by
  have halive : s.alive (s.incremented key amount) = true := by
    unfold incremented
    cases hf : s.find key with
    | none => rfl
    | some counter =>
      have hsome := filter_eq_some_iff.mp hf
      simpa [alive] using hsome.2
  simp only [find, set, if_true]
  simpa [alive] using halive

theorem execAll_hit (amount : UInt32) (seconds : Int) (cmds : List Cmd) :
    execAll exec s (.incrBy key amount :: .expire key seconds :: cmds) =
      let next := s.set key ⟨(s.incremented key amount).count, some (s.clock + seconds)⟩
      ((execAll exec next cmds).1,
        .int (s.incremented key amount).count :: .int 1 :: (execAll exec next cmds).2) := by
  simp only [execAll, exec, find_set_incremented, set_set]
  rfl

theorem counts_set (past : List WindowHit) (hit : WindowHit) (count expiry : Int)
    (hs : s.Counts past) (hcount : count = keySum past hit.key + hit.amount)
    (hexpiry : hit.now + divider hit.unit ≤ expiry) :
    (s.set hit.key ⟨count, some expiry⟩).Counts (past ++ [hit]) := by
  intro key
  by_cases hkey : key = hit.key
  · subst hkey
    simp only [set, if_true]
    refine ⟨by simp [keySum, filter_append, hcount], hit, by simp, rfl, expiry, rfl, hexpiry⟩
  · have hold := hs key
    simp only [set, hkey, if_false]
    cases hc : s.counters key with
    | none =>
      rw [hc] at hold
      intro h hmem
      rcases mem_append.mp hmem with hmem | hmem
      · exact hold h hmem
      · obtain rfl := mem_singleton.mp hmem
        exact fun h => hkey h.symm
    | some counter =>
      rw [hc] at hold
      obtain ⟨hsum, h, hmem, hrest⟩ := hold
      refine ⟨?_, h, mem_append_left _ hmem, hrest⟩
      simp [keySum, filter_append, hsum, Ne.symm hkey]

end Store

def windowSums : List WindowHit → List WindowHit → List Int
  | _, [] => []
  | past, hit :: hits => windowSum past hit :: windowSums (past ++ [hit]) hits

/-- The hits of a run: the clock never goes back, and no hit comes after one of a shorter
unit on the same key. -/
def Orderly (hits : List WindowHit) : Prop :=
  (∀ hit ∈ hits, 0 ≤ hit.now) ∧ hits.Pairwise (fun a b => a.now ≤ b.now ∧ NotAfterShorter a b)

theorem Orderly.follows {past hits : List WindowHit} {hit : WindowHit}
    (h : Orderly (past ++ hit :: hits)) : Follows past hit := by
  obtain ⟨hnonneg, hpairs⟩ := h
  have hpair := (pairwise_append.mp hpairs).2.2
  exact ⟨hnonneg hit (by simp), fun x hx => hnonneg x (by simp [hx]),
    fun x hx => (hpair x hx hit (by simp)).1, fun x hx => (hpair x hx hit (by simp)).2⟩

variable (this : RateLimitCacheImpl)

/-- The jitter values are in the range that `Int63n` draws from. -/
def JitterInRange (jitter : Nat → Int) : Prop :=
  0 < this.expirationJitterMaxSeconds →
    ∀ i, 0 ≤ jitter i ∧ jitter i < this.expirationJitterMaxSeconds

theorem divider_le_expirationSeconds (jitter : Nat → Int)
    (hjitter : JitterInRange this jitter) (i : Nat) (limit : Config.RateLimit) :
    divider limit.limit.unit ≤ expirationSeconds this jitter i limit := by
  by_cases hmax : 0 < this.expirationJitterMaxSeconds
  · have hrange := hjitter hmax i
    simp only [expirationSeconds, gt_iff_lt, if_pos hmax]
    omega
  · simp only [expirationSeconds, gt_iff_lt, if_neg hmax]
    omega

theorem execAll_windowSums (domain : Bytes) (now : Int)
    (hitsAddend : UInt32) (jitter : Nat → Int) (hjitter : JitterInRange this jitter)
    (ps : List (Pb.RateLimitDescriptor × Option Config.RateLimit)) (i : Nat) (s : Store)
    (past later : List WindowHit) (hs : s.Counts past) (hclock : s.clock = now)
    (hrun : Orderly (past ++ (hitsOf domain now hitsAddend ps ++ later))) :
    incrValues (execAll Store.exec s
        (pipelineCmds this hitsAddend jitter i (pipelineItems domain now ps))).2 =
      windowSums past (hitsOf domain now hitsAddend ps) ∧ (execAll Store.exec s
        (pipelineCmds this hitsAddend jitter i (pipelineItems domain now ps))).1.Counts
      (past ++ hitsOf domain now hitsAddend ps) := by
  induction ps generalizing i s past with
  | nil => exact ⟨rfl, by simpa [hitsOf, pipelineItems, pipelineCmds, execAll] using hs⟩
  | cons p rest ih =>
    obtain ⟨descriptor, limit⟩ := p
    cases limit with
    | none => exact ih (i + 1) s past hs hclock hrun
    | some limit =>
      let hit : WindowHit := ⟨domain, descriptor, limit.limit.unit, now, hitsAddend.toNat⟩
      have hhits : hitsOf domain now hitsAddend ((descriptor, some limit) :: rest) =
          hit :: hitsOf domain now hitsAddend rest := rfl
      have hcmds : pipelineCmds this hitsAddend jitter i
          (pipelineItems domain now ((descriptor, some limit) :: rest)) =
          .incrBy hit.key hitsAddend ::
            .expire hit.key (expirationSeconds this jitter i limit) ::
              pipelineCmds this hitsAddend jitter (i + 1) (pipelineItems domain now rest) := rfl
      rw [hhits, cons_append] at hrun
      have hfollows := hrun.follows
      have hcount := s.counts_incremented past hit hitsAddend hs hclock hfollows
      have hexpiry := divider_le_expirationSeconds this jitter hjitter i limit
      have hnext := s.counts_set past hit (s.incremented hit.key hitsAddend).count
        (s.clock + expirationSeconds this jitter i limit) hs hcount (by
          change now + divider limit.limit.unit ≤ _
          omega)
      have hrun' : Orderly ((past ++ [hit]) ++ (hitsOf domain now hitsAddend rest ++ later)) := by
        simpa using hrun
      obtain ⟨hvalues, hcounts⟩ := ih (i + 1) _ (past ++ [hit]) hnext hclock hrun'
      have hvalue : (s.incremented hit.key hitsAddend).count = windowSum past hit := by
        rw [hcount, windowSum_eq past hit hfollows]
        simp [hit]
      rw [hhits, hcmds, Store.execAll_hit]
      refine ⟨congrArg₂ List.cons hvalue hvalues, ?_⟩
      simpa using hcounts

theorem Store.exec_isInt (s : Store) (cmd : Cmd) : (s.exec cmd).2.isInt = true := by
  cases cmd with
  | incrBy key amount => rfl
  | expire key seconds => cases h : s.find key <;> simp [Store.exec, h, Resp.isInt]

theorem Store.execAll_isInt (s : Store) (cmds : List Cmd) :
    ∀ reply ∈ (execAll Store.exec s cmds).2, reply.isInt = true := by
  induction cmds generalizing s with
  | nil => simp [execAll]
  | cons cmd cmds ih =>
    intro reply hreply
    rcases mem_cons.mp hreply with rfl | hreply
    · exact s.exec_isInt cmd
    · exact ih _ reply hreply

/-- Redis as modelled here always answers with integers, so a call reads all its
replies. -/
theorem doLimit_expiring (call : LimitCall) (w : World Store)
    (h : call.connect = .ok ()) :
    let out := doLimit expiringRedis this call.connect call.request call.limits call.now call.jitter w
    let cmds := callCmds this call.request call.limits call.now call.jitter
    out.disposal ≠ none ∧ out.world.server = (execAll Store.exec w.server cmds).1 ∧
      out.world.conn.replies = (execAll Store.exec w.server cmds).2 := by
  obtain ⟨unread, hran⟩ := doLimit_ran expiringRedis this call.request call.limits call.now
    call.jitter w call.length_eq
  have hserver := hran.server_eq
  have hreplies := hran.replies_eq
  have hresult := hran.result
  simp only [expiringRedis, Server.pipeline_ofStep] at hserver hreplies hresult
  rw [h]
  refine ⟨by simp [hran.disposal_eq], hserver, ?_⟩
  rcases hresult with ⟨statuses, -, rfl, -⟩ | ⟨text, -, reply, hmem, hbad⟩
  · rw [append_nil] at hreplies
    exact hreplies
  · have := w.server.execAll_isInt _ reply hmem
    simp [hbad] at this

theorem windowSums_append (past hits hits' : List WindowHit) :
    windowSums past (hits ++ hits') = windowSums past hits ++ windowSums (past ++ hits) hits' := by
  induction hits generalizing past with
  | nil => simp [windowSums]
  | cons hit hits ih => simp [windowSums, ih]

variable (calls : List LimitCall)

theorem returnedValues_windowSums (hjitter : ∀ call ∈ calls, JitterInRange this call.jitter)
    (w : World Store)
    (past : List WindowHit) (hw : w.server.Counts past)
    (hrun : Orderly (past ++ calls.flatMap LimitCall.hits)) :
    returnedValues this w calls = windowSums past (calls.flatMap LimitCall.hits) := by
  induction calls generalizing w past with
  | nil => rfl
  | cons call calls ih =>
    have hrest : ∀ call ∈ calls, JitterInRange this call.jitter :=
      fun call hcall => hjitter call (by simp [hcall])
    cases hconnect : call.connect with
    | error text =>
      have hhits : call.hits = [] := by simp [LimitCall.hits, hconnect]
      have hvalues := ih hrest { w with server := { w.server with clock := call.now } } past hw
        (by simpa [hhits] using hrun)
      simpa [returnedValues, doLimit, hconnect, hhits] using hvalues
    | ok u =>
      have hhits : call.hits = hitsOf call.request.domain call.now (max 1 call.request.hitsAddend)
          (call.request.descriptors.zip call.limits) := by simp [LimitCall.hits, hconnect]
      obtain ⟨hput, hserver, hreplies⟩ := doLimit_expiring this call
        { w with server := { w.server with clock := call.now } } hconnect
      rw [flatMap_cons] at hrun ⊢
      have hcall := execAll_windowSums this call.request.domain call.now
        (max 1 call.request.hitsAddend) call.jitter (hjitter call (by simp))
        (call.request.descriptors.zip call.limits) 0 { w.server with clock := call.now } past
        (calls.flatMap LimitCall.hits) hw rfl (by rw [← hhits]; exact hrun)
      rw [← hhits] at hcall
      obtain ⟨hvalues, hcounts⟩ := hcall
      rw [windowSums_append, returnedValues, if_neg hput, hreplies]
      refine congrArg₂ _ hvalues (ih hrest _ (past ++ call.hits) ?_ (by simpa using hrun))
      rw [hserver]
      exact hcounts

theorem windowSums_get (hits past : List WindowHit) (n : Nat) (hit : WindowHit)
    (h : hits[n]? = some hit) :
    (windowSums past hits)[n]? = some (windowSum (past ++ hits.take n) hit : Int) := by
  induction hits generalizing past n with
  | nil => simp at h
  | cons first hits ih =>
    cases n with
    | zero =>
      obtain rfl : first = hit := by simpa using h
      simp [windowSums]
    | succ n => simpa [windowSums] using ih (past ++ [first]) n (by simpa using h)

theorem length_windowSums (hits past : List WindowHit) :
    (windowSums past hits).length = hits.length := by
  induction hits generalizing past with
  | nil => rfl
  | cons first hits ih => simp [windowSums, ih]

theorem LimitCall.mem_hits_now {call : LimitCall} {hit : WindowHit} (h : hit ∈ call.hits) :
    hit.now = call.now := by
  unfold LimitCall.hits at h
  split at h
  · simp at h
  · obtain ⟨p, -, hp⟩ := mem_filterMap.mp h
    obtain ⟨limit, -, rfl⟩ := map_eq_some_iff.mp hp
    rfl

theorem orderly_hits (hnow : ∀ call ∈ calls, 0 ≤ call.now)
    (hclock : calls.Pairwise fun a b => a.now ≤ b.now)
    (hunits : (calls.flatMap LimitCall.hits).Pairwise NotAfterShorter) :
    Orderly (calls.flatMap LimitCall.hits) := by
  constructor
  · intro hit hhit
    obtain ⟨call, hcall, hhit⟩ := mem_flatMap.mp hhit
    rw [LimitCall.mem_hits_now hhit]
    exact hnow call hcall
  · refine List.Pairwise.and ?_ hunits
    refine pairwise_flatMap.mpr ⟨?_, hclock.imp ?_⟩
    · intro call hcall
      refine pairwise_of_forall_mem_list ?_
      intro a ha b hb
      have hna := LimitCall.mem_hits_now ha
      have hnb := LimitCall.mem_hits_now hb
      omega
    · intro a b hab x hx y hy
      rw [LimitCall.mem_hits_now hx, LimitCall.mem_hits_now hy]
      exact hab

/-- Every value that a sequence of calls gets back is the sum of the hits of its key in
its window up to then, as long as no hit comes after one of a shorter unit on the same
key. -/
theorem returnedValues_window (w : World Store) (hw : ∀ key, w.server.counters key = none)
    (hjitter : ∀ call ∈ calls, JitterInRange this call.jitter)
    (hclock : calls.Pairwise fun a b => a.now ≤ b.now)
    (hnow : ∀ call ∈ calls, 0 ≤ call.now)
    (hunits : (calls.flatMap LimitCall.hits).Pairwise NotAfterShorter) :
    let hits := calls.flatMap LimitCall.hits
    (returnedValues this w calls).length = hits.length ∧
      ∀ n hit, hits[n]? = some hit →
        (returnedValues this w calls)[n]? = some (windowSum (hits.take n) hit : Int) := by
  intro hits
  have hstart : w.server.Counts [] := by
    intro key
    rw [hw key]
    simp
  have hvalues := returnedValues_windowSums this calls hjitter w [] hstart
    (orderly_hits calls hnow hclock hunits)
  rw [hvalues]
  refine ⟨length_windowSums _ _, ?_⟩
  intro n hit hhit
  simpa using windowSums_get hits [] n hit hhit

def entryCall (key value : Bytes) (unit : Pb.RateLimitUnit) (h : unit ≠ .unknown) (now : Int) :
    LimitCall where
  request := ⟨ascii "mobile", [⟨[⟨key, value⟩]⟩], 1⟩
  limits := [some (Config.newRateLimit 10 unit h (ascii "mobile" ++ ascii "." ++ key))]
  length_eq := rfl
  connect := .ok ()
  now := now
  jitter := fun _ => 0

def emptyStore : World Store := ⟨⟨0, fun _ => none⟩, .new, fun _ => 0⟩

theorem returnedValues_window_day :
    let calls := [entryCall (ascii "a") (ascii "b_c") .day (by decide) 86400,
      entryCall (ascii "a") (ascii "b_c") .day (by decide) 90000]
    (returnedValues ⟨0⟩ emptyStore calls).length = 2 :=
  (returnedValues_window ⟨0⟩
    [entryCall (ascii "a") (ascii "b_c") .day (by decide) 86400,
      entryCall (ascii "a") (ascii "b_c") .day (by decide) 90000] emptyStore (fun _ => rfl)
    (fun _ _ h => absurd h (by decide)) (by simp [entryCall]) (by simp [entryCall])
    (by simp [LimitCall.hits, hitsOf, entryCall, NotAfterShorter, Config.newRateLimit])).1

/-- With a limit per day on the key `a` and one per second on the key `a_b`, the entries
`("a", "b_c")` and `("a_b", "c")` share a key at the start of a day, and it is gone
after a second. -/
theorem returnedValues_expires_early :
    let calls := [entryCall (ascii "a") (ascii "b_c") .day (by decide) 86400,
      entryCall (ascii "a_b") (ascii "c") .second (by decide) 86400,
      entryCall (ascii "a") (ascii "b_c") .day (by decide) 90000]
    let hits := calls.flatMap LimitCall.hits
    returnedValues ⟨0⟩ emptyStore calls = [1, 2, 1] ∧
      hits[2]?.map (windowSum (hits.take 2)) = some 3 := by
  constructor <;> decide

end Meliproxy.Ratelimit
