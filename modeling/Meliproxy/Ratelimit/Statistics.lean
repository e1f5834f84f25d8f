import Meliproxy.Ratelimit.Soundness
import Meliproxy.Ratelimit.Expiry

/-!
# The counters of a limit

What `DoLimit` adds to the three counters of a limit depends on the hits of its key, not on how
they are batched: `Counts` says what the counters hold when the key has reached a value, and every
hit keeps it.
-/

namespace Meliproxy.Ratelimit

open Lib List World

variable {σ : Type}

theorem roundFloat32_le (n : Nat) : roundFloat32 n * 2 ^ 23 ≤ n * (2 ^ 23 + 1) := by
  unfold roundFloat32
  split
  · omega
  · rename_i hlarge
    have hne : n ≠ 0 := by omega
    have hlog : 24 ≤ Nat.log2 n := by
      apply (Nat.le_log2 hne).mpr
      omega
    have hunit : 2 ^ (Nat.log2 n - 23) * 2 ^ 23 ≤ n := by
      rw [← Nat.pow_add, Nat.sub_add_cancel (by omega)]
      exact (Nat.le_log2 hne).mp (Nat.le_refl _)
    have hquotient := Nat.div_mul_le_self n (2 ^ (Nat.log2 n - 23))
    dsimp only
    generalize 2 ^ (Nat.log2 n - 23) = unit at hunit hquotient ⊢
    generalize n / unit = quotient at hquotient ⊢
    have hup : (quotient + 1) * unit * 2 ^ 23 ≤ n * (2 ^ 23 + 1) := by
      rw [Nat.add_mul, Nat.one_mul, Nat.add_mul, Nat.mul_succ]
      exact Nat.add_le_add (Nat.mul_le_mul_right _ hquotient) hunit
    split
    · apply Nat.le_trans _ hup
      apply Nat.mul_le_mul_right
      apply Nat.mul_le_mul_right
      exact Nat.le_succ quotient
    · exact hup

theorem nearLimitThreshold_le (threshold : UInt32) :
    (nearLimitThreshold threshold).toNat ≤ threshold.toNat := by
  have hinner := roundFloat32_le threshold.toNat
  have houter := roundFloat32_le (roundFloat32 threshold.toNat * 13421773)
  have hlt := threshold.toNat_lt
  have hle : roundFloat32 (roundFloat32 threshold.toNat * 13421773) / 2 ^ 24 ≤ threshold.toNat := by
    apply Nat.div_le_of_le_mul
    omega
  have hnat : (nearLimitThreshold threshold).toNat =
      roundFloat32 (roundFloat32 threshold.toNat * 13421773) / 2 ^ 24 := by
    apply UInt32.toNat_ofNat_of_lt'
    change _ < 2 ^ 32
    omega
  omega

def fetchedStats (hitsAddend : UInt32) :
    List (Bytes × Option Config.RateLimit) → List Resp → List (Bytes × UInt64)
  | (_, none) :: items, replies => fetchedStats hitsAddend items replies
  | (_, some limit) :: items, .int value :: _ :: replies =>
    (checkLimit limit hitsAddend (UInt32.ofInt value)).2 ++ fetchedStats hitsAddend items replies
  | _, _ => []

theorem World.addAll_append (w : World σ) (xs ys : List (Bytes × UInt64)) :
    w.addAll (xs ++ ys) = (w.addAll xs).addAll ys := foldl_append

theorem World.addStat_same (w : World σ) (name : Bytes) (amount : UInt64) :
    ((w.addStat name amount).stats name).toNat = ((w.stats name).toNat + amount.toNat) % 2 ^ 64 := by
  change (if name = name then w.stats name + amount else w.stats name).toNat = _
  rw [if_pos rfl, UInt64.toNat_add]

variable {counter : Bytes}

theorem World.addStat_other (w : World σ) {name : Bytes} (hne : counter ≠ name) (amount : UInt64) :
    (w.addStat name amount).stats counter = w.stats counter := if_neg hne

theorem World.addAll_other (w : World σ) {amounts : List (Bytes × UInt64)}
    (hne : ∀ amount ∈ amounts, counter ≠ amount.1) :
    (w.addAll amounts).stats counter = w.stats counter := by
  induction amounts generalizing w with
  | nil => rfl
  | cons amount amounts ih =>
    apply (ih (w.addStat amount.1 amount.2)
      fun amount hmem => hne amount (mem_cons_of_mem _ hmem)).trans
    exact w.addStat_other (hne amount mem_cons_self) amount.2

variable {w w' : World σ}

theorem World.addAll_stats (h : w.stats = w'.stats) (amounts : List (Bytes × UInt64)) :
    (w.addAll amounts).stats = (w'.addAll amounts).stats := by
  induction amounts generalizing w w' with
  | nil => exact h
  | cons amount amounts ih =>
    apply ih
    funext counter
    change (if counter = amount.1 then w.stats counter + amount.2 else w.stats counter) = _
    rw [h]
    rfl

theorem pipeResponse_stats {server : Server σ} {reply : Resp}
    (h : pipeResponse server w = .ok reply w') : w'.stats = w.stats := by
  have hflush : ∀ w : World σ, (w.flush server).stats = w.stats := by
    intro w
    unfold World.flush
    split <;> rfl
  have hpop : ∀ w : World σ, w.popReply.2.stats = w.stats := by
    intro w
    unfold World.popReply
    split <;> rfl
  have hresp : ∀ w : World σ, (w.pipeResp server).2.stats = w.stats := by
    intro w
    unfold World.pipeResp
    split
    · rw [hpop, hflush]
    · exact hpop w
  unfold pipeResponse at h
  split at h
  · cases h
  · dsimp only at h
    split at h
    · cases h
    · rename_i reply' w₁ _ hw₁
      cases h
      have hstats := hresp { w with conn := { w.conn with pending := w.conn.pending - 1 } }
      rw [hw₁] at hstats
      exact hstats

variable {statuses : List Pb.DescriptorStatus}

theorem fetchPipeline_stats (server : Server σ) (hitsAddend : UInt32)
    (items : List (Bytes × Option Config.RateLimit)) (hitems : Keyed items) (replies : List Resp)
    (w : World σ) (h : Ready w replies) (hlen : replies.length = 2 * limitedCount items)
    (hrun : fetchPipeline server hitsAddend items w = .ok statuses w') :
    w'.stats = (w.addAll (fetchedStats hitsAddend items replies)).stats := by
  induction items generalizing replies w statuses w' with
  | nil =>
    cases hrun
    rfl
  | cons item rest ih =>
    obtain ⟨key, limit⟩ := item
    have hkey := hitems (key, limit) mem_cons_self
    have hrest : Keyed rest := fun item hitem => hitems item (mem_cons_of_mem _ hitem)
    cases limit with
    | none =>
      have hnil : key = [] := hkey.mpr rfl
      simp only [fetchPipeline, if_pos hnil, bind, EStateM.bind, pure, EStateM.pure] at hrun
      split at hrun
      · rename_i statuses' w₁ hw₁
        cases hrun
        exact ih hrest replies w h (by simpa [limitedCount] using hlen) hw₁
      · cases hrun
    | some limit =>
      have hne : key ≠ [] := by simpa using hkey
      have hlen' : replies.length = 2 * limitedCount rest + 2 := by
        simp [limitedCount] at hlen ⊢
        omega
      rcases replies with _ | ⟨first, _ | ⟨second, replies⟩⟩
      · cases hlen'
      · cases hlen'
      obtain ⟨w₁, hr₁, -, -, -, h₁⟩ := pipeResponse_ready server w first _ h
      obtain ⟨w₂, hr₂, -, -, -, h₂⟩ := pipeResponse_ready server w₁ second _ hr₁
      simp only [fetchPipeline, if_neg hne, bind, EStateM.bind] at hrun
      rcases h₁ with ⟨text, -, h₁⟩ | h₁
      · rw [h₁] at hrun
        cases hrun
      rw [h₁] at hrun
      cases first with
      | err | other => cases hrun
      | int value =>
        simp only [Resp.toInt, pure, EStateM.pure] at hrun
        rcases h₂ with ⟨text, -, h₂⟩ | h₂
        · rw [h₂] at hrun
          cases hrun
        rw [h₂] at hrun
        simp only [Go.deref, pure, EStateM.pure, addStats_eq] at hrun
        split at hrun
        · rename_i statuses' w₃ hw₃
          cases hrun
          rw [ih hrest replies _ (hr₂.addAll _) (by simpa using hlen') hw₃, fetchedStats,
            addAll_append]
          apply addAll_stats
          apply addAll_stats
          exact (pipeResponse_stats h₂).trans (pipeResponse_stats h₁)
        · cases hrun

theorem doLimit_stats (server : Server σ) (this : RateLimitCacheImpl)
    (request : Pb.RateLimitRequest) (limits : List (Option Config.RateLimit)) (now : Int)
    (jitter : Nat → Int) (w : World σ) (hlen : request.descriptors.length = limits.length)
    (hok : (doLimit server this (.ok ()) request limits now jitter w).result = .ok statuses) :
    (doLimit server this (.ok ()) request limits now jitter w).world.stats =
      (w.addAll (totalsOf (max 1 request.hitsAddend) (request.descriptors.zip limits) ++
        fetchedStats (max 1 request.hitsAddend) (callItems request limits now)
          (server.pipeline w.server (callCmds this request limits now jitter)).2)).stats := by
  obtain ⟨w₁, -, -, -, hstats, hready, hbody⟩ :=
    doLimitBody_sent server this request limits now jitter w hlen
  simp only [doLimit] at hok ⊢
  cases hout : doLimitBody server this request limits now jitter { w with conn := .new } with
  | ok statuses' w' =>
    rw [hout] at hbody
    rw [fetchPipeline_stats server _ _ (pipelineItems_keyed _ _ _) _ w₁ hready
      (length_pipeline_callCmds ..) hbody.symm, addAll_append]
    apply addAll_stats
    rw [hstats]
    apply addAll_stats
    rfl
  | error e w' =>
    rw [hout] at hok
    cases hok

/-- What a hit adds to the last two counters of a limit, for any near threshold. -/
def amountsOf (names : Config.RateLimitStats) (limit near hits after : UInt32) :
    List (Bytes × UInt64) :=
  if after > limit then
    if after - hits ≥ limit then [(names.overLimit, hits.toUInt64)]
    else [(names.overLimit, (after - limit).toUInt64),
      (names.nearLimit, (limit - max near (after - hits)).toUInt64)]
  else if after > near then
    if after - hits ≥ near then [(names.nearLimit, hits.toUInt64)]
    else [(names.nearLimit, (after - near).toUInt64)]
  else []

theorem checkLimit_amounts (limit : Config.RateLimit) (hits after : UInt32) :
    (checkLimit limit hits after).2 = amountsOf limit.stats limit.limit.requestsPerUnit
        (nearLimitThreshold limit.limit.requestsPerUnit) hits after := by
  unfold checkLimit amountsOf
  dsimp only
  split <;> rfl

variable {hits : UInt32} {count : Nat}

theorem toNat_after (hcount : count + hits.toNat < 2 ^ 32) :
    (UInt32.ofInt ((count : Int) + hits.toNat)).toNat = count + hits.toNat := by
  have hlow := toNat_ofInt ((count : Int) + hits.toNat)
  omega

theorem checkLimit_remaining {limit : Config.RateLimit} {after : UInt32}
    (hafter : after.toNat = count) (hok : (checkLimit limit hits after).1.code = .ok) :
    count ≤ limit.limit.requestsPerUnit.toNat ∧
      (checkLimit limit hits after).1.limitRemaining.toNat =
        limit.limit.requestsPerUnit.toNat - count := by
  have hle : ¬ limit.limit.requestsPerUnit < after := by
    intro hover
    rw [checkLimit_code, if_pos hover] at hok
    cases hok
  have hle' : after ≤ limit.limit.requestsPerUnit := UInt32.not_lt.mp hle
  have hnat := UInt32.le_iff_toNat_le.mp hle'
  refine ⟨by omega, ?_⟩
  unfold checkLimit
  rw [if_neg hle, ← hafter]
  exact UInt32.toNat_sub_of_le _ _ hle'

variable (names : Config.RateLimitStats)

/-- What the last two counters of a limit hold when its key has reached `count`. -/
structure Counts (limit near : UInt32) (count : Nat)
    (stats : Bytes → UInt64) : Prop where
  overLimit : (stats names.overLimit).toNat = count - limit.toNat
  nearLimit : (stats names.nearLimit).toNat = min count limit.toNat - min count near.toNat

/-- The three counters of a limit have different names. -/
structure Distinct : Prop where
  total_over : names.totalHits ≠ names.overLimit
  total_near : names.totalHits ≠ names.nearLimit
  over_near : names.overLimit ≠ names.nearLimit

theorem distinct_new (key : Bytes) : Distinct (Config.newRateLimitStats key) := by
  refine ⟨fun h => ?_, fun h => ?_, fun h => ?_⟩
  · exact absurd (append_cancel_left h) (by decide)
  · exact absurd (append_cancel_left h) (by decide)
  · exact absurd (append_cancel_left h) (by decide)

section Hit

variable {names : Config.RateLimitStats} {limit near hits after : UInt32} {count : Nat} {w : World σ}

theorem toNat_max (a b : UInt32) : (max a b).toNat = max a.toNat b.toNat := by
  change (if a ≤ b then b else a).toNat = _
  split
  · rename_i hle
    exact (Nat.max_eq_right (UInt32.le_iff_toNat_le.mp hle)).symm
  · rename_i hle
    have hlt := UInt32.lt_iff_toNat_lt.mp (UInt32.not_le.mp hle)
    exact (Nat.max_eq_left (Nat.le_of_lt hlt)).symm

variable {amount : UInt64} {count' : Nat}

theorem Counts.addOver (hnames : Distinct names)
    (hcounts : Counts names limit near count w.stats) (hlt : count' < 2 ^ 32)
    (hover : count - limit.toNat + amount.toNat = count' - limit.toNat)
    (hnear : min count limit.toNat - min count near.toNat =
      min count' limit.toNat - min count' near.toNat) :
    Counts names limit near count' (w.addStat names.overLimit amount).stats := by
  constructor
  · rw [addStat_same, hcounts.overLimit]
    omega
  · rw [addStat_other _ hnames.over_near.symm, hcounts.nearLimit, hnear]

theorem Counts.addNear (hnames : Distinct names)
    (hcounts : Counts names limit near count w.stats) (hlt : count' < 2 ^ 32)
    (hover : count - limit.toNat = count' - limit.toNat)
    (hnear : min count limit.toNat - min count near.toNat + amount.toNat =
      min count' limit.toNat - min count' near.toNat) :
    Counts names limit near count' (w.addStat names.nearLimit amount).stats := by
  constructor
  · rw [addStat_other _ hnames.over_near, hcounts.overLimit, hover]
  · rw [addStat_same, hcounts.nearLimit]
    omega

/-- Each of the five branches moves the two counters as far as the hit moves the key. -/
theorem Counts.hit (hnames : Distinct names) (hnear : near.toNat ≤ limit.toNat)
    (hcounts : Counts names limit near count w.stats) (hafter : after.toNat = count + hits.toNat) :
    Counts names limit near (count + hits.toNat)
      (w.addAll (amountsOf names limit near hits after)).stats := by
  have hlt := after.toNat_lt
  have hbefore : (after - hits).toNat = count := by
    rw [UInt32.toNat_sub_of_le]
    · omega
    · rw [UInt32.le_iff_toNat_le]
      omega
  unfold amountsOf
  split
  · rename_i hover
    have hover' := UInt32.lt_iff_toNat_lt.mp hover
    split
    · rename_i hbelow
      have hbelow' := UInt32.le_iff_toNat_le.mp hbelow
      apply hcounts.addOver hnames (by omega)
      · rw [UInt32.toNat_toUInt64]
        omega
      · omega
    · rename_i hbelow
      have hbelow' := UInt32.lt_iff_toNat_lt.mp (UInt32.not_le.mp hbelow)
      have hmax : (max near (after - hits)).toNat = max near.toNat count := by
        rw [toNat_max, hbefore]
      have hmaxle : max near (after - hits) ≤ limit := by
        rw [UInt32.le_iff_toNat_le, hmax]
        omega
      constructor
      · change ((World.addStat _ names.nearLimit _).stats names.overLimit).toNat = _
        rw [addStat_other _ hnames.over_near, addStat_same, hcounts.overLimit,
          UInt32.toNat_toUInt64, UInt32.toNat_sub_of_le _ _ (UInt32.le_of_lt hover)]
        omega
      · change ((World.addStat _ names.nearLimit _).stats names.nearLimit).toNat = _
        rw [addStat_same, addStat_other _ hnames.over_near.symm, hcounts.nearLimit,
          UInt32.toNat_toUInt64, UInt32.toNat_sub_of_le _ _ hmaxle, hmax]
        omega
  · rename_i hover
    have hover' := UInt32.le_iff_toNat_le.mp (UInt32.not_lt.mp hover)
    split
    · rename_i hclose
      have hclose' := UInt32.lt_iff_toNat_lt.mp hclose
      split
      · rename_i hbelow
        have hbelow' := UInt32.le_iff_toNat_le.mp hbelow
        apply hcounts.addNear hnames (by omega) (by omega)
        rw [UInt32.toNat_toUInt64]
        omega
      · rename_i hbelow
        have hbelow' := UInt32.lt_iff_toNat_lt.mp (UInt32.not_le.mp hbelow)
        apply hcounts.addNear hnames (by omega) (by omega)
        rw [UInt32.toNat_toUInt64, UInt32.toNat_sub_of_le _ _ (UInt32.le_of_lt hclose)]
        omega
    · rename_i hclose
      have hclose' := UInt32.le_iff_toNat_le.mp (UInt32.not_lt.mp hclose)
      constructor
      · change (w.stats names.overLimit).toNat = _
        rw [hcounts.overLimit]
        omega
      · change (w.stats names.nearLimit).toNat = _
        rw [hcounts.nearLimit]
        omega

end Hit

/-- Every limited descriptor of the call is on the key and has the limit. -/
def OnKey (limit : Config.RateLimit) (key domain : Bytes) (now : Int)
    (ps : List (Pb.RateLimitDescriptor × Option Config.RateLimit)) : Prop :=
  ∀ p ∈ ps, p.2 = none ∨ (p.2 = some limit ∧ cacheKey domain p.1 limit.limit.unit now = key)

def answersOf (hits : UInt32) :
    List (Option Config.RateLimit) → List Pb.DescriptorStatus → List (Nat × Pb.DescriptorStatus)
  | some _ :: limits, status :: statuses => (hits.toNat, status) :: answersOf hits limits statuses
  | none :: limits, _ :: statuses => answersOf hits limits statuses
  | _, _ => []

/-- Every `OK` status reports what is left of the limit after its hits. -/
def Remaining (limit : UInt32) : Nat → List (Nat × Pb.DescriptorStatus) → Prop
  | _, [] => True
  | count, (hits, status) :: rest =>
    (status.code = .ok → count + hits ≤ limit.toNat ∧
      status.limitRemaining.toNat = limit.toNat - (count + hits)) ∧
    Remaining limit (count + hits) rest

def amountSum (hits : List WindowHit) : Nat := (hits.map WindowHit.amount).sum

theorem remaining_append (limit : UInt32) (count : Nat) (xs ys : List (Nat × Pb.DescriptorStatus)) :
    Remaining limit count (xs ++ ys) ↔
      Remaining limit count xs ∧ Remaining limit (count + (xs.map Prod.fst).sum) ys := by
  induction xs generalizing count with
  | nil => simp [Remaining]
  | cons x xs ih =>
    simp only [cons_append, Remaining, ih, map_cons, sum_cons, and_assoc, Nat.add_assoc]

section Call

variable {limit : Config.RateLimit} {key domain : Bytes} {now : Int} {hits : UInt32}
variable {ps : List (Pb.RateLimitDescriptor × Option Config.RateLimit)}

theorem totals_stats (hnames : Distinct limit.stats) (hon : OnKey limit key domain now ps)
    (w : World σ)
    (hlt : (w.stats limit.stats.totalHits).toNat + amountSum (hitsOf domain now hits ps) < 2 ^ 64) :
    ((w.addAll (totalsOf hits ps)).stats limit.stats.totalHits).toNat =
        (w.stats limit.stats.totalHits).toNat + amountSum (hitsOf domain now hits ps) ∧
      (w.addAll (totalsOf hits ps)).stats limit.stats.overLimit = w.stats limit.stats.overLimit ∧
      (w.addAll (totalsOf hits ps)).stats limit.stats.nearLimit = w.stats limit.stats.nearLimit := by
  induction ps generalizing w with
  | nil => exact ⟨rfl, rfl, rfl⟩
  | cons p rest ih =>
    have hrest : OnKey limit key domain now rest := fun p hp => hon p (mem_cons_of_mem _ hp)
    obtain ⟨descriptor, limit'⟩ := p
    rcases hon (descriptor, limit') mem_cons_self with hnone | ⟨hsome, -⟩
    · cases hnone
      exact ih hrest w hlt
    · cases hsome
      have hsame := w.addStat_same limit.stats.totalHits hits.toUInt64
      rw [UInt32.toNat_toUInt64] at hsame
      have hcons : amountSum (hitsOf domain now hits ((descriptor, some limit) :: rest)) =
          hits.toNat + amountSum (hitsOf domain now hits rest) := rfl
      rw [hcons] at hlt ⊢
      rw [Nat.mod_eq_of_lt (by omega)] at hsame
      obtain ⟨htotal, hover, hnear⟩ := ih hrest (w.addStat limit.stats.totalHits hits.toUInt64)
        (by omega)
      refine ⟨?_, ?_, ?_⟩
      · change ((World.addAll _ (totalsOf hits rest)).stats limit.stats.totalHits).toNat = _
        rw [htotal, hsame]
        omega
      · exact hover.trans (w.addStat_other hnames.total_over.symm _)
      · exact hnear.trans (w.addStat_other hnames.total_near.symm _)

/-- What the server and the third loop make of the descriptors `ps`, when the key is at `count`. -/
structure Serves (limit : Config.RateLimit) (key domain : Bytes) (now : Int) (hits : UInt32)
    (ps : List (Pb.RateLimitDescriptor × Option Config.RateLimit)) (count : Nat)
    (served : Counters × List Resp) : Prop where
  server : served.1 key = count + amountSum (hitsOf domain now hits ps)
  replies : ∀ reply ∈ served.2, reply.isInt = true
  counts : ∀ w : World Counters, Counts limit.stats limit.limit.requestsPerUnit
      (nearLimitThreshold limit.limit.requestsPerUnit) count w.stats →
    Counts limit.stats limit.limit.requestsPerUnit
      (nearLimitThreshold limit.limit.requestsPerUnit)
      (count + amountSum (hitsOf domain now hits ps))
      (w.addAll (fetchedStats hits (pipelineItems domain now ps) served.2)).stats
  total : ∀ w : World Counters,
    (w.addAll (fetchedStats hits (pipelineItems domain now ps) served.2)).stats
      limit.stats.totalHits = w.stats limit.stats.totalHits
  remaining : ∀ statuses, Attributed hits (pipelineItems domain now ps) served.2 statuses →
    Remaining limit.limit.requestsPerUnit count (answersOf hits (ps.map Prod.snd) statuses) ∧
      (answersOf hits (ps.map Prod.snd) statuses).map Prod.fst =
        (hitsOf domain now hits ps).map WindowHit.amount

theorem mem_amountsOf {names : Config.RateLimitStats} {limit near hits after : UInt32}
    {amount : Bytes × UInt64} (h : amount ∈ amountsOf names limit near hits after) :
    amount.1 = names.overLimit ∨ amount.1 = names.nearLimit := by
  unfold amountsOf at h
  split at h
  · split at h
    · obtain rfl := mem_singleton.mp h
      exact .inl rfl
    · rcases mem_cons.mp h with rfl | h
      · exact .inl rfl
      · obtain rfl := mem_singleton.mp h
        exact .inr rfl
  · split at h
    · split at h
      · obtain rfl := mem_singleton.mp h
        exact .inr rfl
      · obtain rfl := mem_singleton.mp h
        exact .inr rfl
    · cases h

theorem serves_items (this : RateLimitCacheImpl) (jitter : Nat → Int)
    (hnames : Distinct limit.stats) (hon : OnKey limit key domain now ps) (i : Nat) (s : Counters)
    {count : Nat} (hcount : s key = count)
    (hlt : count + amountSum (hitsOf domain now hits ps) < 2 ^ 32) :
    Serves limit key domain now hits ps count
      (execAll execCounters s (pipelineCmds this hits jitter i (pipelineItems domain now ps))) := by
  induction ps generalizing i s count with
  | nil =>
    refine ⟨hcount, fun reply hreply => (by cases hreply), fun w hw => hw, fun w => rfl, ?_⟩
    intro statuses hat
    cases hat
    exact ⟨trivial, rfl⟩
  | cons p rest ih =>
    have hrest : OnKey limit key domain now rest := fun p hp => hon p (mem_cons_of_mem _ hp)
    obtain ⟨descriptor, limit'⟩ := p
    rcases hon (descriptor, limit') mem_cons_self with hnone | ⟨hsome, hkey⟩
    · cases hnone
      have h := ih hrest (i + 1) s hcount hlt
      refine { h with remaining := ?_ }
      intro statuses hat
      obtain ⟨status, statuses', rfl, hat'⟩ := hat.none_inv
      exact h.remaining statuses' hat'
    · cases hsome
      have hcons : amountSum (hitsOf domain now hits ((descriptor, some limit) :: rest)) =
          hits.toNat + amountSum (hitsOf domain now hits rest) := rfl
      rw [hcons] at hlt
      have hrange : s key + hits.toNat ≤ maxInt64 := by
        unfold maxInt64
        omega
      obtain ⟨s', hs', hrun⟩ : ∃ s' : Counters, s' key = (count + hits.toNat : Nat) ∧
          execAll execCounters s
            (pipelineCmds this hits jitter i (pipelineItems domain now ((descriptor, some limit) :: rest))) =
          ((execAll execCounters s'
              (pipelineCmds this hits jitter (i + 1) (pipelineItems domain now rest))).1,
            .int ((count : Int) + hits.toNat) :: .int 1 :: (execAll execCounters s'
              (pipelineCmds this hits jitter (i + 1) (pipelineItems domain now rest))).2) := by
        refine ⟨fun k => if k = key then s key + hits.toNat else s k, ?_, ?_⟩
        · change (if key = key then s key + hits.toNat else s key) = _
          rw [if_pos rfl, hcount]
          rfl
        · change execAll execCounters s (.incrBy (cacheKey domain descriptor limit.limit.unit now) hits ::
            .expire _ _ :: pipelineCmds this hits jitter (i + 1) (pipelineItems domain now rest)) = _
          rw [show cacheKey domain descriptor limit.limit.unit now = key from hkey, ← hcount]
          simp only [execAll, execCounters, if_pos hrange]
      have h := ih hrest (i + 1) s' hs' (by omega)
      have hafter : (UInt32.ofInt ((count : Int) + hits.toNat)).toNat = count + hits.toNat :=
        toNat_after (by omega)
      rw [hrun]
      refine ⟨?_, ?_, ?_, ?_, ?_⟩
      · apply h.server.trans
        rw [hcons]
        omega
      · intro reply hreply
        rcases mem_cons.mp hreply with rfl | hreply
        · rfl
        rcases mem_cons.mp hreply with rfl | hreply
        · rfl
        exact h.replies reply hreply
      · intro w hw
        rw [hcons, ← Nat.add_assoc]
        change Counts _ _ _ _ (w.addAll (_ ++ _)).stats
        rw [addAll_append, checkLimit_amounts]
        exact h.counts _ (hw.hit hnames (nearLimitThreshold_le _) hafter)
      · intro w
        change (w.addAll (_ ++ _)).stats _ = _
        rw [addAll_append, checkLimit_amounts]
        apply (h.total _).trans
        apply addAll_other
        intro amount hmem
        rcases mem_amountsOf hmem with hname | hname
        · rw [hname]
          exact hnames.total_over
        · rw [hname]
          exact hnames.total_near
      · intro statuses hat
        obtain ⟨value, reply, replies, statuses', hreplies, rfl, hat'⟩ := hat.some_inv
        obtain ⟨hvalue, hreplies⟩ := List.cons.inj hreplies
        obtain ⟨-, rfl⟩ := List.cons.inj hreplies
        cases hvalue
        obtain ⟨hremaining, hamounts⟩ := h.remaining statuses' hat'
        refine ⟨⟨fun hok => checkLimit_remaining hafter hok, hremaining⟩, ?_⟩
        exact congrArg (hits.toNat :: ·) hamounts

end Call

def LimitCall.answers (call : LimitCall) :
    Except Panic (List Pb.DescriptorStatus) → List (Nat × Pb.DescriptorStatus)
  | .ok statuses => answersOf (max 1 call.request.hitsAddend) call.limits statuses
  | .error _ => []

/-- Calls of `DoLimit` one after the other, and what they answer. -/
def runLimits (this : RateLimitCacheImpl) :
    World Counters → List LimitCall → World Counters × List (Nat × Pb.DescriptorStatus)
  | w, [] => (w, [])
  | w, call :: calls =>
    let ended := doLimit redis this call.connect call.request call.limits call.now call.jitter w
    let rest := runLimits this ended.world calls
    (rest.1, call.answers ended.result ++ rest.2)

def LimitCall.OnKey (call : LimitCall) (limit : Config.RateLimit) (key : Bytes) : Prop :=
  Ratelimit.OnKey limit key call.request.domain call.now (call.request.descriptors.zip call.limits)

/-- The key and the three counters of its limit after `count` hits. -/
structure At (limit : Config.RateLimit) (key : Bytes) (count : Nat) (w : World Counters) : Prop where
  server : w.server key = count
  total : (w.stats limit.stats.totalHits).toNat = count
  counts : Counts limit.stats limit.limit.requestsPerUnit
    (nearLimitThreshold limit.limit.requestsPerUnit) count w.stats

section Run

variable {limit : Config.RateLimit} {key : Bytes} {count : Nat} {w : World Counters}

theorem At.doLimit (this : RateLimitCacheImpl) (hnames : Distinct limit.stats)
    (h : At limit key count w) {call : LimitCall} (hon : call.OnKey limit key)
    (hlt : count + amountSum call.hits < 2 ^ 32) :
    let ended := doLimit redis this call.connect call.request call.limits call.now call.jitter w
    At limit key (count + amountSum call.hits) ended.world ∧
      Remaining limit.limit.requestsPerUnit count (call.answers ended.result) ∧
      (call.answers ended.result).map Prod.fst = call.hits.map WindowHit.amount := by
  intro ended
  cases hconnect : call.connect with
  | error text =>
    have hhits : call.hits = [] := by
      unfold LimitCall.hits
      rw [hconnect]
    have hended : ended = ⟨.error (.redisError text), w, none⟩ := by
      change Ratelimit.doLimit _ _ call.connect _ _ _ _ _ = _
      rw [hconnect]
      rfl
    rw [hhits, hended]
    exact ⟨h, trivial, rfl⟩
  | ok u =>
    have hhits : call.hits = hitsOf call.request.domain call.now (max 1 call.request.hitsAddend)
        (call.request.descriptors.zip call.limits) := by
      unfold LimitCall.hits
      rw [hconnect]
    have hended : ended = Ratelimit.doLimit redis this (.ok ()) call.request call.limits call.now
        call.jitter w := by
      change Ratelimit.doLimit _ _ call.connect _ _ _ _ _ = _
      rw [hconnect]
    have hlimits : (call.request.descriptors.zip call.limits).map Prod.snd = call.limits :=
      map_snd_zip (Nat.le_of_eq call.length_eq.symm)
    rw [hhits] at hlt ⊢
    obtain ⟨unread, hran⟩ := doLimit_ran redis this call.request call.limits call.now call.jitter w
      call.length_eq
    have hserves := serves_items this call.jitter hnames hon 0 w.server h.server hlt
    have hserver := hran.server_eq
    have hresult := hran.result
    rw [← hended] at hserver hresult
    rw [redis, Server.pipeline_ofStep] at hserver hresult
    rcases hresult with ⟨statuses, hok, -, hat⟩ | ⟨text, -, reply, hreply, hbad⟩
    · obtain ⟨hremaining, hamounts⟩ := hserves.remaining statuses hat
      rw [hlimits] at hremaining hamounts
      have hanswers : call.answers ended.result =
          answersOf (max 1 call.request.hitsAddend) call.limits statuses := by
        rw [hok]
        rfl
      have hstats := doLimit_stats redis this call.request call.limits call.now call.jitter w
        call.length_eq (hended ▸ hok)
      rw [← hended, redis, Server.pipeline_ofStep, addAll_append] at hstats
      have htotal := h.total
      have hlt' : (w.stats limit.stats.totalHits).toNat + amountSum (hitsOf call.request.domain call.now
          (max 1 call.request.hitsAddend) (call.request.descriptors.zip call.limits)) < 2 ^ 64 := by
        omega
      obtain ⟨htotals, hover, hnear⟩ := totals_stats hnames hon w hlt'
      have hcounts : Counts limit.stats limit.limit.requestsPerUnit
          (nearLimitThreshold limit.limit.requestsPerUnit) count
          (w.addAll (totalsOf (max 1 call.request.hitsAddend)
            (call.request.descriptors.zip call.limits))).stats := by
        constructor
        · rw [hover]
          exact h.counts.overLimit
        · rw [hnear]
          exact h.counts.nearLimit
      refine ⟨⟨?_, ?_, ?_⟩, ?_, ?_⟩
      · rw [hserver]
        exact hserves.server
      · rw [hstats, callItems, callCmds]
        apply (congrArg UInt64.toNat (hserves.total _)).trans
        rw [htotals, htotal]
      · rw [hstats]
        exact hserves.counts _ hcounts
      · rw [hanswers]
        exact hremaining
      · rw [hanswers]
        exact hamounts
    · have hint := hserves.replies reply hreply
      rw [hbad] at hint
      cases hint

theorem amountSum_append (xs ys : List WindowHit) :
    amountSum (xs ++ ys) = amountSum xs + amountSum ys := by
  unfold amountSum
  rw [map_append, sum_append]

theorem At.runLimits (this : RateLimitCacheImpl) (hnames : Distinct limit.stats)
    {calls : List LimitCall} (hon : ∀ call ∈ calls, call.OnKey limit key) (h : At limit key count w)
    (hlt : count + amountSum (calls.flatMap LimitCall.hits) < 2 ^ 32) :
    At limit key (count + amountSum (calls.flatMap LimitCall.hits)) (runLimits this w calls).1 ∧
      Remaining limit.limit.requestsPerUnit count (runLimits this w calls).2 ∧
      (runLimits this w calls).2.map Prod.fst =
        (calls.flatMap LimitCall.hits).map WindowHit.amount := by
  induction calls generalizing w count with
  | nil => exact ⟨h, trivial, rfl⟩
  | cons call calls ih =>
    rw [flatMap_cons, amountSum_append] at hlt ⊢
    obtain ⟨hcall, hremaining, hamounts⟩ := h.doLimit this hnames (hon call mem_cons_self)
      (by omega)
    obtain ⟨hrun, hremaining', hamounts'⟩ := ih
      (fun call hmem => hon call (mem_cons_of_mem _ hmem)) hcall (by omega)
    have hsum : ((call.answers (Ratelimit.doLimit redis this call.connect call.request call.limits
        call.now call.jitter w).result).map Prod.fst).sum = amountSum call.hits := by
      rw [hamounts]
      rfl
    refine ⟨?_, ?_, ?_⟩
    · rw [← Nat.add_assoc]
      exact hrun
    · apply (remaining_append _ _ _ _).mpr
      refine ⟨hremaining, ?_⟩
      rw [hsum]
      exact hremaining'
    · rw [map_append, ← hamounts, ← hamounts', ← map_append]
      rfl

end Run

/-- The counters of a limit after any calls on one of its keys follow from the hits alone, and are
those of as many calls with a single hit. -/
theorem runLimits_batched (this : RateLimitCacheImpl) (requestsPerUnit : UInt32)
    (unit : Pb.RateLimitUnit) (hunit : unit ≠ .unknown) (name key : Bytes) (calls : List LimitCall)
    (w : World Counters)
    (hon : ∀ call ∈ calls, call.OnKey (Config.newRateLimit requestsPerUnit unit hunit name) key)
    (hserver : w.server key = 0) (hstats : ∀ counter, w.stats counter = 0)
    (hlt : amountSum (calls.flatMap LimitCall.hits) < 2 ^ 32) :
    let names := Config.newRateLimitStats name
    let limit := requestsPerUnit.toNat
    let near := (nearLimitThreshold requestsPerUnit).toNat
    let total := amountSum (calls.flatMap LimitCall.hits)
    let stats := (runLimits this w calls).1.stats
    let answers := (runLimits this w calls).2
    near ≤ limit ∧ (stats names.totalHits).toNat = total ∧
      (stats names.overLimit).toNat = total - limit ∧
      (stats names.nearLimit).toNat = min total limit - min total near ∧
      answers.map Prod.fst = (calls.flatMap LimitCall.hits).map WindowHit.amount ∧
      Remaining requestsPerUnit 0 answers ∧
      ∀ singles : List LimitCall,
        (∀ call ∈ singles, call.OnKey (Config.newRateLimit requestsPerUnit unit hunit name) key) →
        (singles.flatMap LimitCall.hits).map WindowHit.amount = List.replicate total 1 →
        ∀ counter ∈ [names.totalHits, names.overLimit, names.nearLimit],
          (runLimits this w singles).1.stats counter = stats counter := by
  intro names limit near total stats answers
  have hzero : ∀ counter, (w.stats counter).toNat = 0 := fun counter => by rw [hstats counter]; rfl
  have hstart : At (Config.newRateLimit requestsPerUnit unit hunit name) key 0 w := by
    refine ⟨hserver, hzero _, ?_, ?_⟩
    · rw [hzero, Nat.zero_sub]
    · rw [hzero, Nat.zero_min, Nat.zero_min]
  have hnames := distinct_new name
  have hall : ∀ batches : List LimitCall,
      (∀ call ∈ batches, call.OnKey (Config.newRateLimit requestsPerUnit unit hunit name) key) →
      amountSum (batches.flatMap LimitCall.hits) = total →
      At (Config.newRateLimit requestsPerUnit unit hunit name) key total
          (runLimits this w batches).1 ∧
        Remaining requestsPerUnit 0 (runLimits this w batches).2 ∧
        (runLimits this w batches).2.map Prod.fst =
          (batches.flatMap LimitCall.hits).map WindowHit.amount := by
    intro batches hbatches htotal
    have hrun := hstart.runLimits this hnames hbatches (by rw [htotal, Nat.zero_add]; exact hlt)
    rw [htotal, Nat.zero_add] at hrun
    exact hrun
  obtain ⟨hat, hremaining, hamounts⟩ := hall calls hon rfl
  refine ⟨nearLimitThreshold_le _, hat.total, hat.counts.overLimit, hat.counts.nearLimit, hamounts,
    hremaining, ?_⟩
  intro singles hsingles hones counter hcounter
  have htotal : amountSum (singles.flatMap LimitCall.hits) = total := by
    unfold amountSum
    rw [hones, sum_replicate_nat, Nat.mul_one]
  obtain ⟨hat', -, -⟩ := hall singles hsingles htotal
  apply UInt64.toNat_inj.mp
  simp only [mem_cons, not_mem_nil, or_false] at hcounter
  rcases hcounter with rfl | rfl | rfl
  · exact hat'.total.trans hat.total.symm
  · exact hat'.counts.overLimit.trans hat.counts.overLimit.symm
  · exact hat'.counts.nearLimit.trans hat.counts.nearLimit.symm

def userLimitCall (hitsAddend : UInt32) : LimitCall where
  request := ⟨ascii "mobile", [⟨[⟨ascii "user", ascii "a"⟩]⟩], hitsAddend⟩
  limits := [some collidingLimit]
  length_eq := rfl
  connect := .ok ()
  now := 1234
  jitter := fun _ => 0

theorem runLimits_batched_user :
    let names := Config.newRateLimitStats (ascii "mobile.user")
    let stats := (runLimits ⟨0⟩ emptyRedis [userLimitCall 7, userLimitCall 4]).1.stats
    (stats names.totalHits).toNat = 11 ∧ (stats names.overLimit).toNat = 1 ∧
      (stats names.nearLimit).toNat = 2 := by
  have h := runLimits_batched ⟨0⟩ 10 .minute (by decide) (ascii "mobile.user")
    (cacheKey (ascii "mobile") ⟨[⟨ascii "user", ascii "a"⟩]⟩ .minute 1234)
    [userLimitCall 7, userLimitCall 4] emptyRedis
    (by
      intro call hcall p hp
      simp only [mem_cons, not_mem_nil, or_false] at hcall
      rcases hcall with rfl | rfl
      · obtain rfl := mem_singleton.mp hp
        exact .inr ⟨rfl, rfl⟩
      · obtain rfl := mem_singleton.mp hp
        exact .inr ⟨rfl, rfl⟩)
    rfl (fun _ => rfl) (by decide)
  exact ⟨h.2.1, h.2.2.1, h.2.2.2.1⟩

end Meliproxy.Ratelimit
