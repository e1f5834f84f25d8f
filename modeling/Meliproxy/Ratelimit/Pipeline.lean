import Meliproxy.Ratelimit.Driver
import Mathlib

/-!
# What one call of `DoLimit` does

The three loops run over the same items: the descriptors with their cache keys and
limits. The first computes the keys, the second appends two commands for each item that
has a limit, the third reads two replies for each of them. Every result about a call
goes through `doLimit_ran`, which says what the server was sent, which replies were
read, and that each status comes from the reply to its own `INCRBY`.
-/

namespace Meliproxy.Ratelimit

open Lib

variable {σ : Type}

variable (domain : Bytes)

def descriptorKey (now : Int)
    (p : Pb.RateLimitDescriptor × Option Config.RateLimit) : Bytes :=
  match p.2 with
  | none => []
  | some limit => cacheKey domain p.1 limit.limit.unit now

def pipelineItems (now : Int)
    (ps : List (Pb.RateLimitDescriptor × Option Config.RateLimit)) :
    List (Bytes × Option Config.RateLimit) := ps.map fun p => (descriptorKey domain now p, p.2)

def expirationSeconds (this : RateLimitCacheImpl) (jitter : Nat → Int) (i : Nat)
    (limit : Config.RateLimit) : Int :=
  if this.expirationJitterMaxSeconds > 0 then divider limit.limit.unit + jitter i
  else divider limit.limit.unit

def pipelineCmds (this : RateLimitCacheImpl) (hitsAddend : UInt32) (jitter : Nat → Int) :
    Nat → List (Bytes × Option Config.RateLimit) → List Cmd
  | _, [] => []
  | i, (_, none) :: rest => pipelineCmds this hitsAddend jitter (i + 1) rest
  | i, (key, some limit) :: rest =>
    .incrBy key hitsAddend :: .expire key (expirationSeconds this jitter i limit) ::
      pipelineCmds this hitsAddend jitter (i + 1) rest

def limitedCount (items : List (Bytes × Option Config.RateLimit)) : Nat :=
  items.countP fun item => item.2.isSome

/-- Each status comes from the reply to the `INCRBY` of its own descriptor; the replies
to `EXPIRE` are skipped. -/
inductive Attributed (hitsAddend : UInt32) :
    List (Bytes × Option Config.RateLimit) → List Resp → List Pb.DescriptorStatus → Prop where
  | nil : Attributed hitsAddend [] [] []
  | unlimited {key items replies statuses} (h : Attributed hitsAddend items replies statuses) :
      Attributed hitsAddend ((key, none) :: items) replies (⟨.ok, none, 0⟩ :: statuses)
  | limited {key limit items replies statuses} (value : Int) (reply : Resp)
      (h : Attributed hitsAddend items replies statuses) :
      Attributed hitsAddend ((key, some limit) :: items) (.int value :: reply :: replies)
        ((checkLimit limit hitsAddend (UInt32.ofInt value)).1 :: statuses)

def World.addAll (w : World σ) (amounts : List (Bytes × UInt64)) : World σ :=
  amounts.foldl (fun w amount => w.addStat amount.1 amount.2) w

def totalsOf (hitsAddend : UInt32) (ps : List (Pb.RateLimitDescriptor × Option Config.RateLimit)) :
    List (Bytes × UInt64) :=
  ps.filterMap fun p => p.2.map fun limit => (limit.stats.totalHits, hitsAddend.toUInt64)

theorem World.addAll_frame (w : World σ) (amounts : List (Bytes × UInt64)) :
    (w.addAll amounts).server = w.server ∧ (w.addAll amounts).conn = w.conn := by
  induction amounts generalizing w with
  | nil => exact ⟨rfl, rfl⟩
  | cons amount amounts ih => exact ih (w.addStat amount.1 amount.2)

theorem addStats_eq (amounts : List (Bytes × UInt64)) (w : World σ) :
    addStats amounts w = .ok () (w.addAll amounts) := by
  induction amounts generalizing w with
  | nil => rfl
  | cons amount amounts ih => exact ih (w.addStat amount.1 amount.2)

theorem buildCacheKeys_eq (hitsAddend : UInt32) (now : Int)
    (ps : List (Pb.RateLimitDescriptor × Option Config.RateLimit)) (w : World σ) :
    buildCacheKeys domain hitsAddend now ps w =
      .ok (ps.map (descriptorKey domain now)) (w.addAll (totalsOf hitsAddend ps)) := by
  induction ps generalizing w with
  | nil => rfl
  | cons p rest ih =>
    obtain ⟨descriptor, limit⟩ := p
    cases limit with
    | none =>
      simp only [buildCacheKeys, generateCacheKey, Go.ofExcept, bind, EStateM.bind, pure, EStateM.pure,
        ih]
      rfl
    | some limit =>
      simp only [buildCacheKeys, generateCacheKey_some, Go.ofExcept, addStat, bind, EStateM.bind, pure,
        EStateM.pure, modify, modifyGet, MonadStateOf.modifyGet, EStateM.modifyGet, ih]
      rfl

def World.appendCmds (w : World σ) (cmds : List Cmd) : World σ :=
  { w with
    conn := { w.conn with
      queued := w.conn.queued ++ cmds
      pending := w.conn.pending + cmds.length
      appended := w.conn.appended ++ cmds } }

theorem World.appendCmds_append (w : World σ) (xs ys : List Cmd) :
    (w.appendCmds xs).appendCmds ys = w.appendCmds (xs ++ ys) := by
  simp [World.appendCmds, Nat.add_assoc]

variable {key : Bytes}

variable (server : Server σ) (this : RateLimitCacheImpl) (request : Pb.RateLimitRequest)
  (limits : List (Option Config.RateLimit))

theorem setupPipeline_limited (hitsAddend : UInt32) (jitter : Nat → Int) (i : Nat) (hkey : key ≠ [])
    (limit : Config.RateLimit) (rest : List (Bytes × Option Config.RateLimit)) (w : World σ) :
    setupPipeline this hitsAddend jitter i ((key, some limit) :: rest) w =
      setupPipeline this hitsAddend jitter (i + 1) rest (w.appendCmds [.incrBy key hitsAddend,
          .expire key (expirationSeconds this jitter i limit)]) := by
  simp only [setupPipeline, if_neg hkey, Go.deref, Go.ofExcept, pure_bind,
    unitToDivider_of_known limit.unit_known]
  simp [bind, EStateM.bind, pipeAppend, modify, modifyGet, MonadStateOf.modifyGet,
    EStateM.modifyGet, World.appendCmds, expirationSeconds]

theorem setupPipeline_run (hitsAddend : UInt32) (jitter : Nat → Int) (domain : Bytes) (now : Int)
    (ps : List (Pb.RateLimitDescriptor × Option Config.RateLimit)) (i : Nat) (w : World σ) :
    setupPipeline this hitsAddend jitter i (pipelineItems domain now ps) w = .ok () (w.appendCmds
        (pipelineCmds this hitsAddend jitter i (pipelineItems domain now ps))) := by
  induction ps generalizing i w with
  | nil => simp [pipelineItems, setupPipeline, pipelineCmds, World.appendCmds, pure, EStateM.pure]
  | cons p rest ih =>
    obtain ⟨descriptor, limit⟩ := p
    cases limit with
    | none =>
      have h := ih (i + 1) w
      simpa [pipelineItems, setupPipeline, pipelineCmds, descriptorKey] using h
    | some limit =>
      have h := ih (i + 1) (w.appendCmds
        [.incrBy (cacheKey domain descriptor limit.limit.unit now) hitsAddend,
          .expire (cacheKey domain descriptor limit.limit.unit now)
            (expirationSeconds this jitter i limit)])
      rw [World.appendCmds_append] at h
      change setupPipeline this hitsAddend jitter i
        ((cacheKey domain descriptor limit.limit.unit now, some limit) ::
          pipelineItems domain now rest) w = _
      rw [setupPipeline_limited this hitsAddend jitter i (cacheKey_ne_nil _ _ _ _), h]
      rfl

variable (w : World σ)

theorem World.flush_flush : (w.flush server).flush server = w.flush server := by
  by_cases h : w.conn.queued = []
  · simp [World.flush, h]
  · simp [World.flush, h]

theorem World.flush_pending : (w.flush server).conn.pending = w.conn.pending := by
  by_cases h : w.conn.queued = [] <;> simp [World.flush, h]

theorem World.pipeResp_flush (h : w.conn.completed = []) :
    (w.flush server).pipeResp server = w.pipeResp server := by
  simp only [World.pipeResp, h, if_true, World.flush_flush]
  split <;> rfl

theorem pipeResponse_flush (hc : w.conn.completed = []) (hp : w.conn.pending ≠ 0) :
    pipeResponse server (w.flush server) = pipeResponse server w := by
  have h := World.pipeResp_flush server
    { w with conn := { w.conn with pending := w.conn.pending - 1 } } hc
  have hw : World.flush server { w with conn := { w.conn with pending := w.conn.pending - 1 } } =
      { w.flush server with
        conn := { (w.flush server).conn with pending := w.conn.pending - 1 } } := by
    by_cases hq : w.conn.queued = []
    · simp [World.flush, hq]
    · simp [World.flush, hq]
  rw [hw] at h
  simp [pipeResponse, World.flush_pending, hp, h]

/-- The items of a call: a key is empty exactly for a descriptor without a limit. -/
def Keyed (items : List (Bytes × Option Config.RateLimit)) : Prop :=
  ∀ item ∈ items, item.1 = [] ↔ item.2 = none

theorem pipelineItems_keyed (domain : Bytes) (now : Int)
    (ps : List (Pb.RateLimitDescriptor × Option Config.RateLimit)) :
    Keyed (pipelineItems domain now ps) := by
  intro item hitem
  obtain ⟨p, -, rfl⟩ := List.mem_map.mp hitem
  obtain ⟨descriptor, limit⟩ := p
  cases limit with
  | none => simp [descriptorKey]
  | some limit => simp [descriptorKey, cacheKey_ne_nil]

theorem fetchPipeline_flush (hitsAddend : UInt32) (items : List (Bytes × Option Config.RateLimit))
    (w : World σ) (hitems : ∃ item ∈ items, item.1 ≠ []) (hc : w.conn.completed = [])
    (hp : w.conn.pending ≠ 0) : fetchPipeline server hitsAddend items (w.flush server) =
      fetchPipeline server hitsAddend items w := by
  induction items with
  | nil => simp at hitems
  | cons item rest ih =>
    obtain ⟨key, limit⟩ := item
    by_cases hkey : key = []
    · have hrest : ∃ item ∈ rest, item.1 ≠ [] := by simpa [hkey] using hitems
      simp [fetchPipeline, hkey, bind, EStateM.bind, ih hrest]
    · simp [fetchPipeline, hkey, bind, EStateM.bind, pipeResponse_flush server w hc hp]

/-- The connection when its commands have been sent and all replies are still to be
read. -/
structure Ready (w : World σ) (replies : List Resp) : Prop where
  completed : w.conn.completed = replies
  pending : w.conn.pending = replies.length

variable {replies : List Resp}

theorem Ready.addAll {w : World σ} (h : Ready w replies) (amounts : List (Bytes × UInt64)) :
    Ready (w.addAll amounts) replies := by
  obtain ⟨-, hconn⟩ := w.addAll_frame amounts
  constructor
  · rw [hconn]
    exact h.completed
  · rw [hconn]
    exact h.pending

theorem pipeResponse_ready (w : World σ) (reply : Resp) (replies : List Resp)
    (h : Ready w (reply :: replies)) :
    ∃ w', Ready w' replies ∧ w'.server = w.server ∧ w'.conn.appended = w.conn.appended ∧
      w'.conn.replies = w.conn.replies ++ [reply] ∧
      ((∃ text, reply = .err text ∧ pipeResponse server w = .error (.redisError text) w') ∨
        pipeResponse server w = .ok reply w') := by
  refine ⟨{ w with
    conn := { w.conn with
      completed := replies
      pending := w.conn.pending - 1
      replies := w.conn.replies ++ [reply] } }, ⟨rfl, by simp [h.pending]⟩, rfl, rfl, rfl, ?_⟩
  have hp : w.conn.pending ≠ 0 := by simp [h.pending]
  cases reply with
  | err text =>
    exact .inl ⟨text, rfl, by
      simp [pipeResponse, hp, World.pipeResp, World.popReply, h.completed]⟩
  | int | other =>
    exact .inr (by simp [pipeResponse, hp, World.pipeResp, World.popReply, h.completed])

/-- What the third loop does with the replies it finds. -/
def Fetched (hitsAddend : UInt32) (items : List (Bytes × Option Config.RateLimit))
    (replies : List Resp) (w : World σ) :
    EStateM.Result Panic (World σ) (List Pb.DescriptorStatus) → Prop
  | .ok statuses w' => Ready w' [] ∧ w'.server = w.server ∧
      w'.conn.appended = w.conn.appended ∧ w'.conn.replies = w.conn.replies ++ replies ∧
      Attributed hitsAddend items replies statuses
  | .error e w' => ∃ text, e = .redisError text ∧ (∃ reply ∈ replies, reply.isInt = false) ∧
      ∃ rest, Ready w' rest ∧
      w'.server = w.server ∧ w'.conn.appended = w.conn.appended ∧
      w'.conn.replies ++ rest = w.conn.replies ++ replies

theorem fetchPipeline_limited (hitsAddend : UInt32) (hkey : key ≠ []) (limit : Config.RateLimit)
    (rest : List (Bytes × Option Config.RateLimit)) (first second : Resp) (replies : List Resp)
    (w : World σ) (h : Ready w (first :: second :: replies)) :
    (∃ text unread w', fetchPipeline server hitsAddend ((key, some limit) :: rest) w =
        .error (.redisError text) w' ∧ (first.isInt = false ∨ second.isInt = false) ∧
        Ready w' unread ∧ w'.server = w.server ∧ w'.conn.appended = w.conn.appended ∧
        w'.conn.replies ++ unread = w.conn.replies ++ first :: second :: replies) ∨
      ∃ value w', first = .int value ∧ Ready w' replies ∧ w'.server = w.server ∧
        w'.conn.appended = w.conn.appended ∧ w'.conn.replies = w.conn.replies ++ [first, second] ∧
        fetchPipeline server hitsAddend ((key, some limit) :: rest) w =
          ((fetchPipeline server hitsAddend rest).map
            ((checkLimit limit hitsAddend (UInt32.ofInt value)).1 :: ·)) w' := by
  obtain ⟨w₁, hr₁, hs₁, ha₁, hp₁, h₁⟩ := pipeResponse_ready server w first _ h
  have hread₁ : w₁.conn.replies ++ second :: replies =
      w.conn.replies ++ first :: second :: replies := by simp [hp₁]
  rcases h₁ with ⟨text, rfl, h₁⟩ | h₁
  · refine .inl ⟨text, second :: replies, w₁, ?_, .inl rfl, hr₁, hs₁, ha₁, hread₁⟩
    simp only [fetchPipeline, if_neg hkey, bind, EStateM.bind, h₁]
  cases first with
  | err text =>
    refine .inl ⟨text, second :: replies, w₁, ?_, .inl rfl, hr₁, hs₁, ha₁, hread₁⟩
    simp only [fetchPipeline, if_neg hkey, bind, EStateM.bind, h₁, Resp.toInt]
    rfl
  | other text =>
    refine .inl ⟨ascii "not convertible to int", second :: replies, w₁, ?_, .inl rfl, hr₁, hs₁, ha₁,
      hread₁⟩
    simp only [fetchPipeline, if_neg hkey, bind, EStateM.bind, h₁, Resp.toInt]
    rfl
  | int value =>
    obtain ⟨w₂, hr₂, hs₂, ha₂, hp₂, h₂⟩ := pipeResponse_ready server w₁ second _ hr₁
    rcases h₂ with ⟨text, rfl, h₂⟩ | h₂
    · refine .inl ⟨text, replies, w₂, ?_, .inr rfl, hr₂, hs₂.trans hs₁, ha₂.trans ha₁,
        by simp [hp₂, hp₁]⟩
      simp only [fetchPipeline, if_neg hkey, bind, EStateM.bind, h₁, Resp.toInt, pure,
        EStateM.pure, h₂]
    · obtain ⟨hserver, hconn⟩ :=
        w₂.addAll_frame (checkLimit limit hitsAddend (UInt32.ofInt value)).2
      refine .inr ⟨value, w₂.addAll (checkLimit limit hitsAddend (UInt32.ofInt value)).2, rfl,
        hr₂.addAll _, hserver.trans (hs₂.trans hs₁), ?_, ?_, ?_⟩
      · rw [hconn, ha₂, ha₁]
      · simp [hconn, hp₂, hp₁]
      · simp only [fetchPipeline, if_neg hkey, bind, EStateM.bind, h₁, Resp.toInt, pure,
          EStateM.pure, h₂, Go.deref, addStats_eq, EStateM.map]

theorem fetchPipeline_fetched (hitsAddend : UInt32) (items : List (Bytes × Option Config.RateLimit))
    (hitems : Keyed items) (replies : List Resp) (w : World σ) (h : Ready w replies)
    (hlen : replies.length = 2 * limitedCount items) :
    Fetched hitsAddend items replies w (fetchPipeline server hitsAddend items w) := by
  induction items generalizing replies w with
  | nil =>
    have hnil : replies = [] := by simpa [limitedCount] using hlen
    subst hnil
    exact ⟨h, rfl, rfl, by simp, .nil⟩
  | cons item rest ih =>
    obtain ⟨key, limit⟩ := item
    have hkey := hitems (key, limit) (by simp)
    have hrest : Keyed rest := fun item hitem => hitems item (by simp [hitem])
    cases limit with
    | none =>
      have hnil : key = [] := by simpa using hkey
      have hf := ih hrest replies w h (by simpa [limitedCount] using hlen)
      simp only [fetchPipeline, if_pos hnil, bind, EStateM.bind, pure, EStateM.pure]
      cases hr : fetchPipeline server hitsAddend rest w with
      | ok statuses w' =>
        rw [hr] at hf
        obtain ⟨hr', hs, ha, hp, hat⟩ := hf
        exact ⟨hr', hs, ha, hp, .unlimited hat⟩
      | error e w' =>
        rw [hr] at hf
        exact hf
    | some limit =>
      have hne : key ≠ [] := by simpa using hkey
      have hlen' : replies.length = 2 * limitedCount rest + 2 := by
        simp [limitedCount] at hlen ⊢
        omega
      match replies, hlen' with
      | first :: second :: replies, hlen' =>
        rcases fetchPipeline_limited server hitsAddend hne limit rest first second replies w h with
          ⟨text, unread, w', hrun, hbad, hr', hs, ha, hp⟩ | ⟨value, w', rfl, hr', hs, ha, hp, hrun⟩
        · rw [hrun]
          refine ⟨text, rfl, ?_, unread, hr', hs, ha, hp⟩
          rcases hbad with hbad | hbad
          · exact ⟨first, by simp, hbad⟩
          · exact ⟨second, by simp, hbad⟩
        · have hf := ih hrest replies w' hr' (by simpa using hlen')
          rw [hrun]
          simp only [EStateM.map]
          cases hr : fetchPipeline server hitsAddend rest w' with
          | ok statuses w'' =>
            rw [hr] at hf
            obtain ⟨hr'', hs', ha', hp', hat⟩ := hf
            exact ⟨hr'', hs'.trans hs, ha'.trans ha, by simp [hp', hp], .limited value second hat⟩
          | error e w'' =>
            rw [hr] at hf
            obtain ⟨text, he, ⟨reply, hmem, hbad⟩, unread, hr'', hs', ha', hp'⟩ := hf
            exact ⟨text, he, ⟨reply, by simp [hmem], hbad⟩, unread, hr'', hs'.trans hs, ha'.trans ha,
              by simp [hp', hp]⟩

/-- The server's part of a call; an empty pipeline sends nothing. -/
def Server.pipeline (server : Server σ) (s : σ) (cmds : List Cmd) : σ × List Resp :=
  if cmds = [] then (s, []) else server.exec s cmds

theorem Server.length_pipeline (s : σ) (cmds : List Cmd) :
    (server.pipeline s cmds).2.length = cmds.length := by
  by_cases h : cmds = []
  · simp [Server.pipeline, h]
  · simp [Server.pipeline, h, server.length_exec]

theorem Server.pipeline_ofStep (step : σ → Cmd → σ × Resp) (s : σ) (cmds : List Cmd) :
    (Server.ofStep step).pipeline s cmds = execAll step s cmds := by
  cases cmds with
  | nil | cons => rfl

variable (now : Int) (jitter : Nat → Int)

def callItems : List (Bytes × Option Config.RateLimit) :=
  pipelineItems request.domain now (request.descriptors.zip limits)

def callCmds : List Cmd :=
  pipelineCmds this (max 1 request.hitsAddend) jitter 0 (callItems request limits now)

theorem length_pipelineCmds (hitsAddend : UInt32) (jitter : Nat → Int) (i : Nat)
    (items : List (Bytes × Option Config.RateLimit)) :
    (pipelineCmds this hitsAddend jitter i items).length = 2 * limitedCount items := by
  induction items generalizing i with
  | nil => rfl
  | cons item rest ih =>
    obtain ⟨key, limit⟩ := item
    have h := ih (i + 1)
    simp only [limitedCount] at h ⊢
    cases limit with
    | none => simpa [pipelineCmds] using h
    | some limit =>
      simp [pipelineCmds, h]
      omega

theorem fetchPipeline_sent (hitsAddend : UInt32) (items : List (Bytes × Option Config.RateLimit))
    (hitems : Keyed items) (w : World σ) (cmds : List Cmd) (hw : w.conn = Connection.new)
    (hcmds : cmds.length = 2 * limitedCount items) :
    ∃ w', w'.server = (server.pipeline w.server cmds).1 ∧ w'.conn.appended = cmds ∧
      w'.conn.replies = [] ∧ w'.stats = w.stats ∧ Ready w' (server.pipeline w.server cmds).2 ∧
      fetchPipeline server hitsAddend items (w.appendCmds cmds) =
        fetchPipeline server hitsAddend items w' := by
  by_cases hnil : cmds = []
  · subst hnil
    have hready : Ready (w.appendCmds []) [] := by
      constructor <;> simp [World.appendCmds, hw, Connection.new]
    exact ⟨w.appendCmds [], rfl, by simp [World.appendCmds, hw, Connection.new],
      by simp [World.appendCmds, hw, Connection.new], rfl, hready, rfl⟩
  · have hpos : 0 < limitedCount items := by
      have := List.length_pos_iff.mpr hnil
      omega
    have hsome : ∃ item ∈ items, item.1 ≠ [] := by
      obtain ⟨item, hmem, hlimit⟩ := List.countP_pos_iff.mp hpos
      refine ⟨item, hmem, fun hkey => ?_⟩
      simp [(hitems item hmem).mp hkey] at hlimit
    have hrun := fetchPipeline_flush server hitsAddend items (w.appendCmds cmds) hsome
      (by simp [World.appendCmds, hw, Connection.new])
      (by simp [World.appendCmds, hw, Connection.new, hnil])
    have hready : Ready ((w.appendCmds cmds).flush server) (server.pipeline w.server cmds).2 := by
      constructor
      · simp [World.flush, World.appendCmds, Server.pipeline, hw, Connection.new, hnil]
      · rw [World.flush_pending, Server.length_pipeline]
        simp [World.appendCmds, hw, Connection.new]
    refine ⟨(w.appendCmds cmds).flush server, ?_, ?_, ?_, ?_, hready, hrun.symm⟩
    · simp [World.flush, World.appendCmds, Server.pipeline, hw, Connection.new, hnil]
    · simp [World.flush, World.appendCmds, hw, Connection.new, hnil]
    · simp [World.flush, World.appendCmds, hw, Connection.new, hnil]
    · simp [World.flush, World.appendCmds, hw, Connection.new, hnil]

/-- What a call with a connection does: it sends its commands once, and the replies it
did not read decide what becomes of the connection. -/
structure Ran (s : σ) (out : Ended σ) (unread : List Resp) : Prop where
  server_eq :
    out.world.server = (server.pipeline s (callCmds this request limits now jitter)).1
  appended_eq : out.world.conn.appended = callCmds this request limits now jitter
  replies_eq : out.world.conn.replies ++ unread =
    (server.pipeline s (callCmds this request limits now jitter)).2
  disposal_eq : out.disposal = some (if unread = [] then .put else .close)
  result :
    (∃ statuses, out.result = .ok statuses ∧ unread = [] ∧
      Attributed (max 1 request.hitsAddend) (callItems request limits now)
        (server.pipeline s (callCmds this request limits now jitter)).2 statuses) ∨
      ∃ text, out.result = .error (.redisError text) ∧
        ∃ reply ∈ (server.pipeline s (callCmds this request limits now jitter)).2,
          reply.isInt = false

theorem poolPut_ready (w : World σ) (unread : List Resp) (h : Ready w unread) :
    poolPut w.conn = if unread = [] then .put else .close := by
  simp [poolPut, h.pending]

variable (w : World σ)

theorem doLimitBody_eq (hlen : request.descriptors.length = limits.length) :
    doLimitBody server this request limits now jitter w =
      fetchPipeline server (max 1 request.hitsAddend) (callItems request limits now)
        ((w.addAll (totalsOf (max 1 request.hitsAddend) (request.descriptors.zip limits))).appendCmds
          (callCmds this request limits now jitter)) := by
  have hzip : ((request.descriptors.zip limits).map (descriptorKey request.domain now)).zip limits =
      callItems request limits now := by
    have hsnd : limits = (request.descriptors.zip limits).map Prod.snd := by
      rw [List.map_snd_zip (by omega)]
    nth_rewrite 2 [hsnd]
    rw [List.zip_map', callItems, pipelineItems]
  simp only [doLimitBody, hlen, ne_eq, not_true_eq_false, if_false, bind, EStateM.bind,
    buildCacheKeys_eq, hzip]
  rw [callItems, setupPipeline_run]
  rfl

theorem doLimitBody_sent (hlen : request.descriptors.length = limits.length) :
    ∃ w', w'.server = (server.pipeline w.server (callCmds this request limits now jitter)).1 ∧
      w'.conn.appended = callCmds this request limits now jitter ∧ w'.conn.replies = [] ∧
      w'.stats = (World.addAll { w with conn := .new }
        (totalsOf (max 1 request.hitsAddend) (request.descriptors.zip limits))).stats ∧
      Ready w' (server.pipeline w.server (callCmds this request limits now jitter)).2 ∧
      doLimitBody server this request limits now jitter { w with conn := .new } =
        fetchPipeline server (max 1 request.hitsAddend) (callItems request limits now) w' := by
  obtain ⟨hserver, hconn⟩ := World.addAll_frame { w with conn := .new }
    (totalsOf (max 1 request.hitsAddend) (request.descriptors.zip limits))
  obtain ⟨w', hs, ha, hr, hstats, hready, hsent⟩ := fetchPipeline_sent server
    (max 1 request.hitsAddend) (callItems request limits now) (pipelineItems_keyed _ _ _) _
    (callCmds this request limits now jitter) hconn (length_pipelineCmds _ _ _ _ _)
  rw [hserver] at hs hready
  exact ⟨w', hs, ha, hr, hstats, hready, (doLimitBody_eq server this _ _ now jitter _ hlen).trans hsent⟩

theorem length_pipeline_callCmds (s : σ) :
    (server.pipeline s (callCmds this request limits now jitter)).2.length =
      2 * limitedCount (callItems request limits now) := by
  rw [Server.length_pipeline, callCmds, length_pipelineCmds]

theorem doLimit_ran (hlen : request.descriptors.length = limits.length) :
    ∃ unread, Ran server this request limits now jitter w.server
      (doLimit server this (.ok ()) request limits now jitter w) unread := by
  obtain ⟨w', hs, ha, hr, -, hready, hbody⟩ :=
    doLimitBody_sent server this request limits now jitter w hlen
  have hf := fetchPipeline_fetched server (max 1 request.hitsAddend) (callItems request limits now)
    (pipelineItems_keyed _ _ _) _ w' hready (length_pipeline_callCmds ..)
  rw [← hbody] at hf
  simp only [doLimit]
  cases hout : doLimitBody server this request limits now jitter { w with conn := .new } with
  | ok statuses w'' =>
    rw [hout] at hf
    obtain ⟨hready, hs', ha', hr', hat⟩ := hf
    exact ⟨[], hs'.trans hs, ha'.trans ha, by simp [hr', hr], by simp [poolPut_ready w'' [] hready],
      .inl ⟨statuses, rfl, rfl, hat⟩⟩
  | error e w'' =>
    rw [hout] at hf
    obtain ⟨text, rfl, hbad, unread, hready, hs', ha', hr'⟩ := hf
    exact ⟨unread, hs'.trans hs, ha'.trans ha, by simp [hr', hr],
      by simp [poolPut_ready w'' unread hready], .inr ⟨text, rfl, hbad⟩⟩

theorem length_callItems (hlen : request.descriptors.length = limits.length) :
    (callItems request limits now).length = request.descriptors.length := by
  simp [callItems, pipelineItems, hlen]

theorem callItems_get (i : Nat) (descriptor : Pb.RateLimitDescriptor)
    (limit : Option Config.RateLimit) (hd : request.descriptors[i]? = some descriptor)
    (hl : limits[i]? = some limit) : (callItems request limits now)[i]? =
      some (descriptorKey request.domain now (descriptor, limit), limit) := by
  have hz : (request.descriptors.zip limits)[i]? = some (descriptor, limit) :=
    List.getElem?_zip_eq_some.mpr ⟨hd, hl⟩
  simp [callItems, pipelineItems, hz]

/-- The index of the first command of descriptor `i`: two commands for each limit
before it. -/
def cmdIndex (i : Nat) : Nat :=
  2 * (limits.take i).countP Option.isSome

theorem limitedCount_take_callItems (i : Nat) (hlen : request.descriptors.length = limits.length) :
    2 * limitedCount ((callItems request limits now).take i) = cmdIndex limits i := by
  have hsnd : (callItems request limits now).map Prod.snd = limits := by
    simp only [callItems, pipelineItems, List.map_map]
    exact List.map_snd_zip (by omega)
  rw [cmdIndex, limitedCount, ← hsnd, ← List.map_take, List.countP_map, hsnd]
  rfl

theorem pipelineCmds_get (hitsAddend : UInt32) (jitter : Nat → Int)
    (items : List (Bytes × Option Config.RateLimit)) (j i : Nat) (key : Bytes)
    (limit : Config.RateLimit) (h : items[i]? = some (key, some limit)) :
    (pipelineCmds this hitsAddend jitter j items)[2 * limitedCount (items.take i)]? =
      some (.incrBy key hitsAddend) := by
  induction items generalizing j i with
  | nil => simp at h
  | cons item rest ih =>
    obtain ⟨key', limit'⟩ := item
    cases i with
    | zero =>
      obtain ⟨rfl, rfl⟩ : key' = key ∧ limit' = some limit := by simpa using h
      simp [pipelineCmds, limitedCount]
    | succ i =>
      have hi := ih (j + 1) i (by simpa using h)
      cases limit' with
      | none => simpa [pipelineCmds, limitedCount] using hi
      | some limit' =>
        simp only [limitedCount] at hi
        simp [pipelineCmds, limitedCount, Nat.mul_add, hi]

variable {hitsAddend : UInt32} {items : List (Bytes × Option Config.RateLimit)}
  {statuses : List Pb.DescriptorStatus}

section

variable (h : Attributed hitsAddend items replies statuses)
include h

theorem Attributed.length_eq : statuses.length = items.length := by
  induction h with
  | nil => rfl
  | unlimited h ih => simp [ih]
  | limited value reply h ih => simp [ih]

theorem Attributed.unlimited_get (i : Nat)
    (key : Bytes) (hi : items[i]? = some (key, none)) : statuses[i]? = some ⟨.ok, none, 0⟩ := by
  induction h generalizing i with
  | nil => simp at hi
  | unlimited h ih =>
    cases i with
    | zero => rfl
    | succ i => simpa using ih i (by simpa using hi)
  | limited value reply h ih =>
    cases i with
    | zero => simp at hi
    | succ i => simpa using ih i (by simpa using hi)

theorem Attributed.limited_get (i : Nat)
    (key : Bytes) (limit : Config.RateLimit) (hi : items[i]? = some (key, some limit)) :
    ∃ value, replies[2 * limitedCount (items.take i)]? = some (.int value) ∧
      statuses[i]? = some (checkLimit limit hitsAddend (UInt32.ofInt value)).1 := by
  induction h generalizing i with
  | nil => simp at hi
  | unlimited h ih =>
    cases i with
    | zero => simp at hi
    | succ i =>
      obtain ⟨value, hr, hs⟩ := ih i (by simpa using hi)
      exact ⟨value, by simpa [limitedCount] using hr, by simpa using hs⟩
  | limited value reply h ih =>
    cases i with
    | zero =>
      obtain ⟨-, rfl⟩ := by simpa using hi
      exact ⟨value, by simp [limitedCount], by simp⟩
    | succ i =>
      obtain ⟨value', hr, hs⟩ := ih i (by simpa using hi)
      simp only [limitedCount] at hr
      exact ⟨value', by simp [limitedCount, Nat.mul_add, hr], by simpa using hs⟩

end

/-- The status of descriptor `i` is the one of a descriptor without a limit, or is
computed from the reply to the `INCRBY` that was appended for it. -/
def StatusOf (cmds : List Cmd) (replies : List Resp) (i : Nat) (status : Pb.DescriptorStatus) :
    Prop :=
  (limits[i]? = some none ∧ status = ⟨.ok, none, 0⟩) ∨
    ∃ descriptor limit value, request.descriptors[i]? = some descriptor ∧
      limits[i]? = some (some limit) ∧
      cmds[cmdIndex limits i]? = some (.incrBy
        (cacheKey request.domain descriptor limit.limit.unit now) (max 1 request.hitsAddend)) ∧
      replies[cmdIndex limits i]? = some (.int value) ∧
      status = (checkLimit limit (max 1 request.hitsAddend) (UInt32.ofInt value)).1

theorem statusOf_attributed (replies : List Resp) (statuses : List Pb.DescriptorStatus)
    (hlen : request.descriptors.length = limits.length)
    (h : Attributed (max 1 request.hitsAddend) (callItems request limits now) replies statuses)
    (i : Nat) (status : Pb.DescriptorStatus) (hi : statuses[i]? = some status) :
    StatusOf request limits now (callCmds this request limits now jitter) replies i status := by
  have hlt : i < request.descriptors.length := by
    rw [← length_callItems request limits now hlen, ← h.length_eq]
    exact (List.getElem?_eq_some_iff.mp hi).1
  have hd := List.getElem?_eq_getElem hlt
  obtain ⟨limit, hl⟩ : ∃ limit, limits[i]? = some limit :=
    ⟨_, List.getElem?_eq_getElem (hlen ▸ hlt : i < limits.length)⟩
  have hitem := callItems_get request limits now i _ _ hd hl
  have hindex := limitedCount_take_callItems request limits now i hlen
  cases limit with
  | none =>
    have hs := h.unlimited_get i _ hitem
    rw [hi, Option.some_inj] at hs
    exact .inl ⟨hl, hs⟩
  | some limit =>
    obtain ⟨value, hr, hs⟩ := h.limited_get i _ limit hitem
    have hc := pipelineCmds_get this (max 1 request.hitsAddend) jitter _ 0 i _ limit hitem
    rw [hindex] at hr hc
    rw [hi, Option.some_inj] at hs
    exact .inr ⟨_, limit, value, hd, hl, hc, hr, hs⟩

/-- A call ends with one status per descriptor, each computed from the reply to its own
`INCRBY`, or with a Redis error; its connection goes back to the pool exactly when every
appended command had its reply read. -/
theorem doLimit_attributed (server : Server σ) (this : RateLimitCacheImpl)
    (connect : Except Bytes Unit) (request : Pb.RateLimitRequest)
    (limits : List (Option Config.RateLimit)) (now : Int) (jitter : Nat → Int) (w : World σ)
    (hlen : request.descriptors.length = limits.length) :
    let out := doLimit server this connect request limits now jitter w
    let cmds := out.world.conn.appended
    let replies := out.world.conn.replies
    ((∃ statuses, out.result = .ok statuses ∧
        statuses.length = request.descriptors.length ∧
        ∀ i status, statuses[i]? = some status →
          StatusOf request limits now cmds replies i status) ∨
      ∃ text, out.result = .error (.redisError text)) ∧
    (connect = .ok () → replies <+: (server.pipeline w.server cmds).2) ∧
    (match out.disposal with
      | none => connect ≠ .ok ()
      | some .put => replies.length = cmds.length
      | some .close => replies.length ≠ cmds.length) := by
  intro out cmds replies
  cases connect with
  | error text => exact ⟨.inr ⟨text, rfl⟩, by simp, by simp [out, doLimit]⟩
  | ok _ =>
    obtain ⟨unread, hran⟩ := doLimit_ran server this request limits now jitter w hlen
    have hcmds : cmds = callCmds this request limits now jitter := hran.appended_eq
    have hreplies : replies ++ unread = (server.pipeline w.server cmds).2 := by
      rw [hcmds]
      exact hran.replies_eq
    have hcount : replies.length + unread.length = cmds.length := by
      rw [← server.length_pipeline w.server cmds, ← hreplies, List.length_append]
    refine ⟨?_, fun _ => ⟨unread, hreplies⟩, ?_⟩
    · rcases hran.result with ⟨statuses, hok, hunread, hat⟩ | ⟨text, herr, -⟩
      · refine .inl ⟨statuses, hok, ?_, ?_⟩
        · rw [hat.length_eq, length_callItems request limits now hlen]
        · intro i status hi
          have hread : replies = (server.pipeline w.server cmds).2 := by
            rw [← hreplies, hunread, List.append_nil]
          rw [hread, hcmds]
          exact statusOf_attributed this request limits now jitter _ statuses hlen hat i status hi
      · exact .inr ⟨text, herr⟩
    · have hdisposal : out.disposal = some (if unread = [] then .put else .close) :=
        hran.disposal_eq
      rw [hdisposal]
      by_cases hunread : unread = []
      · rw [if_pos hunread]
        simpa [hunread] using hcount
      · rw [if_neg hunread]
        have hpos := List.length_pos_iff.mpr hunread
        omega

def constServer (reply : Resp) : Server Unit where
  exec _ cmds := ((), cmds.map fun _ => reply)
  length_exec := by simp

/-- A server in trouble: the first reply is an error and the connection is closed. -/
theorem doLimit_attributed_loading :
    let request : Pb.RateLimitRequest :=
      ⟨ascii "mobile", [⟨[⟨ascii "user", ascii "a"⟩]⟩, ⟨[⟨ascii "user", ascii "b"⟩]⟩], 0⟩
    let limits := [none, some (Config.newRateLimit 10 .minute (by decide) (ascii "mobile.user"))]
    let out := doLimit (constServer (.err (ascii "LOADING"))) ⟨0⟩ (.ok ()) request limits 1234
      (fun _ => 0) ⟨(), .new, fun _ => 0⟩
    out.disposal = some .close ∧ out.world.conn.replies.length ≠ out.world.conn.appended.length := by
  refine ⟨by decide, ?_⟩
  exact (doLimit_attributed (constServer (.err (ascii "LOADING"))) ⟨0⟩ (.ok ())
    ⟨ascii "mobile", [⟨[⟨ascii "user", ascii "a"⟩]⟩, ⟨[⟨ascii "user", ascii "b"⟩]⟩], 0⟩
    [none, some (Config.newRateLimit 10 .minute (by decide) (ascii "mobile.user"))] 1234
    (fun _ => 0) ⟨(), .new, fun _ => 0⟩ rfl).2.2

end Meliproxy.Ratelimit
