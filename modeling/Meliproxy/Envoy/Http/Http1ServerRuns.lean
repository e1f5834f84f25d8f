import Meliproxy.Envoy.Http.Http1ServerDispatch
import Meliproxy.Lib.Wire

/-!
# Pipelined requests on an HTTP/1 connection

Each request gets one stream, in order, and while the connection is open none is left in the buffer
without an event. A response that begins before its request is complete closes the connection.
-/

namespace Meliproxy.Envoy.Http.Http1

open Lib List Network ConnectionManagerImpl Option

namespace ServerConnectionImpl

variable {p : RequestParser} {At : p.State → RequestPos → Prop} {config : DrainConfig}
  {rs done : List Request} {pos : RequestPos} {s : ServerConnectionImpl p}

theorem Live.step (hhttp : config.http2 = false) (hfollows : p.Follows At)
    (h : Live At config rs s done pos) {e : ServerEvent} (hpossible : s.Possible config rs e) :
    ∃ s' done' pos', s.step config e = some s' ∧ Live At config rs s' done' pos' := by
  have hsame : ∀ {x : Option (ServerConnectionImpl p)},
      (∃ s', x = some s' ∧ Live At config rs s' done pos) →
        ∃ s' done' pos', x = some s' ∧ Live At config rs s' done' pos' :=
    fun ⟨s', hs', hlive⟩ => ⟨s', done, pos, hs', hlive⟩
  have hquiet (hidle : s.manager.dispatching = false) : s.dispatch = none := by
    rw [← not_isSome_iff_eq_none, ← h.dispatching, hidle]
    exact Bool.false_ne_true
  cases e with
  | readReady slices => exact hsame (h.readReady hpossible)
  | proceed a =>
    obtain ⟨d, hd⟩ := isSome_iff_exists.mp hpossible
    rw [ServerConnectionImpl.step, hd, bind_some]
    exact h.proceed hhttp hfollows hd a
  | commonEncodePrefix id => exact hsame (h.commonEncodePrefix hpossible)
  | encodeHeaders id headers endStream a =>
    obtain ⟨stream, hfind, hmem, hready⟩ := find_any hpossible
    obtain ⟨rfl, hactive⟩ := h.phase.find hfind
    rw [ServerConnectionImpl.step, hfind, bind_some]
    refine hsame (h.encode hactive hpossible nofun
      (fun t ht => step_encodeHeaders hhttp hactive.streams ht) ?_)
    intro hend
    subst hend
    simp only [Bool.and_eq_true, Bool.not_true, Bool.or_false] at hready
    exact hready.2
  | encodeMore id endStream a =>
    obtain ⟨stream, hfind, hmem, hready⟩ := find_any hpossible
    obtain ⟨rfl, hactive⟩ := h.phase.find hfind
    rw [ServerConnectionImpl.step, hfind, bind_some]
    refine hsame (h.encode hactive hpossible nofun
      (fun t ht => step_encodeMore hhttp hactive.streams ht) ?_)
    intro hend
    subst hend
    simp only [Bool.and_eq_true, Bool.not_true, Bool.or_false] at hready
    exact hready.2
  | resetStream id a =>
    obtain ⟨stream, hfind, hmem, hunfinished⟩ := find_any hpossible
    obtain ⟨rfl, hactive⟩ := h.phase.find hfind
    have hreset : s.manager.Possible config (.resetStream stream.id a) := by
      rw [ConnectionManagerImpl.Possible, hfind]
      rfl
    obtain ⟨t, ht, hinv⟩ := manage_inv h.manager hreset h.phase.wants nofun
    rw [ServerConnectionImpl.step, hfind, bind_some, manage_withManager ht, bind_some]
    obtain ⟨s', hs', hlive⟩ := h.endStream hactive hinv
      (step_resetStream hhttp hactive.streams ht)
      (some ⟨stream.id, stream.remoteComplete⟩) hunfinished.symm
    rw [← hactive.request] at hs'
    exact hsame ⟨s', hs', hlive⟩
  | readDisable id disable =>
    obtain ⟨stream, hfind⟩ := isSome_iff_exists.mp hpossible.1
    exact hsame (h.readDisable (h.phase.find hfind).2 hpossible.2)
  | idleTimeout a =>
    exact hsame (h.closesOrKeeps (hquiet hpossible.2) hpossible nofun fun t ht =>
      step_idleTimeout (h.manager.core.active hpossible.1) ht)
  | drainTimeout a =>
    exact hsame (h.closesOrKeeps (hquiet hpossible.2) hpossible nofun fun t ht => step_drainTimeout ht)
  | onEvent =>
    exact hsame (h.closesOrKeeps (hquiet hpossible.2) hpossible nofun fun t ht => step_onEvent ht)

/-- One stream at a time, one for each request in order, and while the connection is open nothing
is left in the buffer without an event. Stream `i` is made in request `i`, and the requests that
have begun have their streams. -/
structure Served (rs : List Request) (s : ServerConnectionImpl p) : Prop where
  single : s.manager.streams.length ≤ 1
  count : s.created.length ≤ rs.length
  created : ∀ i o, s.created[i]? = some o →
    (Request.stream (rs.take i)).length < o ∧ o ≤ (Request.stream (rs.take (i + 1))).length
  all : s.parsed ≤ (Request.stream (rs.take s.created.length)).length
  decoded : s.decoded = headersInOrder (rs.take s.decoded.length)
  decoded_le : s.decoded.length ≤ s.created.length
  pending : s.manager.isOpen = true → s.manager.streams = [] → s.dispatch = none →
    s.connection.readEnabled = true ∧
      (s.connection.readBuffer.flatten ≠ [] → s.connection.readActivated = true)
  rounds : ∀ d ∈ s.dispatch, d.rounds ≤ rs.length

theorem Live.served (hhttp : config.http2 = false) (h : Live At config rs s done pos) :
    Served rs s where
  single := h.manager.core.single hhttp
  count := by
    rw [h.log.count, h.log.requests, length_append]
    cases pos with
    | between rest => exact Nat.add_le_add_left (Nat.zero_le _) _
    | head | body => simp [RequestPos.begun, RequestPos.requests]
  created := h.log.created
  all := by
    have hparsed := h.reading.parsed_eq
    have hrequests := h.log.requests
    have hcount := h.log.count
    rw [hrequests, stream_append] at hparsed
    rw [hcount, hrequests, take_length_add_append, stream_append]
    cases pos with
    | between rest =>
      simp only [RequestPos.bytes, RequestPos.requests, length_append] at hparsed ⊢
      omega
    | head | body =>
      simp only [RequestPos.bytes, RequestPos.requests, RequestPos.begun, Request.stream,
        Request.bytes, flatMap_cons, flatMap_nil, take_succ_cons, take_zero,
        length_append, append_nil] at hparsed ⊢
      omega
  decoded := h.log.decoded
  decoded_le := h.log.decoded_le
  pending hopen hstreams hquiet := by
    cases h.phase with
    | idle hidle =>
      refine ⟨ConnectionImpl.disables_eq_zero.mp hidle.disables, fun hbuffer => ?_⟩
      exact hidle.pending hquiet (length_pos_iff.mpr hbuffer)
    | active stream hactive =>
      rw [hactive.streams] at hstreams
      cases hstreams
    | closed hclosed =>
      rw [hclosed.isOpen] at hopen
      cases hopen
  rounds d hd := (h.log.rounds d hd).count

/-- In every run no assertion of the codec or of `readDisable` fails, and the requests are served. -/
theorem pipelined_served (config : DrainConfig) (hhttp : config.http2 = false) (p : RequestParser)
    (At : p.State → RequestPos → Prop) (hfollows : p.Follows At) (rs : List Request)
    (hinit : At p.init (.between rs)) (es : List ServerEvent)
    (hmeet : AllMeet (ServerConnectionImpl.step config) (Possible config rs) (create config p) es) :
    ∃ s, run (ServerConnectionImpl.step config) (create config p) es = some s ∧ Served rs s := by
  have hstep : ∀ s e, (∃ done pos, Live At config rs s done pos) → Possible config rs s e →
      ∃ s', ServerConnectionImpl.step config s e = some s' ∧ ∃ done pos, Live At config rs s' done pos := by
    rintro s e ⟨done, pos, hlive⟩ hpossible
    obtain ⟨s', done', pos', hs', hlive'⟩ := hlive.step hhttp hfollows hpossible
    exact ⟨s', hs', done', pos', hlive'⟩
  obtain ⟨s, hs, done, pos, hlive⟩ := run_safe hstep ⟨[], .between rs, live_create hinit⟩ hmeet
  exact ⟨s, hs, hlive.served hhttp⟩

instance (config : DrainConfig) (rs : List Request) (s : ServerConnectionImpl p) (e : ServerEvent) :
    Decidable (s.Possible config rs e) := by
  cases e <;> simp only [ServerConnectionImpl.Possible] <;> infer_instance

end ServerConnectionImpl

namespace RequestScript

def execute : RequestPos → Bytes → RequestExecution RequestPos
  | .between (r :: rs), _ :: rest => .callback .messageBegin rest (.head r r.head.tail rs)
  | .between rs, _ => .readAll (.between rs)
  | .head r left rs, slice =>
    if slice.length < left.length then .readAll (.head r (left.drop slice.length) rs)
    else
      .callback (.headersComplete false r.headers r.chunked r.contentLength)
        (slice.drop left.length) (.body r r.raw rs)
  | .body r left rs, slice =>
    if slice.length < left.length then
      if r.hasBody && !slice.isEmpty then
        .callback (.body slice) [] (.body r (left.drop slice.length) rs)
      else .readAll (.body r (left.drop slice.length) rs)
    else if r.hasBody && !left.isEmpty then
      .callback (.body left) (slice.drop left.length) (.body r [] rs)
    else .callback .messageComplete (slice.drop left.length) (.between rs)

def parser (rs : List Request) : RequestParser := ⟨RequestPos, .between rs, execute⟩

variable {rs : List Request} {slice : Bytes}

theorem fits_between (hslice : slice <+: Request.stream rs) :
    (execute (.between rs) slice).Fits Eq (.between rs) slice := by
  cases slice with
  | nil => cases rs <;> exact ⟨_, .between _, rfl⟩
  | cons b rest =>
    cases rs with
    | nil => simp [Request.stream] at hslice
    | cons r rs =>
      obtain ⟨b', tail, hhead⟩ := exists_cons_of_ne_nil r.head_ne
      have hb : b = b' := by
        rw [Request.stream, flatMap_cons, Request.bytes, hhead, cons_append, cons_append] at hslice
        exact (cons_prefix_cons.mp hslice).1
      refine ⟨[b], _, rfl, .messageBegin rs (by simp) ?_, rfl⟩
      rw [hhead, hb]
      rfl

variable {r : Request} {left : Bytes}

theorem fits_head (hslice : slice <+: (RequestPos.head r left rs).bytes) :
    (execute (.head r left rs) slice).Fits Eq (.head r left rs) slice := by
  rw [RequestPos.bytes, append_assoc] at hslice
  have hcases := slice_cases hslice
  rw [execute]
  by_cases hlt : slice.length < left.length
  · rw [if_pos hlt] at hcases ⊢
    have hsilent : Silent (.head r (slice ++ left.drop slice.length) rs) slice _ :=
      .head r slice rs (by simpa using hlt)
    rw [hcases] at hsilent
    exact ⟨_, hsilent, rfl⟩
  · rw [if_neg hlt] at hcases ⊢
    have hraises := Raises.headersComplete r left [] rs
    rw [append_nil] at hraises
    exact ⟨left, _, hcases.symm, hraises, rfl⟩

theorem fits_body (hslice : slice <+: (RequestPos.body r left rs).bytes) :
    (execute (.body r left rs) slice).Fits Eq (.body r left rs) slice := by
  have hcases := slice_cases hslice
  rw [execute]
  by_cases hlt : slice.length < left.length
  · rw [if_pos hlt] at hcases ⊢
    split
    · rename_i hdata
      rw [Bool.and_eq_true] at hdata
      have hraises := Raises.body slice (left.drop slice.length) slice rs hdata.1
      rw [hcases] at hraises
      exact ⟨slice, _, (append_nil slice).symm, hraises, rfl⟩
    · have hsilent : Silent (.body r (slice ++ left.drop slice.length) rs) slice _ :=
        .body r slice rs (by simpa using hlt)
      rw [hcases] at hsilent
      exact ⟨_, hsilent, rfl⟩
  · rw [if_neg hlt] at hcases ⊢
    split
    · rename_i hdata
      rw [Bool.and_eq_true] at hdata
      have hraises := Raises.body left [] left rs hdata.1
      rw [append_nil] at hraises
      exact ⟨left, _, hcases.symm, hraises, rfl⟩
    · exact ⟨left, _, hcases.symm, .messageComplete r left rs, rfl⟩

theorem follows (rs : List Request) : (parser rs).Follows Eq := by
  rintro state pos slice rfl hslice
  cases state with
  | between rs => exact fits_between hslice
  | head r left rs => exact fits_head hslice
  | body r left rs => exact fits_body hslice

end RequestScript

def hostHeaders : Headers :=
  ⟨(HeaderMap.new.maybeCreateInline .host ⟨.inline, ascii "a"⟩).maybeCreateInline .path
      ⟨.inline, ascii "/"⟩,
    HeaderMap.consistent_maybeCreateInline
      (HeaderMap.consistent_maybeCreateInline HeaderMap.consistent_new .host _) .path _⟩

def okHeaders : Headers :=
  ⟨HeaderMap.new.maybeCreateInline .status ⟨.inline, ascii "200"⟩,
    HeaderMap.consistent_maybeCreateInline HeaderMap.consistent_new .status _⟩

def postRequest : Request where
  headers := hostHeaders
  chunked := false
  contentLength := 2
  head := ascii "POST / HTTP/1.1\r\nhost: a\r\ncontent-length: 2\r\n\r\n"
  raw := ascii "hi"
  head_ne := by decide +kernel
  noBody := fun h => absurd h (by decide)
  keepsOpen := by decide +kernel

def getRequest : Request where
  headers := hostHeaders
  chunked := false
  contentLength := 18446744073709551615
  head := ascii "GET / HTTP/1.1\r\nhost: a\r\n\r\n"
  raw := []
  head_ne := by decide +kernel
  noBody := fun _ => rfl
  keepsOpen := by decide +kernel

def flushedAnswers (flushed : Bool) : Answers :=
  ⟨⟨.new, HeaderMap.consistent_new⟩, false, false, flushed, [], none⟩

/-- The second request comes with the body of the first, and the response to the first when both
have come. The second is then read by the faked event. -/
def pipelinedEvents : List ServerEvent :=
  let a := flushedAnswers true
  [.readReady [postRequest.head], .proceed a, .proceed a, .proceed a, .proceed a, .proceed a,
    .readReady [postRequest.raw ++ getRequest.head], .proceed a, .proceed a, .proceed a,
    .commonEncodePrefix 0, .encodeHeaders 0 okHeaders true a,
    .readReady [], .proceed a, .proceed a, .proceed a,
    .commonEncodePrefix 1, .encodeHeaders 1 okHeaders true a, .proceed a]

theorem pipelinedEvents_served : ∃ s, run (ServerConnectionImpl.step (sampleDrainConfig false))
        (.create (sampleDrainConfig false) (RequestScript.parser [postRequest, getRequest]))
        pipelinedEvents = some s ∧ s.Served [postRequest, getRequest] := by
  have hmeet : AllMeet (ServerConnectionImpl.step (sampleDrainConfig false))
      (ServerConnectionImpl.Possible (sampleDrainConfig false) [postRequest, getRequest])
      (.create (sampleDrainConfig false) (RequestScript.parser [postRequest, getRequest]))
      pipelinedEvents := by
    decide +kernel
  exact ServerConnectionImpl.pipelined_served (sampleDrainConfig false) rfl
    (RequestScript.parser [postRequest, getRequest]) Eq (RequestScript.follows _)
    [postRequest, getRequest] rfl pipelinedEvents hmeet

def earlyResponse : List ServerEvent :=
  let a := flushedAnswers false
  [.readReady [postRequest.head ++ postRequest.raw ++ getRequest.head], .proceed a, .proceed a,
    .commonEncodePrefix 0, .encodeHeaders 0 okHeaders true a, .proceed a, .proceed a]

/-- The second request stays in the buffer of the connection, which is about to close. -/
theorem earlyResponse_strands :
    ¬∀ (config : DrainConfig) (p : RequestParser) (At : p.State → RequestPos → Prop)
      (rs : List Request) (es : List ServerEvent), config.http2 = false → p.Follows At →
      At p.init (.between rs) →
      AllMeet (ServerConnectionImpl.step config) (ServerConnectionImpl.Possible config rs)
        (.create config p) es →
      ∃ s, run (ServerConnectionImpl.step config) (.create config p) es = some s ∧
        (s.connection.readBuffer.flatten ≠ [] → s.manager.streams = [] →
          s.connection.readActivated = true ∨ s.dispatch.isSome = true) := by
  intro h
  have hmeet : AllMeet (ServerConnectionImpl.step (sampleDrainConfig false))
      (ServerConnectionImpl.Possible (sampleDrainConfig false) [postRequest, getRequest])
      (.create (sampleDrainConfig false) (RequestScript.parser [postRequest, getRequest]))
      earlyResponse := by
    decide +kernel
  obtain ⟨s, hs, hpending⟩ := h (sampleDrainConfig false)
    (RequestScript.parser [postRequest, getRequest]) Eq [postRequest, getRequest] earlyResponse rfl
    (RequestScript.follows _) rfl hmeet
  have hend : (run (ServerConnectionImpl.step (sampleDrainConfig false))
      (.create (sampleDrainConfig false) (RequestScript.parser [postRequest, getRequest]))
      earlyResponse).map (fun s => (s.connection.length, s.manager.streams.isEmpty,
        s.connection.readActivated, s.dispatch.isSome)) = some (29, true, false, false) := by
    decide +kernel
  rw [hs, map_some, some_inj] at hend
  simp only [Prod.mk.injEq, List.isEmpty_iff] at hend
  obtain ⟨hlength, hstreams, hactivated, hdispatch⟩ := hend
  rcases hpending (length_pos_iff.mp (by rw [← Network.ConnectionImpl.length, hlength]; decide))
    hstreams with hevent | hrunning
  · rw [hactivated] at hevent
    cases hevent
  · rw [hdispatch] at hrunning
    cases hrunning

end Meliproxy.Envoy.Http.Http1
