import Meliproxy.Envoy.Http.EdgeRequest

/-!
# The headers of an external client

After `mutateRequestHeaders`, an external request has none of the headers that control the
proxy. The proxy sets some headers itself after it has removed the client's; `Own` says
which values these have.
-/

namespace Meliproxy.Envoy.Http

open Lib List Network HeaderMap Option

variable {c : Context} {m : HeaderMap}

/-- A value that the proxy itself gives to a header of an external request. -/
def Own (c : Context) : InlineHeader → Bytes → Prop
  | .envoyDownstreamServiceCluster, v => c.config.userAgent = some v
  | .userAgent, v => c.config.userAgent = some v
  | .envoyDownstreamServiceNode, v => c.config.userAgent.isSome ∧ c.nodeName = v ∧ v ≠ []
  | .envoyExternalAddress, v => ∃ ip, c.connection.remoteAddress = .ip ip ∧ ip.addressAsString = v
  | .requestId, v =>
    c.config.generateRequestId = true ∧ (v = c.uuid ∨
      ∃ clientTraceId forceTrace,
        traceRequestId c.errno c.runtime clientTraceId forceTrace (cStr c.uuid) = some v)
  | .forwardedClientCert, v =>
    ∃ ssl, c.connection.ssl = some ssl ∧ v = clientCertDetails c.config ssl
  | _, _ => False

variable {header : InlineHeader} {v : HeaderString}

section

variable (hc : m.Consistent)
include hc

theorem own_insertUserAgent
    (hheader : header ∈ [.envoyDownstreamServiceCluster, .userAgent, .envoyDownstreamServiceNode])
    (hnone : m.value header = none) (hv : (insertUserAgent c m).value header = some v) :
    Own c header v.bytes := by
  unfold insertUserAgent at hv
  split at hv
  · rw [hnone] at hv
    cases hv
  · rename_i userAgent huser
    simp only at hv
    have h₁ := within_insertInline hc .envoyDownstreamServiceCluster (·.setCopy userAgent)
    have v₁ := value_insertInline hc .envoyDownstreamServiceCluster (·.setCopy userAgent)
    have h₂ := within_insertInline h₁.consistent .userAgent fun value =>
      if value.empty then .setReference userAgent else value
    have v₂ := value_insertInline h₁.consistent .userAgent fun value =>
      if value.empty then .setReference userAgent else value
    have h₃ : Within [.envoyDownstreamServiceNode] _ _ := within_insertInline h₂.consistent
      .envoyDownstreamServiceNode (·.setCopy c.nodeName)
    have v₃ := value_insertInline h₂.consistent .envoyDownstreamServiceNode (·.setCopy c.nodeName)
    simp only [mem_cons, not_mem_nil, or_false] at hheader
    rcases hheader with rfl | rfl | rfl
    · have hvalue := (h₂.value .envoyDownstreamServiceCluster (by decide)).trans v₁
      rw [Own, huser]
      split at hv
      · rw [← Option.some.inj (hvalue.symm.trans hv), setCopy_bytes]
      · have hlast := (h₃.value .envoyDownstreamServiceCluster (by decide)).trans hvalue
        rw [← Option.some.inj (hlast.symm.trans hv), setCopy_bytes]
    · rw [h₁.value .userAgent (by decide), hnone] at v₂
      have hlast : some v = some (.setReference userAgent) := by
        split at hv
        · exact hv.symm.trans v₂
        · exact hv.symm.trans ((h₃.value .userAgent (by decide)).trans v₂)
      rw [Own, huser, Option.some.inj hlast]
      rfl
    · have hfirst := (h₂.value .envoyDownstreamServiceNode (by decide)).trans
        (h₁.value .envoyDownstreamServiceNode (by decide))
      split at hv
      · rw [hfirst, hnone] at hv
        cases hv
      · rename_i hnode
        cases v₃.symm.trans hv
        refine ⟨by rw [huser]; rfl, ?_, ?_⟩
        · exact (setCopy_bytes _ _).symm
        · rw [setCopy_bytes]
          exact hnode

theorem own_insertRequestId (hnone : m.value .requestId = none)
    (hv : (insertRequestId c true m).value .requestId = some v) :
    c.config.generateRequestId = true ∧ v.bytes = c.uuid := by
  unfold insertRequestId at hv
  split at hv
  · rename_i hgenerate
    rw [value_insertInline hc] at hv
    cases hv
    exact ⟨hgenerate.1, setCopy_bytes _ _⟩
  · rw [hnone] at hv
    cases hv

theorem own_tracing (hown : ∀ v, m.value .requestId = some v → c.config.generateRequestId = true ∧
    v.bytes = c.uuid)
    (hv : (if c.config.tracingConfig.isSome then mutateTracingHeaders c m else m).value .requestId =
      some v) : Own c .requestId v.bytes := by
  have hsame : m.value .requestId = some v → Own c .requestId v.bytes := by
    intro h
    obtain ⟨hgenerate, hbytes⟩ := hown v h
    exact ⟨hgenerate, .inl hbytes⟩
  split at hv
  · unfold mutateTracingHeaders at hv
    split at hv
    · exact hsame hv
    · rename_i requestId hrequest
      obtain ⟨hgenerate, hbytes⟩ := hown requestId hrequest
      split at hv
      · exact hsame hv
      · rename_i id hid
        rw [value_modifyInline hc, hrequest] at hv
        cases hv
        refine ⟨hgenerate, .inr ⟨(m.value .clientTraceId).isSome, (m.value .envoyForceTrace).isSome, ?_⟩⟩
        rw [setCopy_bytes, ← hbytes]
        exact hid
  · exact hsame hv

theorem own_mutateXfccRequestHeader (hnone : m.value .forwardedClientCert = none)
    (hv : (mutateXfccRequestHeader c m).value .forwardedClientCert = some v) :
    Own c .forwardedClientCert v.bytes := by
  have hremove := value_removeInline hc .forwardedClientCert
  have hset : ∀ ssl, c.connection.ssl = some ssl →
      (m.insertInline .forwardedClientCert (·.setCopy (clientCertDetails c.config ssl))).value
        .forwardedClientCert = some v → Own c .forwardedClientCert v.bytes := by
    intro ssl hssl h
    rw [value_insertInline hc] at h
    cases h
    exact ⟨ssl, hssl, setCopy_bytes _ _⟩
  unfold mutateXfccRequestHeader at hv
  split at hv
  · rw [hnone] at hv
    cases hv
  · rw [hremove] at hv
    cases hv
  · split at hv
    · rw [hremove] at hv
      cases hv
    · rename_i ssl hssl
      split at hv
      · split at hv
        · simp only [appendXfcc, hnone] at hv
          exact hset ssl hssl hv
        · exact hset ssl hssl hv
        · rw [hnone] at hv
          cases hv
      · rw [hremove] at hv
        cases hv

theorem insertExternalAddress_value {ip : Ip} (hremote : c.connection.remoteAddress = .ip ip) :
    ∃ v, (insertExternalAddress c true m).value .envoyExternalAddress = some v ∧
      v.bytes = ip.addressAsString := by
  simp only [insertExternalAddress, hremote, if_true]
  exact ⟨_, value_insertInline hc _ _, setCopy_bytes _ _⟩

theorem own_insertOwnHeaders {ip : Ip}
    (hremote : c.connection.remoteAddress = .ip ip) (hnone : m.value header = none)
    (hv : (insertOwnHeaders c true m).value header = some v) : Own c header v.bytes := by
  have h₁ := within_insertUserAgent (c := c) hc
  have h₂ := within_insertExternalAddress (c := c) h₁.consistent true
  have h₃ := within_insertRequestId (c := c) h₂.consistent true
  have h₄ := within_tracing (c := c) h₃.consistent
  have h₅ := within_mutateXfccRequestHeader (c := c) h₄.consistent
  have hlast := ((h₂.trans h₃).trans h₄).trans h₅
  by_cases hmem : header ∈ ownHeaders
  · simp only [ownHeaders, mem_cons, not_mem_nil, or_false] at hmem
    rcases hmem with rfl | rfl | rfl | rfl | rfl | rfl
    · exact own_insertUserAgent hc (by decide) hnone ((hlast.value _ (by decide)).symm.trans hv)
    · exact own_insertUserAgent hc (by decide) hnone ((hlast.value _ (by decide)).symm.trans hv)
    · exact own_insertUserAgent hc (by decide) hnone ((hlast.value _ (by decide)).symm.trans hv)
    · obtain ⟨w, hw, hbytes⟩ := insertExternalAddress_value h₁.consistent hremote
      have hvalue := ((h₃.trans h₄).trans h₅).value .envoyExternalAddress (by decide)
      cases hw.symm.trans (hvalue.symm.trans hv)
      exact ⟨ip, hremote, hbytes.symm⟩
    · have hfirst := ((h₁.trans h₂).value .requestId (by decide)).trans hnone
      refine own_tracing h₃.consistent ?_ ((h₅.value .requestId (by decide)).symm.trans hv)
      intro w hw
      exact own_insertRequestId h₂.consistent hfirst hw
    · have hfirst := (((h₁.trans h₂).trans h₃).trans h₄).value .forwardedClientCert (by decide)
      exact own_mutateXfccRequestHeader h₄.consistent (hfirst.trans hnone) hv
  · have hsame := (within_insertOwnHeaders (c := c) hc true).value header hmem
    rw [hsame, hnone] at hv
    cases hv

theorem applyInternal_removed (huse : c.config.useRemoteAddress = true)
    (hheader : header ∈ edgeHeaders ++ controlHeaders) :
    (applyInternal c false m).value header = none := by
  have hedge := within_removeAll hc edgeHeaders
  have hcontrol := within_removeAll hedge.consistent controlHeaders
  have hnone : (removeAll controlHeaders (removeAll edgeHeaders m)).value header = none := by
    by_cases hmem : header ∈ controlHeaders
    · exact value_removeAll hedge.consistent hmem
    · have hmem' : header ∈ edgeHeaders := (mem_append.mp hheader).resolve_right hmem
      exact (hcontrol.value header hmem).trans (value_removeAll hc hmem')
  simp only [applyInternal, huse, if_true, Bool.false_eq_true, if_false]
  rcases (shrinks_removeInternalOnly hcontrol.consistent c.internalOnlyHeaders).value header with h | h
  · exact h.trans hnone
  · exact h

theorem applyInternal_other {key : LowerCaseString}
    (hkey : key ∈ c.internalOnlyHeaders) (hlookup : staticLookup (cStr key.get) = none) :
    ¬ (applyInternal c false m).HasKey (cStr key.get) :=
  not_hasKey_removeInternalOnly (consistent_removals hc) hkey hlookup

theorem applyInternal_internalRequest (huse : c.config.useRemoteAddress = true)
    (hnone : m.value .envoyInternalRequest = none) :
    (applyInternal c false m).value .envoyInternalRequest = none := by
  have hedge := within_removeAll hc edgeHeaders
  have hcontrol := hedge.trans (within_removeAll hedge.consistent controlHeaders)
  have hsame := (hcontrol.value .envoyInternalRequest (by decide)).trans hnone
  simp only [applyInternal, huse, if_true, Bool.false_eq_true, if_false]
  rcases (shrinks_removeInternalOnly hcontrol.consistent c.internalOnlyHeaders).value
    .envoyInternalRequest with h | h
  · exact h.trans hsame
  · exact h

theorem value_of_hasKey {key : Bytes} (hlookup : staticLookup key = some header)
    (hhas : m.HasKey key) : ∃ v, m.value header = some v := by
  obtain ⟨e, he, rfl⟩ := hhas
  have hpointer := hc.entry e he header hlookup
  obtain ⟨e', he', -⟩ := inlineEntry_of_pointer hc hpointer
  exact ⟨e'.value, by rw [value, he']; rfl⟩

end

/-- The headers of an external request. Of the configured headers only those are there that
the proxy sets itself. -/
structure Sanitized (c : Context) (ip : Ip) (m : HeaderMap) : Prop where
  internal : ¬ m.HasKey InlineHeader.envoyInternalRequest.key
  control : ∀ header ∈ InlineHeader.envoyDecoratorOperation :: controlHeaders, ¬ m.HasKey header.key
  downstream : ∀ header ∈ [InlineHeader.envoyDownstreamServiceCluster, .envoyDownstreamServiceNode],
    ∀ v, m.value header = some v → Own c header v.bytes
  listed : ∀ key ∈ c.internalOnlyHeaders, m.HasKey (cStr key.get) →
    ∃ header v, staticLookup (cStr key.get) = some header ∧ m.value header = some v ∧
      Own c header v.bytes
  externalAddress : ∃ v, m.value .envoyExternalAddress = some v ∧ v.bytes = ip.addressAsString

theorem mutateRequestHeaders_sanitized {headers : List (HeaderString × HeaderString)} {ip : Ip}
    (huse : c.config.useRemoteAddress = true) (hremote : c.connection.remoteAddress = .ip ip)
    (hloopback : isLoopbackAddress c.connection.remoteAddress = false)
    (hexternal : isInternalAddress ip.addressAsString = false)
    (hnul : ∀ v, (ofHeaders headers).value .forwardedFor = some v → 0 ∉ v.bytes) :
    Sanitized c ip (mutateRequestHeaders c (ofHeaders headers)) := by
  have hc := consistent_ofHeaders headers
  have happlied := consistent_applyRemoteAddress (c := c) hc
  have hinternal := isInternalRequest_external hc huse hremote hloopback hnul hexternal
  have hremoved := consistent_applyInternal (c := c) happlied false
  have hown := within_insertOwnHeaders (c := c) hremoved true
  have heq : mutateRequestHeaders c (ofHeaders headers) = insertOwnHeaders c true
      (applyInternal c false (applyRemoteAddress c (cleanProxyHeaders c (ofHeaders headers)))) := by
    simp only [mutateRequestHeaders_eq, hinternal, huse]
    rfl
  rw [heq]
  refine ⟨?_, ?_, ?_, ?_, ?_⟩
  · rw [hasKey_iff hown.consistent, not_not, hown.value _ (by decide)]
    refine applyInternal_internalRequest happlied huse ?_
    have hclean := within_cleanProxyHeaders (c := c) hc
    rw [(within_applyRemoteAddress hclean.consistent).value _ (by decide)]
    exact internalRequest_cleanProxyHeaders hc
  · intro header hheader
    have hnotOwn : ∀ header ∈ InlineHeader.envoyDecoratorOperation :: controlHeaders,
        header ∉ ownHeaders ∧ header ∈ edgeHeaders ++ controlHeaders := by decide
    obtain ⟨hmem, hremove⟩ := hnotOwn header hheader
    rw [hasKey_iff hown.consistent, not_not, hown.value _ hmem]
    exact applyInternal_removed happlied huse hremove
  · intro header hheader v hv
    have hedge : ∀ header ∈ [InlineHeader.envoyDownstreamServiceCluster, .envoyDownstreamServiceNode],
        header ∈ edgeHeaders ++ controlHeaders := by decide
    exact own_insertOwnHeaders hremoved hremote
      (applyInternal_removed happlied huse (hedge header hheader)) hv
  · intro key hkey hhas
    cases hlookup : staticLookup (cStr key.get) with
    | none =>
      exact absurd (hown.other _ hlookup hhas) (applyInternal_other happlied hkey hlookup)
    | some header =>
      obtain ⟨v, hv⟩ := value_of_hasKey hown.consistent hlookup hhas
      exact ⟨header, v, rfl, hv, own_insertOwnHeaders hremoved hremote
        (applyInternal_listed happlied hkey hlookup) hv⟩
  · have h₁ := within_insertUserAgent (c := c) hremoved
    have h₂ := within_insertExternalAddress (c := c) h₁.consistent true
    have h₃ := within_insertRequestId (c := c) h₂.consistent true
    have h₄ := within_tracing (c := c) h₃.consistent
    have h₅ := within_mutateXfccRequestHeader (c := c) h₄.consistent
    obtain ⟨v, hv, hbytes⟩ := insertExternalAddress_value (c := c) h₁.consistent hremote
    exact ⟨v, (((h₃.trans h₄).trans h₅).value _ (by decide)).trans hv, hbytes⟩

theorem mutateRequestHeaders_sanitized_sample :
    Sanitized (sampleContext [forwardedForKey]) (.v4 ⟨8, 8, 8, 8⟩)
      (mutateRequestHeaders (sampleContext [forwardedForKey])
        (ofHeaders (sampleHeaders (ascii "10.0.0.1")))) :=
  mutateRequestHeaders_sanitized (c := sampleContext [forwardedForKey]) rfl rfl (by decide)
    (by decide) (zero_notMem_sample (by decide))

def requestIdKey : LowerCaseString := ⟨InlineHeader.requestId.key, by decide⟩

theorem requestId_of_generate (hc : m.Consistent) (hgenerate : c.config.generateRequestId = true)
    (htracing : c.config.tracingConfig = none) :
    (insertOwnHeaders c true m).value .requestId ≠ none := by
  have h₁ := within_insertUserAgent (c := c) hc
  have h₂ := within_insertExternalAddress (c := c) h₁.consistent true
  have h₃ := within_insertRequestId (c := c) h₂.consistent true
  simp only [insertOwnHeaders, htracing, isSome_none, Bool.false_eq_true, if_false]
  rw [(within_mutateXfccRequestHeader h₃.consistent).value _ (by decide), insertRequestId,
    if_pos ⟨hgenerate, .inl rfl⟩, value_insertInline h₂.consistent]
  exact some_ne_none _

/-- A configured header can be there at the end, as the proxy's own, and a NUL byte after an
internal address makes the request internal. -/
theorem mutateRequestHeaders_not_sanitized : (mutateRequestHeaders (sampleContext [requestIdKey])
      (ofHeaders (sampleHeaders (ascii "1.2.3.4")))).HasKey (cStr requestIdKey.get) ∧
    (mutateRequestHeaders (sampleContext [])
      (ofHeaders (sampleHeaders (ascii "10.0.0.1" ++ [0])))).HasKey
        InlineHeader.envoyInternalRequest.key := by
  constructor
  · have hc := consistent_ofHeaders (sampleHeaders (ascii "1.2.3.4"))
    have hinternal := isInternalRequest_external (c := sampleContext [requestIdKey]) hc rfl rfl
      (by decide) (zero_notMem_sample (by decide)) (by decide)
    rw [requestIdKey, InlineHeader.cStr_key, hasKey_iff (consistent_mutateRequestHeaders hc)]
    simp only [mutateRequestHeaders_eq]
    rw [← requestIdKey, hinternal]
    exact requestId_of_generate (consistent_applyInternal (consistent_applyRemoteAddress hc) _) rfl rfl
  · have hc := consistent_ofHeaders (sampleHeaders (ascii "10.0.0.1" ++ [0]))
    obtain ⟨header, hheader, hcstr⟩ := sample_nul (by decide : 0 ∉ ascii "10.0.0.1")
    have hinternal : isInternalRequest (applyRemoteAddress (sampleContext []) (cleanProxyHeaders
        (sampleContext []) (ofHeaders (sampleHeaders (ascii "10.0.0.1" ++ [0]))))) = true := by
      simp only [isInternalRequest, hheader, hcstr]
      decide
    rw [hasKey_iff (consistent_mutateRequestHeaders hc), mutateRequestHeaders_value hc (by decide),
      hinternal, applyInternal, if_pos rfl, value_insertInline (consistent_applyRemoteAddress hc)]
    exact some_ne_none _

end Meliproxy.Envoy.Http
