import Meliproxy.Envoy.Http.ConnManager
import Meliproxy.Envoy.Http.HeaderMapConsistent

/-!
# A request at the edge

What a client can do to the address that the rate limits use, which is the last one in
`x-forwarded-for`. Each section of `mutateRequestHeaders` has the list of the inline headers
it can change.
-/

namespace Meliproxy.Envoy.Http

open Lib List Network HeaderMap

variable {c : Context} {m : HeaderMap}

theorem append_bytes (s : HeaderString) (data : Bytes) :
    (s.append data).bytes = (if s.type = .reference then [] else s.bytes) ++ data := by
  unfold HeaderString.append
  by_cases h : s.type = .reference
  · simp only [h, if_true]
    split <;> rfl
  · simp only [h, if_false]
    split <;> rfl

theorem append_type (s : HeaderString) (data : Bytes) : (s.append data).type ≠ .reference := by
  simp only [HeaderString.append]
  split <;> split <;> simp

def forwarded (before : Option Bytes) (text : Bytes) : Bytes :=
  match before with
  | none => text
  | some before => before ++ 44 :: 32 :: text

theorem appendXff_value (hc : m.Consistent) (ip : Ip) :
    ∃ header before, (appendXff m (.ip ip)).value .forwardedFor = some header ∧
      header.bytes = forwarded before ip.addressAsString ∧
      ∀ b, before = some b → b = [] ∨ ∃ v, m.value .forwardedFor = some v ∧ b = v.bytes := by
  have hvalue := value_insertInline hc .forwardedFor fun header =>
    (if header.empty then header else header.append [44, 32]).append ip.addressAsString
  generalize hv : (m.value .forwardedFor).getD .new = v at hvalue
  by_cases hempty : v.bytes = []
  · refine ⟨_, none, hvalue, ?_, ?_⟩
    · simp [HeaderString.empty, hempty, append_bytes, forwarded]
    · intro b hb
      cases hb
  · have hsome : m.value .forwardedFor = some v := by
      cases hm : m.value .forwardedFor with
      | none =>
        rw [hm] at hv
        exact absurd (hv ▸ rfl) hempty
      | some v' =>
        rw [hm] at hv
        exact congrArg some hv
    have hbytes : ((v.append [44, 32]).append ip.addressAsString).bytes =
        (if v.type = .reference then [] else v.bytes) ++ 44 :: 32 :: ip.addressAsString := by
      rw [append_bytes, if_neg (append_type v _), append_bytes]
      simp
    refine ⟨_, some (if v.type = .reference then [] else v.bytes), hvalue, ?_, ?_⟩
    · simpa [HeaderString.empty, hempty, forwarded] using hbytes
    · intro b hb
      cases hb
      split
      · exact .inl rfl
      · exact .inr ⟨v, hsome, rfl⟩

theorem not_addressByte_comma : ¬ AddressByte 44 := by decide

theorem not_addressByte_zero : ¬ AddressByte 0 := by decide

theorem comma_notMem_address (ip : Ip) : 44 ∉ ip.addressAsString :=
  fun h => not_addressByte_comma (addressByte_addressAsString h)

theorem zero_notMem_address (ip : Ip) : 0 ∉ ip.addressAsString :=
  fun h => not_addressByte_zero (addressByte_addressAsString h)

theorem split_forwarded (before : Option Bytes) (ip : Ip) :
    (StringUtil.split (forwarded before ip.addressAsString) [44, 32]).getLast? =
      some ip.addressAsString := by
  cases before with
  | none =>
    rw [forwarded, StringUtil.split_plain (addressAsString_ne_nil ip) (comma_notMem_address ip)]
    rfl
  | some before =>
    exact StringUtil.split_last (addressAsString_ne_nil ip) (comma_notMem_address ip) before

variable {ip : Ip}

theorem isInternalAddress_forwarded {before : Option Bytes}
    (h : isInternalAddress (forwarded before ip.addressAsString) = true) :
    isInternalAddress ip.addressAsString = true := by
  cases before with
  | none => exact h
  | some before =>
    have hcomma := isInternalAddress_bytes h 44 (by simp [forwarded])
    exact absurd hcomma not_addressByte_comma

theorem within_cleanProxyHeaders (hc : m.Consistent) :
    Within [.envoyInternalRequest, .keepAlive, .proxyConnection, .transferEncoding, .connection,
      .upgrade] m (cleanProxyHeaders c m) := by
  have h₁ := within_removeInline hc .envoyInternalRequest
  have h₂ := h₁.trans (within_removeInline h₁.consistent .keepAlive)
  have h₃ := h₂.trans (within_removeInline h₂.consistent .proxyConnection)
  have h₄ := h₃.trans (within_removeInline h₃.consistent .transferEncoding)
  have h₅ := h₄.trans (within_removeInline h₄.consistent .connection)
  have h₆ := h₅.trans (within_removeInline h₅.consistent .upgrade)
  simp only [cleanProxyHeaders]
  split
  · exact h₆
  · exact h₄.mono (by decide)

variable {header : InlineHeader}

section

variable (hc : m.Consistent)
include hc

theorem value_removeInline_none (hnone : m.value header = none)
    (header' : InlineHeader) : (m.removeInline header').value header = none := by
  by_cases hne : header = header'
  · exact hne ▸ value_removeInline hc header
  · rw [value_removeInline_of_ne hc hne, hnone]

theorem internalRequest_cleanProxyHeaders :
    (cleanProxyHeaders c m).value .envoyInternalRequest = none := by
  have c₁ := consistent_removeInline hc .envoyInternalRequest
  have c₂ := consistent_removeInline c₁ .keepAlive
  have c₃ := consistent_removeInline c₂ .proxyConnection
  have c₄ := consistent_removeInline c₃ .transferEncoding
  have v₂ := value_removeInline_none c₁ (value_removeInline hc .envoyInternalRequest) .keepAlive
  have v₃ := value_removeInline_none c₂ v₂ .proxyConnection
  have v₄ := value_removeInline_none c₃ v₃ .transferEncoding
  have v₅ := value_removeInline_none c₄ v₄ .connection
  simp only [cleanProxyHeaders]
  split
  · exact value_removeInline_none (consistent_removeInline c₄ .connection) v₅ .upgrade
  · exact v₄

theorem within_appendXff (address : Address) : Within [.forwardedFor] m (appendXff m address) := by
  cases address with
  | pipe path => exact (Within.rfl hc).mono (by simp)
  | ip ip => exact within_insertInline hc _ _

theorem within_insertForwardedProto :
    Within [.forwardedProto] m (insertForwardedProto c m) := within_insertInline hc _ _

theorem within_applyRemoteAddress :
    Within [.forwardedFor, .forwardedProto] m (applyRemoteAddress c m) := by
  have hxff : ∀ address, Within [.forwardedFor, .forwardedProto] m
      (insertForwardedProto c (appendXff m address)) := by
    intro address
    have h₁ := within_appendXff hc address
    exact h₁.trans (within_insertForwardedProto h₁.consistent)
  have hlast : ∀ m' : HeaderMap, Within [.forwardedFor, .forwardedProto] m m' →
      Within [.forwardedFor, .forwardedProto] m
        (if (m'.value .forwardedProto).isNone then insertForwardedProto c m' else m') := by
    intro m' h'
    split
    · exact (h'.trans (within_insertForwardedProto h'.consistent)).mono (by decide)
    · exact h'
  apply hlast
  split
  · simp only
    split
    · exact hxff _
    · exact hxff _
  · exact (Within.rfl hc).mono (by simp)

theorem applyRemoteAddress_forwardedFor (huse : c.config.useRemoteAddress = true)
    (hremote : c.connection.remoteAddress = .ip ip)
    (hloopback : isLoopbackAddress c.connection.remoteAddress = false) :
    (applyRemoteAddress c m).value .forwardedFor = (appendXff m (.ip ip)).value .forwardedFor := by
  have hxff := within_appendXff hc (.ip ip)
  have hproto := within_insertForwardedProto (c := c) hxff.consistent
  simp only [applyRemoteAddress, huse, hloopback, if_true, Bool.false_eq_true, if_false]
  rw [hremote]
  split
  · have hagain := within_insertForwardedProto (c := c) hproto.consistent
    exact (hagain.value .forwardedFor (by decide)).trans (hproto.value .forwardedFor (by decide))
  · exact hproto.value .forwardedFor (by decide)

theorem within_removeAll (headers : List InlineHeader) :
    Within headers m (removeAll headers m) := by
  induction headers generalizing m with
  | nil => exact Within.rfl hc
  | cons header headers ih =>
    have h₁ := within_removeInline hc header
    exact h₁.trans (ih h₁.consistent)

theorem value_removeAll {headers : List InlineHeader} (hmem : header ∈ headers)
    : (removeAll headers m).value header = none := by
  induction headers generalizing m with
  | nil => cases hmem
  | cons header' headers ih =>
    have hc' := consistent_removeInline hc header'
    by_cases hrest : header ∈ headers
    · exact ih hc' hrest
    · rcases mem_cons.mp hmem with rfl | hmem
      · exact ((within_removeAll hc' headers).value header hrest).trans (value_removeInline hc header)
      · exact absurd hmem hrest

end

/-- Removals only ever remove. -/
structure Shrinks (m m' : HeaderMap) : Prop where
  consistent : m'.Consistent
  value : ∀ header, m'.value header = m.value header ∨ m'.value header = none
  other : ∀ key, m'.HasKey key → m.HasKey key

variable {key : LowerCaseString}

theorem hasKey_remove {key' : Bytes} (h : (m.remove key).HasKey key') : m.HasKey key' := by
  obtain ⟨e, he, hkey⟩ := h
  unfold remove at he
  split at he
  · unfold removeInline at he
    split at he
    · exact ⟨e, (mem_filter.mp he).1, hkey⟩
    · exact ⟨e, he, hkey⟩
  · exact ⟨e, (mem_filter.mp he).1, hkey⟩

theorem shrinks_removeInternalOnly (hc : m.Consistent) (keys : List LowerCaseString) :
    Shrinks m (removeInternalOnly keys m) := by
  induction keys generalizing m with
  | nil => exact ⟨hc, fun _ => .inl rfl, fun _ h => h⟩
  | cons key keys ih =>
    have hrest := ih (consistent_remove hc key)
    refine ⟨hrest.consistent, ?_, fun key' h => hasKey_remove (hrest.other key' h)⟩
    intro header
    rcases hrest.value header with h | h
    · by_cases hlookup : staticLookup (cStr key.get) = some header
      · exact .inr (h.trans (value_remove hc hlookup))
      · exact .inl (h.trans (value_remove_of_ne hc hlookup))
    · exact .inr h

variable {keys : List LowerCaseString}

section

variable (hc : m.Consistent)
include hc

theorem value_removeInternalOnly_of_ne
    (hne : ∀ key ∈ keys, staticLookup (cStr key.get) ≠ some header) :
    (removeInternalOnly keys m).value header = m.value header := by
  induction keys generalizing m with
  | nil => rfl
  | cons key keys ih =>
    have hrest := ih (consistent_remove hc key) fun key' hkey' => hne key' (mem_cons_of_mem _ hkey')
    exact hrest.trans (value_remove_of_ne hc (hne key mem_cons_self))

theorem value_removeInternalOnly (hkey : key ∈ keys)
    (hlookup : staticLookup (cStr key.get) = some header) :
    (removeInternalOnly keys m).value header = none := by
  induction keys generalizing m with
  | nil => cases hkey
  | cons key' keys ih =>
    have hc' := consistent_remove hc key'
    rcases mem_cons.mp hkey with rfl | hkey
    · rcases (shrinks_removeInternalOnly hc' keys).value header with h | h
      · exact h.trans (value_remove hc hlookup)
      · exact h
    · exact ih hc' hkey

theorem not_hasKey_removeInternalOnly (hkey : key ∈ keys)
    (hlookup : staticLookup (cStr key.get) = none) :
    ¬ (removeInternalOnly keys m).HasKey (cStr key.get) := by
  induction keys generalizing m with
  | nil => cases hkey
  | cons key' keys ih =>
    have hc' := consistent_remove hc key'
    rcases mem_cons.mp hkey with rfl | hkey
    · intro h
      exact not_hasKey_remove hlookup ((shrinks_removeInternalOnly hc' keys).other _ h)
    · exact ih hc' hkey

theorem within_insertUserAgent :
    Within [.envoyDownstreamServiceCluster, .userAgent, .envoyDownstreamServiceNode] m
      (insertUserAgent c m) := by
  unfold insertUserAgent
  split
  · exact (Within.rfl hc).mono (by simp)
  · rename_i userAgent _
    have h₁ := within_insertInline hc .envoyDownstreamServiceCluster (·.setCopy userAgent)
    have h₂ := h₁.trans (within_insertInline h₁.consistent .userAgent fun value =>
      if value.empty then .setReference userAgent else value)
    simp only
    split
    · exact h₂.mono (by decide)
    · exact h₂.trans (within_insertInline h₂.consistent .envoyDownstreamServiceNode _)

theorem within_insertExternalAddress (edgeRequest : Bool) :
    Within [.envoyExternalAddress] m (insertExternalAddress c edgeRequest m) := by
  unfold insertExternalAddress
  split
  · exact (Within.rfl hc).mono (by simp)
  · split
    · exact within_insertInline hc _ _
    · exact (Within.rfl hc).mono (by simp)

theorem within_insertRequestId (edgeRequest : Bool) :
    Within [.requestId] m (insertRequestId c edgeRequest m) := by
  unfold insertRequestId
  split
  · exact within_insertInline hc _ _
  · exact (Within.rfl hc).mono (by simp)

theorem within_mutateTracingHeaders : Within [.requestId] m (mutateTracingHeaders c m) := by
  unfold mutateTracingHeaders
  split
  · exact (Within.rfl hc).mono (by simp)
  · split
    · exact (Within.rfl hc).mono (by simp)
    · exact within_modifyInline hc _ _

theorem within_mutateXfccRequestHeader :
    Within [.forwardedClientCert] m (mutateXfccRequestHeader c m) := by
  have hsame : Within [.forwardedClientCert] m m := (Within.rfl hc).mono (by simp)
  have hremove := within_removeInline hc .forwardedClientCert
  unfold mutateXfccRequestHeader
  split
  · exact hsame
  · exact hremove
  · split
    · exact hremove
    · split
      · split
        · unfold appendXfcc
          split
          · split
            · exact within_insertInline hc _ _
            · exact within_modifyInline hc _ _
          · exact within_insertInline hc _ _
        · exact within_insertInline hc _ _
        · exact hsame
      · exact hremove

end

def insertOwnHeaders (c : Context) (edgeRequest : Bool) (m : HeaderMap) : HeaderMap :=
  let m := insertUserAgent c m
  let m := insertExternalAddress c edgeRequest m
  let m := insertRequestId c edgeRequest m
  let m := if c.config.tracingConfig.isSome then mutateTracingHeaders c m else m
  mutateXfccRequestHeader c m

def ownHeaders : List InlineHeader :=
  [.envoyDownstreamServiceCluster, .userAgent, .envoyDownstreamServiceNode, .envoyExternalAddress,
    .requestId, .forwardedClientCert]

theorem mutateRequestHeaders_eq (c : Context) (m : HeaderMap) : mutateRequestHeaders c m =
      let m := applyRemoteAddress c (cleanProxyHeaders c m)
      insertOwnHeaders c (!isInternalRequest m && c.config.useRemoteAddress)
        (applyInternal c (isInternalRequest m) m) := rfl

section

variable (hc : m.Consistent)
include hc

theorem within_tracing : Within [.requestId] m
      (if c.config.tracingConfig.isSome then mutateTracingHeaders c m else m) := by
  split
  · exact within_mutateTracingHeaders hc
  · exact (Within.rfl hc).mono (by simp)

theorem within_insertOwnHeaders (edgeRequest : Bool) :
    Within ownHeaders m (insertOwnHeaders c edgeRequest m) := by
  have h₁ := within_insertUserAgent (c := c) hc
  have h₂ := h₁.trans (within_insertExternalAddress (c := c) h₁.consistent edgeRequest)
  have h₃ := h₂.trans (within_insertRequestId (c := c) h₂.consistent edgeRequest)
  have h₄ := h₃.trans (within_tracing (c := c) h₃.consistent)
  have h₅ := h₄.trans (within_mutateXfccRequestHeader (c := c) h₄.consistent)
  exact h₅.mono (by decide)

theorem consistent_removals : (removeAll controlHeaders
      (if c.config.useRemoteAddress then removeAll edgeHeaders m else m)).Consistent := by
  have hedge : (if c.config.useRemoteAddress then removeAll edgeHeaders m else m).Consistent := by
    split
    · exact (within_removeAll hc edgeHeaders).consistent
    · exact hc
  exact (within_removeAll hedge controlHeaders).consistent

theorem consistent_applyInternal (internalRequest : Bool) :
    (applyInternal c internalRequest m).Consistent := by
  unfold applyInternal
  split
  · exact consistent_insertInline hc _ _
  · exact (shrinks_removeInternalOnly (consistent_removals hc) _).consistent

end

/-- One of the configured headers is `x-forwarded-for`. -/
def ForwardedForListed (c : Context) : Prop :=
  ∃ key ∈ c.internalOnlyHeaders, staticLookup (cStr key.get) = some .forwardedFor

theorem applyInternal_forwardedFor (hc : m.Consistent) (internalRequest : Bool) :
    (applyInternal c internalRequest m).value .forwardedFor = m.value .forwardedFor ∨
      ForwardedForListed c ∧ (applyInternal c internalRequest m).value .forwardedFor = none := by
  unfold applyInternal
  split
  · exact .inl ((within_insertInline hc _ _).value _ (by decide))
  · have hedge : Within edgeHeaders m
        (if c.config.useRemoteAddress = true then removeAll edgeHeaders m else m) := by
      split
      · exact within_removeAll hc edgeHeaders
      · exact (Within.rfl hc).mono (by simp)
    have hcontrol := hedge.trans (within_removeAll hedge.consistent controlHeaders)
    have hsame := hcontrol.value .forwardedFor (by decide)
    by_cases hlisted : ForwardedForListed c
    · rcases (shrinks_removeInternalOnly hcontrol.consistent c.internalOnlyHeaders).value
        .forwardedFor with h | h
      · exact .inl (h.trans hsame)
      · exact .inr ⟨hlisted, h⟩
    · refine .inl ((value_removeInternalOnly_of_ne hcontrol.consistent ?_).trans hsame)
      intro key hkey hlookup
      exact hlisted ⟨key, hkey, hlookup⟩

theorem applyInternal_listed (hc : m.Consistent) (hkey : key ∈ c.internalOnlyHeaders)
    (hlookup : staticLookup (cStr key.get) = some header) :
    (applyInternal c false m).value header = none :=
  value_removeInternalOnly (consistent_removals hc) hkey hlookup

theorem within_injectContext (server : Server) (hc : m.Consistent) :
    Within [.otSpanContext, .xB3TraceId, .xB3SpanId, .xB3ParentSpanId, .xB3Sampled] m
      (injectContext server m) := by
  unfold injectContext
  generalize server.spanContext = context
  induction context generalizing m with
  | nil => exact (Within.rfl hc).mono (by simp)
  | cons header context ih =>
    have h₁ := within_insertInline hc header.1.inlineHeader (·.setCopy header.2)
    refine (h₁.trans (ih h₁.consistent)).mono ?_
    cases header.1 <;> decide

theorem within_traceRequest (server : Server) (hc : m.Consistent) (operationName : OperationName)
    (route : Option Route) :
    Within [.envoyDecoratorOperation, .otSpanContext, .xB3TraceId, .xB3SpanId, .xB3ParentSpanId,
      .xB3Sampled] m (traceRequest server operationName route m) := by
  have hsame : Within [.envoyDecoratorOperation] m m := (Within.rfl hc).mono (by simp)
  unfold traceRequest
  split
  · have hdecorated : ∀ m' : HeaderMap, Within [.envoyDecoratorOperation] m m' →
        Within [.envoyDecoratorOperation, .otSpanContext, .xB3TraceId, .xB3SpanId,
          .xB3ParentSpanId, .xB3Sampled] m (injectContext server m') :=
      fun m' h' => h'.trans (within_injectContext server h'.consistent)
    apply hdecorated
    split
    · split
      · split
        · exact hsame
        · exact within_insertInline hc _ _
      · exact hsame
    · exact within_removeInline hc _
  · exact hsame.mono (by decide)

theorem consistent_mutateRequestHeaders (hc : m.Consistent) :
    (mutateRequestHeaders c m).Consistent := by
  have hclean := within_cleanProxyHeaders (c := c) hc
  have hremote := within_applyRemoteAddress (c := c) hclean.consistent
  exact (within_insertOwnHeaders (consistent_applyInternal hremote.consistent _) _).consistent

/-- What `decodeHeaders` keeps is the last forwarded address after `mutateRequestHeaders`. -/
theorem decodeHeaders_address {server : Server} (hc : m.Consistent) {address : Bytes}
    {m' : HeaderMap} (h : decodeHeaders server c m = .filters address m') :
    address = getLastAddressFromXFF (mutateRequestHeaders c m) := by
  have hmutated := consistent_mutateRequestHeaders (c := c) hc
  unfold decodeHeaders at h
  split at h
  · cases h
  split at h
  · cases h
  split at h
  · cases h
  split at h
  · cases h
  simp only at h
  split at h
  · split at h <;> cases h
  · injection h with haddress
    rw [← haddress]
    split
    · rename_i operationName _
      have htrace := within_traceRequest server hmutated operationName
        (server.route (mutateRequestHeaders c m))
      rw [getLastAddressFromXFF, htrace.value .forwardedFor (by decide)]
      rfl
    · rfl

section

variable (hc : m.Consistent) (huse : c.config.useRemoteAddress = true)
  (hremote : c.connection.remoteAddress = .ip ip)
  (hloopback : isLoopbackAddress c.connection.remoteAddress = false)
  (hnul : ∀ v, m.value .forwardedFor = some v → 0 ∉ v.bytes)

include hc huse hremote hloopback hnul

/-- The forwarded addresses that the request is judged by: the client's part, if any, and
then the address of the connection. -/
theorem applyRemoteAddress_forwarded : ∃ header before,
      (applyRemoteAddress c (cleanProxyHeaders c m)).value .forwardedFor = some header ∧
      header.cStr = forwarded before ip.addressAsString := by
  have hclean := within_cleanProxyHeaders (c := c) hc
  have hxff := applyRemoteAddress_forwardedFor hclean.consistent huse hremote hloopback
  obtain ⟨header, before, hvalue, hbytes, hbefore⟩ := appendXff_value hclean.consistent ip
  have hnul' : 0 ∉ header.bytes := by
    rw [hbytes]
    cases before with
    | none => exact zero_notMem_address ip
    | some b =>
      have hb : 0 ∉ b := by
        rcases hbefore b rfl with rfl | ⟨v, hv, rfl⟩
        · exact not_mem_nil
        · rw [hclean.value .forwardedFor (by decide)] at hv
          exact hnul v hv
      simp [forwarded, hb, zero_notMem_address ip]
  refine ⟨header, before, hxff.trans hvalue, ?_⟩
  rw [HeaderString.cStr, cStr_eq_self hnul', hbytes]

/-- No client can make an external connection look like an internal one. -/
theorem isInternalRequest_external (hexternal : isInternalAddress ip.addressAsString = false) :
    isInternalRequest (applyRemoteAddress c (cleanProxyHeaders c m)) = false := by
  obtain ⟨header, before, hvalue, hcstr⟩ :=
    applyRemoteAddress_forwarded hc huse hremote hloopback hnul
  simp only [isInternalRequest, hvalue, hcstr]
  by_contra h
  rw [Bool.not_eq_false] at h
  rw [isInternalAddress_forwarded h] at hexternal
  cases hexternal

end

theorem consistent_applyRemoteAddress (hc : m.Consistent) :
    (applyRemoteAddress c (cleanProxyHeaders c m)).Consistent :=
  (within_applyRemoteAddress (within_cleanProxyHeaders hc).consistent).consistent

/-- The headers the proxy sets itself are not the forwarded addresses. -/
theorem mutateRequestHeaders_value (hc : m.Consistent) (hown : header ∉ ownHeaders) :
    (mutateRequestHeaders c m).value header =
      (applyInternal c (isInternalRequest (applyRemoteAddress c (cleanProxyHeaders c m)))
        (applyRemoteAddress c (cleanProxyHeaders c m))).value header := by
  rw [mutateRequestHeaders_eq]
  exact (within_insertOwnHeaders
    (consistent_applyInternal (consistent_applyRemoteAddress hc) _) _).value header hown

/-- The address of the rate limits is the address of the connection, whatever the client
sends. Only when the configuration removes `x-forwarded-for` is there none, and then there
is no descriptor entry either. -/
theorem downstreamAddress_remote {server : Server} {headers : List (HeaderString × HeaderString)}
    {ip : Ip} {address : Bytes} {m' : HeaderMap}
    (huse : c.config.useRemoteAddress = true) (hremote : c.connection.remoteAddress = .ip ip)
    (hloopback : isLoopbackAddress c.connection.remoteAddress = false)
    (hnul : ∀ v, (ofHeaders headers).value .forwardedFor = some v → 0 ∉ v.bytes)
    (hdecoded : decodeHeaders server c (ofHeaders headers) = .filters address m') :
    (address = ip.addressAsString ∧ ∀ entries, populateRemoteAddress address entries =
      some (entries ++ [⟨ascii "remote_address", ip.addressAsString⟩])) ∨
    (ForwardedForListed c ∧ address = [] ∧ ∀ entries, populateRemoteAddress address entries = none) := by
  have hc := consistent_ofHeaders headers
  obtain ⟨header, before, hforwarded, hcstr⟩ :=
    applyRemoteAddress_forwarded hc huse hremote hloopback hnul
  have hmutated := mutateRequestHeaders_value (c := c) hc (by decide : .forwardedFor ∉ ownHeaders)
  rw [decodeHeaders_address hc hdecoded]
  rcases applyInternal_forwardedFor (c := c) (consistent_applyRemoteAddress hc)
    (isInternalRequest (applyRemoteAddress c (cleanProxyHeaders c (ofHeaders headers)))) with
    h | ⟨hlisted, h⟩
  · have hvalue := hmutated.trans (h.trans hforwarded)
    have haddress : getLastAddressFromXFF (mutateRequestHeaders c (ofHeaders headers)) =
        ip.addressAsString := by
      rw [getLastAddressFromXFF, hvalue]
      simp only [hcstr, split_forwarded]
      rfl
    refine .inl ⟨haddress, ?_⟩
    intro entries
    rw [haddress, populateRemoteAddress, if_neg (addressAsString_ne_nil ip)]
  · have haddress : getLastAddressFromXFF (mutateRequestHeaders c (ofHeaders headers)) = [] := by
      rw [getLastAddressFromXFF, hmutated, h]
    refine .inr ⟨hlisted, haddress, ?_⟩
    intro entries
    rw [haddress, populateRemoteAddress, if_pos rfl]

theorem addViaMove_key (m : HeaderMap) (type : Storage) (header : InlineHeader) (value : HeaderString) :
    m.addViaMove ⟨type, header.key⟩ value = m.maybeCreateInline header value := by
  have hlookup : staticLookup (HeaderString.cStr ⟨type, header.key⟩) = some header := by
    rw [HeaderString.cStr, InlineHeader.cStr_key, InlineHeader.staticLookup_key]
  rw [addViaMove, insertByKey, hlookup]

theorem decodeHeaders_http2 (server : Server) (hprotocol : c.protocol = .http2)
    (htracing : c.config.tracingConfig = none) (hhost : (m.value .host).isSome)
    (hsize : m.byteSize ≤ 60 * 1024)
    (hpath : ((m.value .path).map fun path => path.cStr.head?) = some (some 47)) :
    decodeHeaders server c m =
      .filters (getLastAddressFromXFF (mutateRequestHeaders c m)) (mutateRequestHeaders c m) := by
  have hhost' : (m.value .host).isNone = false := by
    cases hvalue : m.value .host with
    | none => simp [hvalue] at hhost
    | some v => rfl
  simp [decodeHeaders, hprotocol, htracing, hhost', hpath, Nat.not_lt.mpr hsize]

def sampleContext (internalOnlyHeaders : List LowerCaseString) : Context where
  protocol := .http2
  connection := ⟨.ip (.v4 ⟨8, 8, 8, 8⟩), none⟩
  config :=
    { useRemoteAddress := true
      localAddress := .ip (.v4 ⟨10, 0, 0, 1⟩)
      userAgent := none
      generateRequestId := true
      tracingConfig := none
      forwardClientCert := .sanitize
      setCurrentClientCertDetails := [] }
  internalOnlyHeaders := internalOnlyHeaders
  uuid := ascii "5f2b"
  runtime := ⟨false, fun _ => false, fun _ => true⟩
  nodeName := []
  errno := false

def sampleServer : Server := ⟨fun _ => none, false, []⟩

variable (forwardedFor : Bytes)

def sampleHeaders : List (HeaderString × HeaderString) :=
  [(⟨.inline, InlineHeader.host.key⟩, ⟨.inline, ascii "a"⟩),
    (⟨.inline, InlineHeader.path.key⟩, ⟨.inline, ascii "/"⟩),
    (⟨.inline, InlineHeader.forwardedFor.key⟩, ⟨.inline, forwardedFor⟩)]

def sampleMap : HeaderMap :=
  ((new.maybeCreateInline .host ⟨.inline, ascii "a"⟩).maybeCreateInline .path
    ⟨.inline, ascii "/"⟩).maybeCreateInline .forwardedFor ⟨.inline, forwardedFor⟩

theorem ofHeaders_sample :
    ofHeaders (sampleHeaders forwardedFor) = sampleMap forwardedFor := by
  simp only [ofHeaders, sampleHeaders, foldl_cons, foldl_nil, addViaMove_key]
  rfl

variable {forwardedFor : Bytes}

theorem decodeHeaders_sample (internalOnlyHeaders : List LowerCaseString)
    (hsize : (sampleMap forwardedFor).byteSize ≤ 60 * 1024) :
    decodeHeaders sampleServer (sampleContext internalOnlyHeaders)
        (ofHeaders (sampleHeaders forwardedFor)) = .filters
        (getLastAddressFromXFF (mutateRequestHeaders (sampleContext internalOnlyHeaders)
          (ofHeaders (sampleHeaders forwardedFor))))
        (mutateRequestHeaders (sampleContext internalOnlyHeaders)
          (ofHeaders (sampleHeaders forwardedFor))) := by
  rw [ofHeaders_sample]
  exact decodeHeaders_http2 sampleServer rfl rfl rfl hsize rfl

theorem sample_forwardedFor (forwardedFor : Bytes) :
    (ofHeaders (sampleHeaders forwardedFor)).value .forwardedFor =
      some ⟨.inline, forwardedFor⟩ := by
  rw [ofHeaders_sample]
  rfl

theorem zero_notMem_sample (h : 0 ∉ forwardedFor) :
    ∀ v, (ofHeaders (sampleHeaders forwardedFor)).value .forwardedFor = some v → 0 ∉ v.bytes := by
  intro v hv
  rw [sample_forwardedFor] at hv
  cases hv
  exact h

/-- A client that ends its own `x-forwarded-for` with a separator. -/
theorem downstreamAddress_remote_separator :
    ∃ address m', decodeHeaders sampleServer (sampleContext [])
        (ofHeaders (sampleHeaders (ascii "1.2.3.4, "))) = .filters address m' ∧
      address = ascii "8.8.8.8" := by
  have hsize : (sampleMap (ascii "1.2.3.4, ")).byteSize ≤ 60 * 1024 := by decide
  have hnul := zero_notMem_sample (by decide : 0 ∉ ascii "1.2.3.4, ")
  refine ⟨_, _, decodeHeaders_sample [] hsize, ?_⟩
  rcases downstreamAddress_remote (c := sampleContext []) rfl rfl (by decide) hnul
    (decodeHeaders_sample [] hsize) with ⟨haddress, -⟩ | ⟨⟨key, hkey, -⟩, -⟩
  · exact haddress.trans (by decide)
  · cases hkey

def forwardedForKey : LowerCaseString := ⟨InlineHeader.forwardedFor.key, by decide⟩

theorem staticLookup_forwardedForKey :
    staticLookup (cStr forwardedForKey.get) = some .forwardedFor := by
  rw [forwardedForKey, InlineHeader.cStr_key, InlineHeader.staticLookup_key]

/-- A header string is read as a C string: what follows a NUL byte does not count. -/
theorem sample_nul {text : Bytes} (hnul : 0 ∉ text) :
    ∃ header, (applyRemoteAddress (sampleContext []) (cleanProxyHeaders (sampleContext [])
      (ofHeaders (sampleHeaders (text ++ [0]))))).value .forwardedFor = some header ∧
      header.cStr = text := by
  have hc := consistent_ofHeaders (sampleHeaders (text ++ [0]))
  have hclean := within_cleanProxyHeaders (c := sampleContext []) hc
  rw [applyRemoteAddress_forwardedFor (c := sampleContext []) hclean.consistent rfl rfl (by decide),
    appendXff, value_insertInline hclean.consistent, hclean.value .forwardedFor (by decide),
    sample_forwardedFor]
  refine ⟨_, rfl, ?_⟩
  have hempty : (⟨.inline, text ++ [0]⟩ : HeaderString).empty = false := by
    simp [HeaderString.empty]
  simp only [Option.getD_some, hempty, Bool.false_eq_true, if_false]
  rw [HeaderString.cStr, append_bytes, if_neg (append_type _ _), append_bytes, if_neg (by simp)]
  simp only [append_assoc, cons_append, nil_append]
  exact cStr_append_zero hnul _

theorem sample_removed : (mutateRequestHeaders (sampleContext [forwardedForKey])
      (ofHeaders (sampleHeaders (ascii "1.2.3.4")))).value .forwardedFor = none := by
  have hc := consistent_ofHeaders (sampleHeaders (ascii "1.2.3.4"))
  rw [mutateRequestHeaders_value hc (by decide), isInternalRequest_external
    (c := sampleContext [forwardedForKey]) hc rfl rfl (by decide)
    (zero_notMem_sample (by decide)) (by decide)]
  exact applyInternal_listed (consistent_applyRemoteAddress hc) mem_cons_self
    staticLookup_forwardedForKey

/-- The address is none when the configuration removes `x-forwarded-for`, and the client's
when the client ends it with a NUL byte. -/
theorem downstreamAddress_not_remote :
    (∃ m', decodeHeaders sampleServer (sampleContext [forwardedForKey])
        (ofHeaders (sampleHeaders (ascii "1.2.3.4"))) = .filters [] m') ∧
    (∃ m', decodeHeaders sampleServer (sampleContext [])
        (ofHeaders (sampleHeaders (ascii "1.2.3.4" ++ [0]))) = .filters (ascii "1.2.3.4") m') := by
  constructor
  · have hdecoded := decodeHeaders_sample [forwardedForKey]
      (by decide : (sampleMap (ascii "1.2.3.4")).byteSize ≤ 60 * 1024)
    rw [getLastAddressFromXFF, sample_removed] at hdecoded
    exact ⟨_, hdecoded⟩
  · have hc := consistent_ofHeaders (sampleHeaders (ascii "1.2.3.4" ++ [0]))
    have hvalue := mutateRequestHeaders_value (c := sampleContext []) hc
      (by decide : .forwardedFor ∉ ownHeaders)
    rcases applyInternal_forwardedFor (c := sampleContext []) (consistent_applyRemoteAddress hc)
      (isInternalRequest (applyRemoteAddress (sampleContext []) (cleanProxyHeaders
        (sampleContext []) (ofHeaders (sampleHeaders (ascii "1.2.3.4" ++ [0])))))) with
      h | ⟨⟨key, hkey, -⟩, -⟩
    · obtain ⟨header, hheader, hcstr⟩ := sample_nul (by decide : 0 ∉ ascii "1.2.3.4")
      have hdecoded := decodeHeaders_sample []
        (by decide : (sampleMap (ascii "1.2.3.4" ++ [0])).byteSize ≤ 60 * 1024)
      have hlast : getLastAddressFromXFF (mutateRequestHeaders (sampleContext [])
          (ofHeaders (sampleHeaders (ascii "1.2.3.4" ++ [0])))) = ascii "1.2.3.4" := by
        rw [getLastAddressFromXFF, hvalue, h, hheader]
        simp only [hcstr]
        decide
      rw [hlast] at hdecoded
      exact ⟨_, hdecoded⟩
    · cases hkey

end Meliproxy.Envoy.Http
