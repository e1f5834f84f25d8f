import Meliproxy.Envoy.Http.Http1Client

/-!
# Headers of a response in the HTTP/1 codec

What a response decoder is to get, and what the codec makes of the header block of a response,
whose names and values come in pieces.
-/

namespace Meliproxy.Envoy.Http

open Lib List Option

namespace HeaderString

variable {s : HeaderString} {bytes : Bytes}

def Holds (s : HeaderString) (bytes : Bytes) : Prop := s.type ≠ .reference ∧ s.bytes = bytes

theorem holds_new : new.Holds [] := ⟨by decide, rfl⟩

theorem Holds.append (h : s.Holds bytes) (data : Bytes) : (s.append data).Holds (bytes ++ data) := by
  obtain ⟨htype, rfl⟩ := h
  simp only [HeaderString.append, if_neg htype]
  split
  · exact ⟨by simp, rfl⟩
  · exact ⟨by simp, rfl⟩

theorem Holds.clear (h : s.Holds bytes) : s.clear.Holds [] := by
  rw [HeaderString.clear, if_neg h.1]
  exact ⟨h.1, rfl⟩

theorem Holds.empty (h : s.Holds bytes) : s.empty = decide (bytes = []) := by
  rw [HeaderString.empty, h.2]

end HeaderString

namespace Http1

def text (headers : List (HeaderString × HeaderString)) : List (Bytes × Bytes) :=
  headers.map fun h => (h.1.bytes, h.2.bytes)

def lowered (fields : List (Bytes × Bytes)) : List (Bytes × Bytes) :=
  fields.map fun f => (f.1.map StringUtil.toLower, f.2)

/-- The map of the fields, in lower case and in the order of the response, and of its status. -/
def Response.ReadAs (r : Response) (m : HeaderMap) : Prop :=
  ∃ headers, text headers = lowered r.fields ∧
    m = (HeaderMap.ofHeaders headers).insertInline .status fun value =>
      value.setInteger r.status.toUInt64

/-- Headers, body and end. -/
inductive Complete (r : Response) : List Delivery → Prop where
  | headersOnly {m : HeaderMap} (hm : r.ReadAs m) (hbody : r.body = []) :
      Complete r [.headers m true]
  | withBody {m : HeaderMap} (hm : r.ReadAs m) (chunks : List Bytes)
      (hbody : chunks.flatten = r.body) :
      Complete r (.headers m false :: chunks.map (fun data => .data data false) ++ [.data [] true])

inductive Begun (r : Response) : List Delivery → Prop where
  | nothing : Begun r []
  | headers {m : HeaderMap} (hm : r.ReadAs m) (chunks : List Bytes) {rest : Bytes}
      (hbody : chunks.flatten ++ rest = r.body) :
      Begun r (.headers m false :: chunks.map fun data => .data data false)

namespace ClientConnectionImpl

variable {p : HttpParser} {responses : List Response}

/-- Decoder number `k` gets response number `k`, and all of it when the parser has read the
responses up to that one. -/
structure Paired (responses : List Response) (s : ClientConnectionImpl p) : Prop where
  begun : ∀ k r, responses[k]? = some r →
    Begun r (s.deliveriesTo k) ∨ Complete r (s.deliveriesTo k)
  nothing : ∀ k, responses[k]? = none → s.deliveriesTo k = []
  whole : ∀ k r, responses[k]? = some r → s.reading = none →
    (responses.take (k + 1)).flatMap Response.bytes <+: s.received →
      (r.closes = true → s.closed = true) → Complete r (s.deliveriesTo k)

section Headers

variable {s : ClientConnectionImpl p} {c : Callback} {fields fields' : List (Bytes × Bytes)}
  {inName inName' : Bool}

/-- The parser has told of these fields, and the last of them is not in the map yet. -/
inductive Spelled (s : ClientConnectionImpl p) : List (Bytes × Bytes) → Bool → Prop where
  | start (hmap : s.currentHeaderMap = some .new) (hstate : s.headerParsingState = .field)
      (hfield : s.currentHeaderField.Holds []) (hvalue : s.currentHeaderValue.Holds []) :
      Spelled s [] false
  | field {fields : List (Bytes × Bytes)} {name value : Bytes} {inName : Bool}
      (headers : List (HeaderString × HeaderString)) (htext : text headers = lowered fields)
      (hmap : s.currentHeaderMap = some (.ofHeaders headers))
      (hstate : s.headerParsingState = if inName then .field else .value)
      (hfield : s.currentHeaderField.Holds name) (hvalue : s.currentHeaderValue.Holds value)
      (hname : inName = true → value = []) (hne : inName = false → name ≠ []) :
      Spelled s (fields ++ [(name, value)]) inName

def collect (s : ClientConnectionImpl p) (m : Option HeaderMap) (state : HeaderParsingState)
    (field value : HeaderString) : ClientConnectionImpl p :=
  { s with
    currentHeaderMap := m
    headerParsingState := state
    currentHeaderField := field
    currentHeaderValue := value }

theorem ofHeaders_concat (headers : List (HeaderString × HeaderString)) (key value : HeaderString) :
    HeaderMap.ofHeaders (headers ++ [(key, value)]) =
      (HeaderMap.ofHeaders headers).addViaMove key value := by
  rw [HeaderMap.ofHeaders, foldl_append]
  rfl

theorem completeLastHeader_eq (h : Spelled s fields false) :
    ∃ headers field value, text headers = lowered fields ∧ field.Holds [] ∧ value.Holds [] ∧
      s.completeLastHeader = some (s.collect (some (.ofHeaders headers)) .field field value) := by
  cases h with
  | start hmap hstate hfield hvalue =>
    refine ⟨[], s.currentHeaderField, s.currentHeaderValue, rfl, hfield, hvalue, ?_⟩
    rw [completeLastHeader, hfield.empty]
    simp only [decide_true, if_true, bind_eq_bind, bind_some, hfield.empty,
      hvalue.empty, Bool.and_self]
    rw [hmap]
    rfl
  | @field fields name value _ headers htext hmap hstate hfield hvalue hname hne =>
    have hne := hne rfl
    let key : HeaderString :=
      ⟨s.currentHeaderField.type, s.currentHeaderField.bytes.map StringUtil.toLower⟩
    have hkey : key.Holds (name.map StringUtil.toLower) := ⟨hfield.1, by rw [← hfield.2]⟩
    have hcleared : ∀ b : Bool, (if b then key.clear else .new).Holds [] := by
      intro b
      cases b with
      | true => exact hkey.clear
      | false => exact HeaderString.holds_new
    have hmoved : ∀ b : Bool, (if b then .new else s.currentHeaderValue.clear).Holds [] := by
      intro b
      cases b with
      | true => exact HeaderString.holds_new
      | false => exact hvalue.clear
    refine ⟨headers ++ [(key, s.currentHeaderValue)], _, _, ?_,
      hcleared (staticLookup key.cStr).isSome,
      hmoved ((staticLookup key.cStr).all fun header =>
        (HeaderMap.ofHeaders headers).inlineHeaders header = none), ?_⟩
    · rw [text, map_append, ← text, htext, lowered, lowered, map_append, map_singleton,
        map_singleton, hkey.2, hvalue.2]
    · rw [completeLastHeader, hfield.empty, decide_eq_false hne, hmap, ofHeaders_concat]
      simp only [Bool.false_eq_true, if_false, map_some, bind_eq_bind, bind_some]
      rw [if_pos]
      · rfl
      · have hfieldEmpty := (hcleared (staticLookup key.cStr).isSome).empty
        have hvalueEmpty := (hmoved ((staticLookup key.cStr).all fun header =>
          (HeaderMap.ofHeaders headers).inlineHeaders header = none)).empty
        exact Bool.and_eq_true_iff.mpr ⟨hfieldEmpty, hvalueEmpty⟩

theorem collect_spelled (h : Spelled s fields inName) (hstep : Spells fields inName c fields' inName')
    (resume : Bool → p.State) : ∃ m state field value,
      s.onCallback resume c = some ((s.goesOn resume).collect m state field value) ∧
        Spelled ((s.goesOn resume).collect m state field value) fields' inName' := by
  have hgo : Spelled (s.goesOn resume) fields inName := by
    cases h with
    | start hmap hstate hfield hvalue => exact .start hmap hstate hfield hvalue
    | field headers htext hmap hstate hfield hvalue hname hne =>
      exact .field headers htext hmap hstate hfield hvalue hname hne
  cases hstep with
  | newName _ data =>
    rw [onCallback]
    generalize s.goesOn resume = s at hgo ⊢
    have hnew : ∀ headers (field value : HeaderString), text headers = lowered fields →
        field.Holds [] → value.Holds [] →
          Spelled (s.collect (some (.ofHeaders headers)) .field (field.append data) value)
          (fields ++ [(data, [])]) true :=
      fun headers field value htext hfield hvalue =>
        .field headers htext rfl rfl (hfield.append data) hvalue (fun _ => rfl) (by simp)
    cases hgo with
    | start hmap hstate hfield hvalue =>
      refine ⟨_, _, _, _, ?_, hnew [] _ _ rfl hfield hvalue⟩
      rw [onHeaderField, hstate, if_neg (by decide), if_neg (by decide), map_some, hmap, hstate]
      rfl
    | field headers htext hmap hstate hfield hvalue hname hne =>
      obtain ⟨headers, field, value, htext, hfield, hvalue, hcomplete⟩ :=
        completeLastHeader_eq (.field headers htext hmap hstate hfield hvalue hname hne)
      refine ⟨_, _, _, _, ?_, hnew headers _ _ htext hfield hvalue⟩
      rw [onHeaderField, hstate, if_neg (by decide), if_pos (by decide), hcomplete, map_some]
      rfl
  | name fields name data =>
    rw [onCallback]
    generalize s.goesOn resume = s at hgo ⊢
    generalize hlist : fields ++ [(name, [])] = told at hgo
    cases hgo with
    | field headers htext hmap hstate hfield hvalue hname hne =>
      obtain ⟨rfl, hlast⟩ := append_inj' hlist rfl
      obtain ⟨rfl, rfl⟩ := Prod.mk.inj (singleton_inj.mp hlast)
      refine ⟨_, _, s.currentHeaderField.append data, _, ?_,
        .field headers htext hmap hstate (hfield.append data) hvalue (fun _ => rfl) (by simp)⟩
      rw [onHeaderField, hstate, if_neg (by decide), if_neg (by decide), map_some]
      rfl
  | value fields value inName data hname =>
    rw [onCallback]
    generalize s.goesOn resume = s at hgo ⊢
    generalize hlist : fields ++ [(_, value)] = told at hgo
    cases hgo with
    | start => simp at hlist
    | field headers htext hmap hstate hfield hvalue _ hne =>
      obtain ⟨rfl, hlast⟩ := append_inj' hlist rfl
      obtain ⟨rfl, rfl⟩ := Prod.mk.inj (singleton_inj.mp hlast)
      have hdone : s.headerParsingState ≠ .done := by
        rw [hstate]
        split
        · decide
        · decide
      refine ⟨_, _, _, s.currentHeaderValue.append data, ?_,
        .field headers htext hmap rfl hfield (hvalue.append data) (by simp) fun _ => hname⟩
      rw [onHeaderValue, if_neg hdone]
      rfl

end Headers

end ClientConnectionImpl

end Http1

end Meliproxy.Envoy.Http
