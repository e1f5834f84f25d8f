import Meliproxy.Envoy.Redis.Codec

/-!
# The decoder and the cuts in its input

Parsing `a ++ b` is parsing `a` and then `b`, whatever state the decoder is in. So the
slices and the calls in which the input arrives do not matter.
-/

namespace Meliproxy.Envoy.Redis

open Lib List

variable {d : Decoder} {buffer : Bytes}

theorem parseSlice_of_none (h : turn d buffer = none) : parseSlice d buffer = ⟨[], .ok d⟩ := by
  rw [parseSlice]
  split
  · rfl
  · next hturn => rw [h] at hturn; cases hturn
  · next hturn => rw [h] at hturn; cases hturn

theorem parseSlice_of_error {e : DecodeError} (h : turn d buffer = some (.error e)) :
    parseSlice d buffer = ⟨[], .error e⟩ := by
  rw [parseSlice]
  split
  · next hturn => rw [h] at hturn; cases hturn
  · next hturn =>
    rw [h] at hturn
    cases hturn
    rfl
  · next hturn => rw [h] at hturn; cases hturn

theorem parseSlice_of_ok {t : Turn} (h : turn d buffer = some (.ok t)) :
    parseSlice d buffer = ⟨t.emitted ++ (parseSlice t.decoder t.buffer).emitted,
      (parseSlice t.decoder t.buffer).result⟩ := by
  rw [parseSlice]
  split
  · next hturn => rw [h] at hturn; cases hturn
  · next hturn => rw [h] at hturn; cases hturn
  · next hturn =>
    rw [h] at hturn
    cases hturn
    rfl

variable {d' : Decoder} {buffer' : Bytes}

theorem parseSlice_of_silent (h : turn d buffer = some (.ok ⟨d', buffer', []⟩)) :
    parseSlice d buffer = parseSlice d' buffer' := by
  rw [parseSlice_of_ok h]
  rfl

theorem parseSlice_congr (h : turn d buffer = turn d' buffer') (hsome : turn d buffer ≠ none) :
    parseSlice d buffer = parseSlice d' buffer' := by
  cases hturn : turn d buffer with
  | none => exact absurd hturn hsome
  | some r =>
    rw [hturn] at h
    cases r with
    | error e => rw [parseSlice_of_error hturn, parseSlice_of_error h.symm]
    | ok t => rw [parseSlice_of_ok hturn, parseSlice_of_ok h.symm]

theorem turn_reading (h : d.state ≠ .valueComplete) (c : UInt8) (buffer : Bytes) :
    turn d (c :: buffer) = some (readByte d c buffer) := by
  simp [turn, h]

theorem turn_nil (h : d.state ≠ .valueComplete) : turn d [] = none := by
  simp [turn, h]

theorem parseSlice_read {c : UInt8} (hstate : d.state ≠ .valueComplete)
    (h : readByte d c buffer = .ok ⟨d', buffer', []⟩) :
    parseSlice d (c :: buffer) = parseSlice d' buffer' := by
  apply parseSlice_of_silent
  rw [turn_reading hstate, h]

def Turn.extend (more : Bytes) (t : Turn) : Turn := { t with buffer := t.buffer ++ more }

theorem readByte_append_of_ne (h : d.state ≠ .bulkStringBody) (c : UInt8) (buffer more : Bytes) :
    readByte d c (buffer ++ more) = (readByte d c buffer).map (Turn.extend more) := by
  obtain ⟨state, p, stack⟩ := d
  cases state with
  | bulkStringBody => exact absurd rfl h
  | valueRootStart => rfl
  | valueStart =>
    cases stack with
    | nil => rfl
    | cons current rest =>
      cases hstart : startValue c <;> simp [readByte, hstart, bind, Except.bind, Except.map, Turn.extend]
  | integerStart =>
    by_cases hc : c = 45 <;> simp [readByte, hc, Except.map, Turn.extend]
  | integer =>
    by_cases hcr : c = 13
    · simp [readByte, hcr, Except.map, Turn.extend]
    · by_cases hdigit : c < 48 ∨ 57 < c <;> simp [readByte, hcr, hdigit, Except.map, Turn.extend]
  | integerLF =>
    cases stack with
    | nil => rfl
    | cons current rest =>
      by_cases hc : c = 10
      · cases hdone : integerDone p current rest <;>
          simp [readByte, hc, hdone, bind, Except.bind, Except.map, Turn.extend]
      · simp [readByte, hc, Except.map]
  | cr => by_cases hc : c = 13 <;> simp [readByte, hc, Except.map, Turn.extend]
  | lf => by_cases hc : c = 10 <;> simp [readByte, hc, Except.map, Turn.extend]
  | simpleString =>
    cases stack with
    | nil => rfl
    | cons current rest =>
      by_cases hc : c = 13
      · simp [readByte, hc, Except.map, Turn.extend]
      · cases happend : appendString current.value [c] <;>
          simp [readByte, hc, happend, bind, Except.bind, Except.map, Turn.extend]
  | valueComplete => rfl

theorem appendString_append (value : RespValue) (xs ys : Bytes) :
    appendString value (xs ++ ys) = (appendString value xs).bind (appendString · ys) := by
  cases value <;> simp [appendString, Except.bind]

theorem toNat_sub_toUInt64 (n : UInt64) (k : Nat) (h : k ≤ n.toNat) :
    (n - k.toUInt64).toNat = n.toNat - k := by
  have hn := n.toNat_lt
  have hk : k.toUInt64.toNat = k := UInt64.toNat_ofNat_of_lt (by
    change k < 2 ^ 64
    omega)
  rw [UInt64.toNat_sub_of_le _ _ (by rw [UInt64.le_iff_toNat_le, hk]; exact h), hk]

theorem sub_toUInt64_eq_zero_iff (n : UInt64) (k : Nat) (h : k ≤ n.toNat) :
    n - k.toUInt64 = 0 ↔ n.toNat = k := by
  rw [← UInt64.toNat_inj, toNat_sub_toUInt64 n k h]
  simp only [UInt64.toNat_zero]
  omega

theorem readByte_body_short (p : PendingInteger) (stack : List PendingValue) (c : UInt8)
    (buffer more : Bytes) (h : p.integer.toNat ≤ buffer.length + 1) :
    readByte ⟨.bulkStringBody, p, stack⟩ c (buffer ++ more) =
      (readByte ⟨.bulkStringBody, p, stack⟩ c buffer).map (Turn.extend more) := by
  cases stack with
  | nil => rfl
  | cons current rest =>
    have hmin : min p.integer.toNat (buffer.length + 1) = p.integer.toNat := by omega
    have hmin' : min p.integer.toNat ((buffer ++ more).length + 1) = p.integer.toNat := by
      simp only [length_append]
      omega
    have htake : (c :: (buffer ++ more)).take p.integer.toNat = (c :: buffer).take p.integer.toNat := by
      rw [← cons_append, take_append_of_le_length (by simpa using h)]
    have hdrop : (c :: (buffer ++ more)).drop p.integer.toNat =
        (c :: buffer).drop p.integer.toNat ++ more := by
      rw [← cons_append, drop_append_of_le_length (by simpa using h)]
    simp only [readByte, hmin, hmin', htake, hdrop]
    cases happend : appendString current.value ((c :: buffer).take p.integer.toNat) with
    | error | ok => rfl

/-- The body of a bulk string goes on after the slice: the decoder takes the whole slice,
and continues as if it had not been cut. -/
theorem readByte_body_long (p : PendingInteger) (stack : List PendingValue) (c : UInt8)
    (buffer : Bytes) (h : buffer.length + 1 < p.integer.toNat) {r : Except DecodeError Turn}
    (hr : readByte ⟨.bulkStringBody, p, stack⟩ c buffer = r) :
    (∃ e, r = .error e ∧ ∀ more, readByte ⟨.bulkStringBody, p, stack⟩ c (buffer ++ more) = .error e) ∨
      ∃ d, r = .ok ⟨d, [], []⟩ ∧ d.state = .bulkStringBody ∧ ∀ c' more,
        readByte ⟨.bulkStringBody, p, stack⟩ c (buffer ++ c' :: more) = readByte d c' more := by
  cases stack with
  | nil => exact .inl ⟨.assertion, hr.symm, fun more => rfl⟩
  | cons current rest =>
    have hmin : min p.integer.toNat (buffer.length + 1) = buffer.length + 1 := by omega
    have htake : (c :: buffer).take (buffer.length + 1) = c :: buffer := by simp
    have hdrop : (c :: buffer).drop (buffer.length + 1) = [] := by simp
    have hsub := toNat_sub_toUInt64 p.integer (buffer.length + 1) (by omega)
    have hne : p.integer - (buffer.length + 1).toUInt64 ≠ 0 := by
      rw [ne_eq, sub_toUInt64_eq_zero_iff _ _ (by omega)]
      omega
    have hcut : ∀ more : Bytes, (c :: (buffer ++ more)).take
        (min p.integer.toNat ((buffer ++ more).length + 1)) = (c :: buffer) ++
          more.take (min (p.integer.toNat - (buffer.length + 1)) more.length) := by
      intro more
      rw [← cons_append, take_append]
      simp only [length_append, length_cons]
      rw [take_of_length_le (by simp only [length_cons]; omega)]
      congr 2
      omega
    simp only [readByte, hmin, htake, hdrop, if_neg hne] at hr
    cases happend : appendString current.value (c :: buffer) with
    | error e =>
      rw [happend] at hr
      refine .inl ⟨e, hr.symm, ?_⟩
      intro more
      simp only [readByte, hcut more, appendString_append, happend]
      rfl
    | ok value =>
      rw [happend] at hr
      refine .inr ⟨_, hr.symm, rfl, ?_⟩
      intro c' more
      have hlen : min p.integer.toNat ((buffer ++ c' :: more).length + 1) =
          (buffer.length + 1) + min (p.integer.toNat - (buffer.length + 1)) (more.length + 1) := by
        simp only [length_append, length_cons]
        omega
      have hdrop' : (c :: (buffer ++ c' :: more)).drop
          (min p.integer.toNat ((buffer ++ c' :: more).length + 1)) =
          (c' :: more).drop (min (p.integer.toNat - (buffer.length + 1)) (more.length + 1)) := by
        have hskip : (c :: buffer).length = buffer.length + 1 := rfl
        rw [hlen, ← cons_append, ← hskip, drop_length_add_append]
      have hinteger : p.integer - (min p.integer.toNat ((buffer ++ c' :: more).length + 1)).toUInt64 =
          p.integer - (buffer.length + 1).toUInt64 -
            (min (p.integer.toNat - (buffer.length + 1)) (more.length + 1)).toUInt64 := by
        rw [← UInt64.toNat_inj, toNat_sub_toUInt64 _ _ (by omega), toNat_sub_toUInt64 _ _ (by omega),
          hsub, hlen]
        omega
      simp only [readByte, hcut (c' :: more), appendString_append, happend, hdrop', hinteger, hsub]
      rfl

variable (d)

theorem turn_append (buffer : Bytes) (r : Except DecodeError Turn)
    (h : turn d buffer = some r) :
    (∀ more, turn d (buffer ++ more) = some (r.map (Turn.extend more))) ∨
      ∃ d', r = .ok ⟨d', [], []⟩ ∧ d'.state = .bulkStringBody ∧
        ∀ c more, turn d (buffer ++ c :: more) = turn d' (c :: more) := by
  by_cases hcomplete : d.state = .valueComplete
  · refine .inl fun more => ?_
    cases hstack : d.stack with
    | nil =>
      obtain rfl := by simpa [turn, hcomplete, hstack] using h
      simp [turn, hcomplete, hstack, Except.map]
    | cons current rest =>
      simp only [turn, hcomplete, hstack, if_true, Option.some.injEq] at h ⊢
      rw [← h]
      cases valueDone d.pendingInteger current.value rest with
      | error | ok => rfl
  · cases buffer with
    | nil => simp [turn_nil hcomplete] at h
    | cons c buffer =>
      rw [turn_reading hcomplete, Option.some_inj] at h
      by_cases hbody : d.state = .bulkStringBody
      · obtain ⟨state, p, stack⟩ := d
        obtain rfl : state = .bulkStringBody := hbody
        by_cases hshort : p.integer.toNat ≤ buffer.length + 1
        · refine .inl fun more => ?_
          rw [cons_append, turn_reading hcomplete, readByte_body_short p stack c buffer more hshort,
            h]
        · rcases readByte_body_long p stack c buffer (by omega) h with
            ⟨e, rfl, herr⟩ | ⟨d', rfl, hstate, hlong⟩
          · refine .inl fun more => ?_
            rw [cons_append, turn_reading hcomplete, herr more]
            rfl
          · refine .inr ⟨d', rfl, hstate, fun c' more => ?_⟩
            rw [cons_append, turn_reading hcomplete, hlong c' more,
              turn_reading (by rw [hstate]; decide)]
      · refine .inl fun more => ?_
        rw [cons_append, turn_reading hcomplete, readByte_append_of_ne hbody, h]

theorem andThen_ok (next : Decoder → Decoded) :
    (Decoded.mk [] (.ok d)).andThen next = next d := rfl

/-- The decoder does not see where its input is cut. -/
theorem parseSlice_append (a b : Bytes) :
    parseSlice d (a ++ b) = (parseSlice d a).andThen fun d' => parseSlice d' b := by
  induction d, a using parseSlice.induct with
  | case1 d a h =>
    rw [parseSlice_of_none h]
    cases a with
    | nil => rfl
    | cons c a =>
      unfold turn at h
      split at h
      · split at h <;> cases h
      · cases h
  | case2 d a e h =>
    rcases turn_append d a _ h with hmore | ⟨d', hd', -⟩
    · rw [parseSlice_of_error h, parseSlice_of_error (hmore b)]
      rfl
    · cases hd'
  | case3 d a t h ih =>
    rcases turn_append d a _ h with hmore | ⟨d', hd', hstate, hmore⟩
    · rw [parseSlice_of_ok h, parseSlice_of_ok (hmore b)]
      simp only [Turn.extend, ih, Decoded.andThen]
      cases (parseSlice t.decoder t.buffer).result with
      | error e => rfl
      | ok d'' => simp
    · obtain rfl : t = ⟨d', [], []⟩ := Except.ok.inj hd'
      have hend : parseSlice d a = ⟨[], .ok d'⟩ := by
        rw [parseSlice_of_silent h, parseSlice_of_none (turn_nil (by rw [hstate]; decide))]
      cases b with
      | nil =>
        rw [append_nil, hend, andThen_ok, parseSlice_of_none (turn_nil (by rw [hstate]; decide))]
      | cons c more =>
        rw [hend, andThen_ok, parseSlice_congr (hmore c more)]
        · rw [hmore c more, turn_reading (by rw [hstate]; decide)]
          simp

theorem parseSlice_settled (buffer : Bytes)
    (h : (parseSlice d buffer).result = .ok d') : d'.state ≠ .valueComplete := by
  induction d, buffer using parseSlice.induct with
  | case1 d buffer hturn =>
    rw [parseSlice_of_none hturn] at h
    cases h
    intro hstate
    simp only [turn, hstate, if_true] at hturn
    split at hturn <;> cases hturn
  | case2 d buffer e hturn =>
    rw [parseSlice_of_error hturn] at h
    cases h
  | case3 d buffer t hturn ih =>
    rw [parseSlice_of_ok hturn] at h
    exact ih h

variable {d}

theorem andThen_congr {x : Decoded} {f g : Decoder → Decoded}
    (h : ∀ d, x.result = .ok d → f d = g d) : x.andThen f = x.andThen g := by
  unfold Decoded.andThen
  cases hx : x.result with
  | error e => rfl
  | ok d => simp only [h d hx]

theorem decode_eq_parseSlice (slices : List Bytes) (d : Decoder) (hd : d.state ≠ .valueComplete) :
    decode d slices = parseSlice d slices.flatten := by
  induction slices generalizing d with
  | nil => exact (parseSlice_of_none (turn_nil hd)).symm
  | cons slice slices ih =>
    rw [decode, flatten_cons, parseSlice_append]
    exact andThen_congr fun d' hd' => ih d' (parseSlice_settled d slice hd')

theorem decodeCalls_eq_parseSlice (calls : List (List Bytes)) (d : Decoder)
    (hd : d.state ≠ .valueComplete) : decodeCalls d calls = parseSlice d calls.flatten.flatten := by
  induction calls generalizing d with
  | nil => exact (parseSlice_of_none (turn_nil hd)).symm
  | cons slices calls ih =>
    rw [decodeCalls, decode_eq_parseSlice slices d hd, flatten_cons, flatten_append,
      parseSlice_append]
    exact andThen_congr fun d' hd' => ih d' (parseSlice_settled d _ hd')

end Meliproxy.Envoy.Redis
