import Meliproxy.Envoy.Http.HeaderMap

/-!
# The size of the headers of an HTTP/2 stream

`reconstituteCrumbledCookies` and the two `saveHeader` of `http/http2/codec_impl.cc`. Cookies go to
a string of their own, and the size that is compared with the limit is that of the others.
-/

namespace Meliproxy.Envoy.Http.Http2

open Lib List

def NGHTTP2_ERR_TEMPORAL_CALLBACK_FAILURE : Int := -521

def MAX_HEADER_SIZE : Nat := 63 * 1024

theorem failure_ne_zero : NGHTTP2_ERR_TEMPORAL_CALLBACK_FAILURE ≠ 0 := by decide

abbrev Header := HeaderString × HeaderString

/-- What a stream holds of the header block that it is receiving. -/
structure StreamImpl where
  headers : HeaderMap
  cookies : HeaderString

structure CodecStats where
  headerOverflow : Nat
  headersCbNoStream : Nat

def isCookie (key : HeaderString) : Bool := key.cStr = ascii "cookie"

def reconstituteCrumbledCookies (key value cookies : HeaderString) : Option HeaderString :=
  if isCookie key = false then none
  else
    let cookies := if cookies.empty then cookies else cookies.append (ascii "; ")
    some (cookies.append value.bytes)

namespace StreamImpl

def new : StreamImpl := ⟨.new, .new⟩

def saveHeader (s : StreamImpl) (header : Header) : StreamImpl :=
  match reconstituteCrumbledCookies header.1 header.2 s.cookies with
  | some cookies => { s with cookies }
  | none => { s with headers := s.headers.addViaMove header.1 header.2 }

def size (s : StreamImpl) : Nat := s.headers.byteSize + s.cookies.bytes.length

end StreamImpl

/-- `ConnectionImpl::saveHeader` for a stream that may not be there. -/
def saveHeader (stats : CodecStats) (stream : Option StreamImpl) (header : Header) :
    CodecStats × Option StreamImpl × Int :=
  match stream with
  | none => ({ stats with headersCbNoStream := stats.headersCbNoStream + 1 }, none, 0)
  | some stream =>
    let stream := stream.saveHeader header
    if MAX_HEADER_SIZE < stream.headers.byteSize then
      ({ stats with headerOverflow := stats.headerOverflow + 1 }, some stream,
        NGHTTP2_ERR_TEMPORAL_CALLBACK_FAILURE)
    else (stats, some stream, 0)

/-- As long as zero is returned the size is within the limit, and it is the failure as soon as it
is not. The library does not go on after a failure. -/
def Limited (stats : CodecStats) (stream : Option StreamImpl) : List Header → Prop
  | [] => True
  | header :: block =>
    let (stats', stream', result) := saveHeader stats stream header
    (result = 0 ∧ (∀ s ∈ stream', s.size ≤ MAX_HEADER_SIZE) ∨
      result = NGHTTP2_ERR_TEMPORAL_CALLBACK_FAILURE ∧ ∃ s ∈ stream', MAX_HEADER_SIZE < s.size) ∧
      (result = 0 → Limited stats' stream' block)

variable (block : List Header)

def others : List Header := block.filter fun header => ¬ isCookie header.1

def cookiesOf : List Header := block.filter fun header => isCookie header.1

/-- The values of the cookies, with a semicolon after what is not empty. -/
def cookieText : Bytes :=
  (cookiesOf block).foldl
    (fun text header => (if text = [] then text else text ++ ascii "; ") ++ header.2.bytes) []

def headersSize : Nat := (HeaderMap.ofHeaders (others block)).byteSize

theorem append_bytes {s : HeaderString} (h : s.type ≠ .reference) (data : Bytes) :
    (s.append data).bytes = s.bytes ++ data ∧ (s.append data).type ≠ .reference := by
  rw [HeaderString.append]
  simp only [if_neg h]
  split
  · exact ⟨rfl, nofun⟩
  · exact ⟨rfl, nofun⟩

theorem reconstituteCrumbledCookies_eq (key value : HeaderString) {cookies : HeaderString}
    (h : cookies.type ≠ .reference) :
    isCookie key = false ∧ reconstituteCrumbledCookies key value cookies = none ∨
      isCookie key = true ∧ ∃ cookies', reconstituteCrumbledCookies key value cookies =
          some cookies' ∧ cookies'.type ≠ .reference ∧ cookies'.bytes =
          (if cookies.bytes = [] then cookies.bytes else cookies.bytes ++ ascii "; ") ++
            value.bytes := by
  rw [reconstituteCrumbledCookies]
  cases hcookie : isCookie key with
  | false => exact .inl ⟨rfl, if_pos rfl⟩
  | true =>
    right
    refine ⟨rfl, _, if_neg nofun, ?_⟩
    by_cases hempty : cookies.bytes = []
    · have hyes : cookies.empty = true := decide_eq_true hempty
      rw [if_pos hyes, if_pos hempty]
      obtain ⟨hbytes, htype⟩ := append_bytes h value.bytes
      exact ⟨htype, hbytes⟩
    · have hno : ¬ cookies.empty = true := fun hyes => hempty (of_decide_eq_true hyes)
      rw [if_neg hno, if_neg hempty]
      obtain ⟨hseparated, htype⟩ := append_bytes h (ascii "; ")
      obtain ⟨hbytes, htype'⟩ := append_bytes htype value.bytes
      exact ⟨htype', by rw [hbytes, hseparated]⟩

theorem foldl_saveHeader :
    (block.foldl StreamImpl.saveHeader .new).headers = HeaderMap.ofHeaders (others block) ∧
      (block.foldl StreamImpl.saveHeader .new).cookies.bytes = cookieText block ∧
      (block.foldl StreamImpl.saveHeader .new).cookies.type ≠ .reference := by
  induction block using List.reverseRecOn with
  | nil => exact ⟨rfl, rfl, nofun⟩
  | append_singleton block header ih =>
    obtain ⟨hheaders, hcookies, htype⟩ := ih
    rw [foldl_append, foldl_cons, foldl_nil, StreamImpl.saveHeader]
    rcases reconstituteCrumbledCookies_eq header.1 header.2 htype with
      ⟨hno, hnone⟩ | ⟨hyes, cookies, hsome, htype', hbytes⟩
    · have hothers : others (block ++ [header]) = others block ++ [header] := by
        rw [others, filter_append, filter_cons_of_pos (by simp [hno])]
        rfl
      have hrest : cookiesOf (block ++ [header]) = cookiesOf block := by
        rw [cookiesOf, filter_append, filter_cons_of_neg (by simp [hno])]
        exact append_nil _
      rw [hnone]
      refine ⟨?_, ?_, htype⟩
      · rw [hothers, HeaderMap.ofHeaders, foldl_append, foldl_cons, foldl_nil, hheaders]
        rfl
      · rw [cookieText, hrest, ← cookieText, hcookies]
    · have hothers : others (block ++ [header]) = others block := by
        rw [others, filter_append, filter_cons_of_neg (by simp [hyes])]
        exact append_nil _
      have hrest : cookiesOf (block ++ [header]) = cookiesOf block ++ [header] := by
        rw [cookiesOf, filter_append, filter_cons_of_pos (by simp [hyes])]
        rfl
      rw [hsome]
      refine ⟨?_, ?_, htype'⟩
      · rw [hothers, hheaders]
      · rw [hbytes, hcookies, cookieText, cookieText, hrest, foldl_append, foldl_cons, foldl_nil]

theorem size_foldl : (block.foldl StreamImpl.saveHeader .new).size =
      headersSize block + (cookieText block).length := by
  obtain ⟨hheaders, hcookies, -⟩ := foldl_saveHeader block
  rw [StreamImpl.size, hheaders, hcookies, headersSize]

theorem byteSize_emplace (m : HeaderMap) (key value : HeaderString) :
    m.byteSize ≤ (m.emplace key value).byteSize := by
  rw [HeaderMap.byteSize, HeaderMap.byteSize, HeaderMap.emplace, map_append, sum_append]
  exact Nat.le_add_right _ _

theorem byteSize_addViaMove (m : HeaderMap) (key value : HeaderString) :
    m.byteSize ≤ (m.addViaMove key value).byteSize := by
  rw [HeaderMap.addViaMove, HeaderMap.insertByKey]
  split
  · rw [HeaderMap.maybeCreateInline]
    split
    · exact Nat.le_refl _
    · exact byteSize_emplace m _ value
  · exact byteSize_emplace m key value

theorem headersSize_append (block rest : List Header) :
    headersSize block ≤ headersSize (block ++ rest) := by
  rw [headersSize, headersSize, HeaderMap.ofHeaders, HeaderMap.ofHeaders, others, others,
    filter_append, foldl_append]
  generalize (block.filter fun header => ¬ isCookie header.1).foldl
    (fun m h => m.addViaMove h.1 h.2) HeaderMap.new = m
  induction rest.filter fun header => ¬ isCookie header.1 generalizing m with
  | nil => exact Nat.le_refl _
  | cons header rest ih =>
    exact Nat.le_trans (byteSize_addViaMove m header.1 header.2) (ih _)

/-- The limit holds for what comes after `done` exactly when no part of it goes over the limit by
its cookies. -/
theorem limited_iff_of_done (done block : List Header) (stats : CodecStats) :
    Limited stats (some (done.foldl StreamImpl.saveHeader .new)) block ↔
      ∀ before, before <+: block → before ≠ [] → headersSize (done ++ before) ≤ MAX_HEADER_SIZE →
          headersSize (done ++ before) + (cookieText (done ++ before)).length ≤
            MAX_HEADER_SIZE := by
  induction block generalizing done stats with
  | nil =>
    refine iff_of_true trivial fun before hprefix hne => ?_
    exact absurd (prefix_nil.mp hprefix) hne
  | cons header block ih =>
    have hsaved : (done.foldl StreamImpl.saveHeader .new).saveHeader header =
        (done ++ [header]).foldl StreamImpl.saveHeader .new := by
      rw [foldl_append, foldl_cons, foldl_nil]
    have hsize := size_foldl (done ++ [header])
    have hmap : ((done ++ [header]).foldl StreamImpl.saveHeader .new).headers.byteSize =
        headersSize (done ++ [header]) := by
      rw [(foldl_saveHeader (done ++ [header])).1, headersSize]
    have happend (before : List Header) :
        done ++ header :: before = done ++ [header] ++ before := by simp
    rw [Limited, saveHeader, hsaved]
    simp only [hmap]
    by_cases hover : MAX_HEADER_SIZE < headersSize (done ++ [header])
    · -- the failure ends the block
      rw [if_pos hover]
      apply iff_of_true
      · refine ⟨.inr ⟨rfl, _, rfl, ?_⟩, fun hzero => absurd hzero failure_ne_zero⟩
        rw [hsize]
        omega
      · intro before hprefix hne hle
        obtain rfl | ⟨rest, rfl, -⟩ := prefix_cons_iff.mp hprefix
        · exact absurd rfl hne
        · rw [happend] at hle
          have hmono := headersSize_append (done ++ [header]) rest
          omega
    · rw [if_neg hover]
      have hstep := ih (done ++ [header]) stats
      constructor
      · rintro ⟨hresult, hrest⟩ before hprefix hne hle
        obtain rfl | ⟨rest, rfl, hbehind⟩ := prefix_cons_iff.mp hprefix
        · exact absurd rfl hne
        · rw [happend] at hle ⊢
          by_cases hnil : rest = []
          · rw [hnil, append_nil, ← hsize]
            rcases hresult with ⟨-, hlimit⟩ | ⟨hfailure, -⟩
            · exact hlimit _ rfl
            · exact absurd hfailure.symm failure_ne_zero
          · exact hstep.mp (hrest rfl) rest hbehind hnil hle
      · intro h
        refine ⟨.inl ⟨rfl, ?_⟩, fun _ => hstep.mpr ?_⟩
        · rintro s ⟨rfl⟩
          rw [hsize]
          exact h [header] (prefix_cons_iff.mpr (.inr ⟨[], rfl, nil_prefix⟩))
            (cons_ne_nil _ _) (Nat.le_of_not_lt hover)
        · intro before hprefix hne hle
          rw [← happend] at hle ⊢
          exact h (header :: before) (prefix_cons_iff.mpr (.inr ⟨before, rfl, hprefix⟩))
            (cons_ne_nil _ _) hle

/-- Nothing is stored without a stream. With one, the limit holds for a header block exactly when no
part of it whose other headers are within the limit goes over it with its cookies. -/
theorem limited_iff (stats : CodecStats) (block : List Header) : Limited stats none block ∧
      (Limited stats (some .new) block ↔
        ∀ before, before <+: block → headersSize before ≤ MAX_HEADER_SIZE →
          headersSize before + (cookieText before).length ≤ MAX_HEADER_SIZE) := by
  constructor
  · induction block generalizing stats with
    | nil => exact trivial
    | cons header block ih => exact ⟨.inl ⟨rfl, nofun⟩, fun _ => ih _⟩
  · refine (limited_iff_of_done [] block stats).trans ⟨fun h before hprefix hle => ?_, ?_⟩
    · by_cases hnil : before = []
      · rw [hnil]
        exact Nat.zero_le _
      · exact h before hprefix hnil hle
    · exact fun h before hprefix _ => h before hprefix

/-- A single cookie is stored whatever its size is. -/
theorem cookie_over_limit : ¬ Limited ⟨0, 0⟩ (some .new)
      [(.setCopy .new (ascii "cookie"), .setCopy .new (List.replicate 64513 97))] := by
  intro h
  have hcookie : isCookie (.setCopy .new (ascii "cookie")) = true := by decide +kernel
  have hlimit := (limited_iff_of_done [] _ _).mp h _ prefix_rfl (cons_ne_nil _ _)
  rw [nil_append, headersSize, others, filter_cons_of_neg (by simp [hcookie]),
    cookieText, cookiesOf, filter_cons_of_pos (by simp [hcookie])] at hlimit
  simp only [filter_nil, foldl_cons, foldl_nil, if_true, nil_append,
    setCopy_bytes, length_replicate] at hlimit
  have hempty : (HeaderMap.ofHeaders []).byteSize = 0 := rfl
  have hmax : MAX_HEADER_SIZE = 64512 := rfl
  omega

end Meliproxy.Envoy.Http.Http2
