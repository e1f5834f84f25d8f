import Meliproxy.Lib.Separator
import Meliproxy.Envoy.Common.StringUtil

/-!
# Query strings

`parseQueryString` of `http/utility.cc`. The loop looks for `=` in the whole rest of the URL, and
not only in the parameter that it is at.
-/

namespace Meliproxy.Envoy.Http

open Lib List StringUtil Function

/-- A `std::map` by what it has for each key. -/
abbrev QueryParams := Bytes → Option Bytes

def QueryParams.emplace (params : QueryParams) (key value : Bytes) : QueryParams :=
  if (params key).isSome then params else Function.update params key (some value)

/-- One turn of the loop for each parameter, at most one for each byte. -/
def parseQueryLoop (url : Bytes) : Nat → Nat → QueryParams → QueryParams
  | 0, _, params => params
  | fuel + 1, start, params =>
    if start < url.length then
      let finish := (findFrom 38 url start).getD url.length
      let params :=
        match findFrom 61 url start with
        | some equal =>
          params.emplace (subspan url start equal)
            (subspan url (equal + 1) finish)
        | none => params.emplace (subspan url start finish) []
      parseQueryLoop url fuel (finish + 1) params
    else params

variable (url : Bytes)

def parseQueryString : QueryParams :=
  match findFrom 63 url 0 with
  | none => fun _ => none
  | some start => parseQueryLoop url url.length (start + 1) fun _ => none

def parameters (query : Bytes) : List Bytes :=
  let pieces := query.splitOn 38
  if pieces.getLast? = some [] then pieces.dropLast else pieces

def keyOf (parameter : Bytes) : Bytes := parameter.takeWhile (· ≠ 61)

def valueOf (parameter : Bytes) : Bytes := (parameter.dropWhile (· ≠ 61)).drop 1

def queryOf : Bytes := (url.dropWhile (· ≠ 63)).drop 1

def specifiedParams : QueryParams := fun key =>
  ((parameters (queryOf url)).find? fun parameter => keyOf parameter = key).map valueOf

/-- A parameter without `=` comes after all those that have one. -/
def FlagsLast (text : Bytes) : Prop :=
  (parameters text).Pairwise fun before after => 61 ∈ after → 61 ∈ before

instance (text : Bytes) : Decidable (FlagsLast text) :=
  inferInstanceAs (Decidable (List.Pairwise _ _))

/-- The same where an empty piece behind the last `&` counts as well. -/
def splitParams : QueryParams := fun key =>
  if 63 ∈ url then
    (((queryOf url).splitOn 38).find? fun piece => keyOf piece = key).map valueOf
  else none

theorem parameters_nil : parameters [] = [] := rfl

variable {text : Bytes}

theorem parameters_eq_cons (h : text ≠ []) : parameters text =
      text.takeWhile (· ≠ 38) :: parameters ((text.dropWhile (· ≠ 38)).drop 1) := by
  have hnot : 38 ∉ text.takeWhile (· ≠ 38) := by
    intro hmem
    have hne := mem_takeWhile_imp hmem
    simp at hne
  have hsplit := takeWhile_append_dropWhile (p := (· ≠ (38 : UInt8))) (l := text)
  cases hd : text.dropWhile (· ≠ 38) with
  | nil =>
    rw [hd, append_nil] at hsplit
    rw [hsplit] at hnot ⊢
    rw [parameters, splitOn_eq_singleton hnot]
    simp [h, parameters_nil]
  | cons c rest =>
    have hc : c = 38 := by
      have hhead := head?_dropWhile_not (· ≠ (38 : UInt8)) text
      rw [hd] at hhead
      simpa using hhead
    subst hc
    have hpieces : text.splitOn 38 = text.takeWhile (· ≠ 38) :: rest.splitOn 38 := by
      calc
        text.splitOn 38 = (text.takeWhile (· ≠ 38) ++ 38 :: rest).splitOn 38 := by
          rw [← hd, hsplit]
        _ = text.takeWhile (· ≠ 38) :: rest.splitOn 38 := by
          rw [splitOn_append_cons_self, splitOn_eq_singleton hnot]
          rfl
    obtain ⟨tail, htail, -⟩ := splitOn_eq_cons 38 rest
    rw [parameters, hpieces, drop_one, tail_cons, parameters, htail]
    rw [getLast?_cons_cons, dropLast_cons_cons]
    split <;> rfl

theorem parameters_subset (text : Bytes) : parameters text ⊆ text.splitOn 38 := by
  intro piece hpiece
  rw [parameters] at hpiece
  split at hpiece
  · exact dropLast_subset _ hpiece
  · exact hpiece

variable {parameter : Bytes}

theorem notMem_of_mem_parameters (h : parameter ∈ parameters text) :
    38 ∉ parameter := notMem_of_mem_splitOn (parameters_subset text h)

theorem splitOn_eq_parameters (text : Bytes) :
    text.splitOn 38 = parameters text ∨ text.splitOn 38 = parameters text ++ [[]] := by
  by_cases h : (text.splitOn 38).getLast? = some []
  · right
    rw [parameters, if_pos h]
    exact (dropLast_append_getLast? [] h).symm
  · left
    rw [parameters, if_neg h]

theorem mem_iff_mem_parameters {c : UInt8} (hc : c ≠ 38) (text : Bytes) :
    c ∈ text ↔ ∃ parameter ∈ parameters text, c ∈ parameter := by
  constructor
  · intro h
    obtain ⟨piece, hpiece, hmem⟩ := exists_mem_splitOn hc h
    rcases splitOn_eq_parameters text with heq | heq
    · exact ⟨piece, heq ▸ hpiece, hmem⟩
    · rw [heq] at hpiece
      rcases mem_append.mp hpiece with hpiece | hpiece
      · exact ⟨piece, hpiece, hmem⟩
      · rw [mem_singleton.mp hpiece] at hmem
        cases hmem
  · rintro ⟨parameter, hparam, hmem⟩
    exact mem_of_mem_splitOn (parameters_subset text hparam) hmem

variable (text)

def firstPiece : Bytes := text.takeWhile (· ≠ 38)

def nextText : Bytes := (text.dropWhile (· ≠ 38)).drop 1

/-- The loop is at a parameter without `=`, and there is one behind it. -/
def Swallows : Prop := 61 ∉ firstPiece text ∧ 61 ∈ text

instance : Decidable (Swallows text) := inferInstanceAs (Decidable (_ ∧ _))

variable {text}

variable {key : Bytes}

theorem keyOf_append_cons (h : 61 ∉ key) (value : Bytes) :
    keyOf (key ++ 61 :: value) = key := takeWhile_append_cons h value

theorem valueOf_append_cons (h : 61 ∉ key) (value : Bytes) :
    valueOf (key ++ 61 :: value) = value := by
  rw [valueOf, dropWhile_append_cons h, drop_one, tail_cons]

theorem keyOf_of_notMem (h : 61 ∉ parameter) : keyOf parameter = parameter := by
  apply takeWhile_eq_self_iff.mpr
  intro x hx
  have hne : x ≠ 61 := fun hxc => h (hxc ▸ hx)
  simpa using hne

theorem valueOf_of_notMem (h : 61 ∉ parameter) : valueOf parameter = [] := by
  have happend := takeWhile_append_dropWhile (p := (· ≠ (61 : UInt8))) (l := parameter)
  have hkey : parameter.takeWhile (· ≠ 61) = parameter := keyOf_of_notMem h
  rw [hkey] at happend
  rw [valueOf, append_right_eq_self.mp happend, drop_nil]

theorem firstPiece_append (text : Bytes) :
    firstPiece text ++ text.dropWhile (· ≠ 38) = text := takeWhile_append_dropWhile

theorem drop_firstPiece (text : Bytes) :
    text.drop ((firstPiece text).length + 1) = nextText text := by
  conv_lhs => arg 2; rw [← firstPiece_append text]
  rw [← drop_drop, drop_left, nextText]

variable {url : Bytes} {start : Nat}

/-- The turn reads the parameter as it should where it does not run into the next ones. -/
theorem parseQueryLoop_of_not_swallows (h : url.drop start ≠ []) (hs : ¬ Swallows (url.drop start))
    (fuel : Nat) (params : QueryParams) : parseQueryLoop url (fuel + 1) start params =
      parseQueryLoop url fuel (start + (firstPiece (url.drop start)).length + 1)
        (params.emplace (keyOf (firstPiece (url.drop start)))
          (valueOf (firstPiece (url.drop start)))) := by
  have hlt : start < url.length := by
    by_contra hge
    exact h (drop_eq_nil_of_le (by omega))
  have hfinish := findFrom_getD 38 (Nat.le_of_lt hlt)
  rw [parseQueryLoop, if_pos hlt]
  change (findFrom 38 url start).getD url.length =
    start + (firstPiece (url.drop start)).length at hfinish
  simp only [hfinish]
  by_cases hmem : 61 ∈ firstPiece (url.drop start)
  · -- the `=` of the parameter is the first one of the rest of the URL
    obtain ⟨key, value, hpiece, hkey⟩ := eq_append_cons_of_mem hmem
    obtain ⟨tail, htext⟩ : ∃ tail, url.drop start = key ++ 61 :: (value ++ tail) := by
      refine ⟨(url.drop start).dropWhile (· ≠ 38), ?_⟩
      conv_lhs => rw [← firstPiece_append (url.drop start), hpiece]
      rw [append_assoc, cons_append]
    have hequal : findFrom 61 url start = some (start + key.length) := by
      rw [findFrom_of_mem (by rw [htext]; simp), htext, takeWhile_append_cons hkey]
    have hbefore : subspan url start (start + key.length) = key := by
      rw [subspan_of_le (by omega), Nat.add_sub_cancel_left, htext, take_left]
    have hdrop : url.drop (start + key.length + 1) = value ++ tail := by
      rw [← drop_drop, ← drop_drop, htext, drop_left, drop_one, tail_cons]
    have hafter : subspan url (start + key.length + 1)
        (start + (firstPiece (url.drop start)).length) = value := by
      have hlength : start + (key ++ 61 :: value).length - (start + key.length + 1) =
          value.length := by
        rw [length_append, length_cons]
        omega
      rw [hpiece, subspan_of_le (by simp only [length_append, length_cons]; omega),
        hlength, hdrop, take_left]
    rw [hequal]
    simp only [hbefore, hafter]
    rw [hpiece, keyOf_append_cons hkey, valueOf_append_cons hkey]
  · have hnone : 61 ∉ url.drop start := fun hm => hs ⟨hmem, hm⟩
    have hpiece : subspan url start (start + (firstPiece (url.drop start)).length) =
        firstPiece (url.drop start) := by
      rw [subspan_of_le (by omega), Nat.add_sub_cancel_left]
      conv_lhs => arg 2; rw [← firstPiece_append (url.drop start)]
      rw [take_left]
    rw [findFrom_of_notMem hnone, keyOf_of_notMem hmem, valueOf_of_notMem hmem]
    simp only [hpiece]

/-- Otherwise the key has the `&` in it that ends the parameter. -/
theorem parseQueryLoop_of_swallows (hs : Swallows (url.drop start)) (fuel : Nat)
    (params : QueryParams) : ∃ key value, 38 ∈ key ∧ parseQueryLoop url (fuel + 1) start params =
      parseQueryLoop url fuel (start + (firstPiece (url.drop start)).length + 1)
        (params.emplace key value) := by
  obtain ⟨hpiece, hmem⟩ := hs
  have hlt : start < url.length := by
    by_contra hge
    rw [drop_eq_nil_of_le (by omega)] at hmem
    cases hmem
  have hfinish := findFrom_getD 38 (Nat.le_of_lt hlt)
  rw [parseQueryLoop, if_pos hlt]
  change (findFrom 38 url start).getD url.length =
    start + (firstPiece (url.drop start)).length at hfinish
  simp only [hfinish]
  rw [findFrom_of_mem hmem]
  refine ⟨_, _, ?_, rfl⟩
  obtain ⟨key, value, htext, hkey⟩ := eq_append_cons_of_mem hmem
  rw [subspan_of_le (by omega), Nat.add_sub_cancel_left, htext, takeWhile_append_cons hkey,
    take_left]
  by_contra hamp
  apply hpiece
  rw [htext, firstPiece, takeWhile_append_of_pos, takeWhile_cons_of_pos (by decide)]
  · simp
  · intro x hx
    have hne : x ≠ 38 := fun hxc => hamp (hxc ▸ hx)
    simpa using hne

variable {params : QueryParams} {k : Bytes}

theorem emplace_keeps (h : (params k).isSome) (key value : Bytes) :
    (params.emplace key value k).isSome := by
  rw [QueryParams.emplace]
  split
  · exact h
  · rename_i hnone
    have hne : k ≠ key := fun hk => hnone (hk ▸ h)
    rw [update_of_ne hne]
    exact h

theorem emplace_has (params : QueryParams) (key value : Bytes) :
    (params.emplace key value key).isSome := by
  rw [QueryParams.emplace]
  split
  · assumption
  · rw [update_self]
    rfl

theorem emplace_or (params : QueryParams) (key value k : Bytes) (rest : Option Bytes) :
    (params.emplace key value k).or rest =
      (params k).or (if key = k then some value else rest) := by
  rw [QueryParams.emplace]
  split
  · rename_i hsome
    by_cases hk : key = k
    · subst hk
      obtain ⟨old, hold⟩ := Option.isSome_iff_exists.mp hsome
      simp [hold]
    · rw [if_neg hk]
  · rename_i hnone
    by_cases hk : key = k
    · subst hk
      rw [update_self, Option.not_isSome_iff_eq_none.mp hnone]
      simp
    · rw [update_of_ne (Ne.symm hk), if_neg hk]

variable (url)

theorem parseQueryLoop_keeps (fuel start : Nat) (h : (params k).isSome) :
    (parseQueryLoop url fuel start params k).isSome := by
  induction fuel generalizing start params with
  | zero => exact h
  | succ fuel ih =>
    rw [parseQueryLoop]
    split
    · apply ih
      dsimp only
      split
      · exact emplace_keeps h _ _
      · exact emplace_keeps h _ _
    · exact h

theorem flagsLast_iff (h : text ≠ []) :
    FlagsLast text ↔ ¬ Swallows text ∧ FlagsLast (nextText text) := by
  have hcons : parameters text = firstPiece text :: parameters (nextText text) :=
    parameters_eq_cons h
  rw [FlagsLast, hcons, pairwise_cons]
  apply and_congr_left
  intro
  constructor
  · rintro hhead ⟨hpiece, hmem⟩
    obtain ⟨parameter, hparam, hequal⟩ := (mem_iff_mem_parameters (by decide) text).mp hmem
    rw [hcons] at hparam
    rcases mem_cons.mp hparam with rfl | hparam
    · exact hpiece hequal
    · exact hpiece (hhead parameter hparam hequal)
  · intro hs parameter hparam hequal
    by_contra hpiece
    refine hs ⟨hpiece, (mem_iff_mem_parameters (by decide) text).mpr ⟨parameter, ?_, hequal⟩⟩
    rw [hcons]
    exact mem_cons_of_mem _ hparam

theorem nextText_length (h : text ≠ []) : (nextText text).length < text.length := by
  have hpos := length_pos_of_ne_nil h
  rw [← drop_firstPiece, length_drop]
  omega

theorem parseQueryLoop_of_flagsLast (fuel start : Nat) (params : QueryParams)
    (hfuel : (url.drop start).length ≤ fuel) (h : FlagsLast (url.drop start)) (k : Bytes) :
    parseQueryLoop url fuel start params k =
      (params k).or (((parameters (url.drop start)).find? fun parameter => keyOf parameter = k).map
        valueOf) := by
  induction fuel generalizing start params with
  | zero =>
    rw [length_eq_zero_iff.mp (Nat.le_zero.mp hfuel)]
    simp [parseQueryLoop, parameters_nil]
  | succ fuel ih =>
    by_cases hnil : url.drop start = []
    · have hge := drop_eq_nil_iff.mp hnil
      rw [parseQueryLoop, if_neg (by omega), hnil, parameters_nil]
      simp
    · obtain ⟨hs, hnext⟩ := (flagsLast_iff hnil).mp h
      have hdrop : url.drop (start + (firstPiece (url.drop start)).length + 1) =
          nextText (url.drop start) := by
        rw [Nat.add_assoc, ← drop_drop, drop_firstPiece]
      have hlength := nextText_length hnil
      have hcons : parameters (url.drop start) =
          firstPiece (url.drop start) :: parameters (nextText (url.drop start)) :=
        parameters_eq_cons hnil
      rw [parseQueryLoop_of_not_swallows hnil hs, ih _ _ (by rw [hdrop]; omega) (hdrop ▸ hnext),
        hdrop, hcons, emplace_or, find?_cons]
      by_cases hk : keyOf (firstPiece (url.drop start)) = k
      · simp [hk]
      · simp [hk]

theorem parseQueryLoop_of_not_flagsLast (fuel start : Nat) (params : QueryParams)
    (hfuel : (url.drop start).length ≤ fuel) (h : ¬ FlagsLast (url.drop start)) :
    ∃ k, 38 ∈ k ∧ (parseQueryLoop url fuel start params k).isSome := by
  induction fuel generalizing start params with
  | zero =>
    rw [length_eq_zero_iff.mp (Nat.le_zero.mp hfuel)] at h
    exact absurd List.Pairwise.nil h
  | succ fuel ih =>
    have hnil : url.drop start ≠ [] := by
      intro hnil
      rw [hnil] at h
      exact h List.Pairwise.nil
    by_cases hs : Swallows (url.drop start)
    · obtain ⟨key, value, hamp, heq⟩ := parseQueryLoop_of_swallows hs fuel params
      refine ⟨key, hamp, ?_⟩
      rw [heq]
      exact parseQueryLoop_keeps url fuel _ (emplace_has params key value)
    · have hnext : ¬ FlagsLast (nextText (url.drop start)) :=
        fun hnext => h ((flagsLast_iff hnil).mpr ⟨hs, hnext⟩)
      have hdrop : url.drop (start + (firstPiece (url.drop start)).length + 1) =
          nextText (url.drop start) := by
        rw [Nat.add_assoc, ← drop_drop, drop_firstPiece]
      have hlength := nextText_length hnil
      rw [parseQueryLoop_of_not_swallows hnil hs]
      exact ih _ _ (by rw [hdrop]; omega) (hdrop ▸ hnext)

theorem parseQueryString_cases :
    (63 ∉ url ∧ queryOf url = [] ∧ parseQueryString url = fun _ => none) ∨
      (63 ∈ url ∧ ∃ start, url.drop start = queryOf url ∧
        parseQueryString url = parseQueryLoop url url.length start fun _ => none) := by
  by_cases hmem : 63 ∈ url
  · right
    refine ⟨hmem, (url.takeWhile (· ≠ 63)).length + 1, ?_, ?_⟩
    · have happend := takeWhile_append_dropWhile (p := (· ≠ (63 : UInt8))) (l := url)
      conv_lhs => arg 2; rw [← happend]
      rw [← drop_drop, drop_left, queryOf]
    · rw [parseQueryString, findFrom_of_mem (by simpa using hmem)]
      simp
  · left
    refine ⟨hmem, ?_, ?_⟩
    · have hnil : url.dropWhile (· ≠ 63) = [] := by
        apply dropWhile_eq_nil_iff.mpr
        intro c hc
        have hne : c ≠ 63 := fun h63 => hmem (h63 ▸ hc)
        simpa using hne
      rw [queryOf, hnil, drop_nil]
    · rw [parseQueryString, findFrom_of_notMem (by simpa using hmem)]

variable {url}

theorem parseQueryString_of_flagsLast (h : FlagsLast (queryOf url)) :
    parseQueryString url = specifiedParams url := by
  funext k
  rcases parseQueryString_cases url with ⟨-, hquery, heq⟩ | ⟨-, start, hdrop, heq⟩
  · rw [heq, specifiedParams, hquery, parameters_nil]
    rfl
  · have hlength : (url.drop start).length ≤ url.length := by
      rw [length_drop]
      omega
    rw [heq, parseQueryLoop_of_flagsLast url _ start _ hlength (hdrop ▸ h), hdrop]
    simp [specifiedParams]

theorem parseQueryString_of_not_flagsLast (h : ¬ FlagsLast (queryOf url)) :
    ∃ k, 38 ∈ k ∧ (parseQueryString url k).isSome := by
  rcases parseQueryString_cases url with ⟨-, hquery, -⟩ | ⟨-, start, hdrop, heq⟩
  · rw [hquery] at h
    exact absurd List.Pairwise.nil h
  · have hlength : (url.drop start).length ≤ url.length := by
      rw [length_drop]
      omega
    rw [heq]
    exact parseQueryLoop_of_not_flagsLast url _ start _ hlength (hdrop ▸ h)

theorem find?_keyOf_eq_none {pieces : List Bytes} (h : ∀ piece ∈ pieces, 38 ∉ piece) (hk : 38 ∈ k) :
    (pieces.find? fun piece => keyOf piece = k) = none := by
  rw [find?_eq_none]
  intro piece hpiece heq
  have hkey : keyOf piece = k := by simpa using heq
  exact h piece hpiece ((takeWhile_subset _) (hkey ▸ hk))

theorem specifiedParams_eq_none (hk : 38 ∈ k) : specifiedParams url k = none := by
  rw [specifiedParams, find?_keyOf_eq_none (fun _ => notMem_of_mem_parameters) hk]
  rfl

theorem splitParams_eq_none (hk : 38 ∈ k) : splitParams url k = none := by
  rw [splitParams]
  split
  · rw [find?_keyOf_eq_none (fun _ => notMem_of_mem_splitOn) hk]
    rfl
  · rfl

theorem specifiedParams_eq_splitParams_iff (url : Bytes) : specifiedParams url = splitParams url ↔
      (63 ∈ url → parameters (queryOf url) = (queryOf url).splitOn 38 ∨
        ∃ parameter ∈ parameters (queryOf url), keyOf parameter = []) := by
  by_cases hmem : 63 ∈ url
  · rcases splitOn_eq_parameters (queryOf url) with heq | heq
    · apply iff_of_true
      · funext k
        rw [specifiedParams, splitParams, if_pos hmem, heq]
      · exact fun _ => Or.inl heq.symm
    · have hne : parameters (queryOf url) ≠ (queryOf url).splitOn 38 := by
        intro hsame
        rw [heq] at hsame
        cases append_right_eq_self.mp hsame.symm
      constructor
      · intro hsame _
        right
        have hempty := congrFun hsame []
        rw [specifiedParams, splitParams, if_pos hmem, heq, find?_append] at hempty
        cases hfind : (parameters (queryOf url)).find? fun piece => keyOf piece = [] with
        | none => rw [hfind] at hempty; cases hempty
        | some parameter =>
          refine ⟨parameter, mem_of_find?_eq_some hfind, ?_⟩
          simpa using find?_some hfind
      · intro h
        obtain ⟨parameter, hparam, hkey⟩ := (h hmem).resolve_left hne
        funext k
        rw [specifiedParams, splitParams, if_pos hmem, heq, find?_append]
        cases hfind : (parameters (queryOf url)).find? fun piece => keyOf piece = k with
        | some first => rfl
        | none =>
          have hk : k ≠ [] := by
            rintro rfl
            have hnone := find?_eq_none.mp hfind parameter hparam
            simp [hkey] at hnone
          have hlast : [([] : Bytes)].find? (fun piece => keyOf piece = k) = none := by
            rw [find?_eq_none]
            intro piece hpiece
            rw [mem_singleton.mp hpiece]
            simpa [keyOf] using hk.symm
          rw [hlast]
          rfl
  · rcases parseQueryString_cases url with ⟨-, hquery, -⟩ | ⟨hyes, -⟩
    · apply iff_of_true
      · funext k
        rw [specifiedParams, splitParams, if_neg hmem, hquery, parameters_nil]
        rfl
      · exact fun hyes => absurd hyes hmem
    · exact absurd hyes hmem

/-- The map is the specified one exactly where no parameter without `=` stands before one that has
it. To agree with all the pieces, it also needs that no empty one was left out, or that the empty
key is there by itself. -/
theorem parseQueryString_eq_iff (url : Bytes) :
    (parseQueryString url = specifiedParams url ↔ FlagsLast (queryOf url)) ∧
      (parseQueryString url = splitParams url ↔ FlagsLast (queryOf url) ∧
        (63 ∈ url → parameters (queryOf url) = (queryOf url).splitOn 38 ∨
          ∃ parameter ∈ parameters (queryOf url), keyOf parameter = [])) := by
  by_cases h : FlagsLast (queryOf url)
  · have heq := parseQueryString_of_flagsLast h
    refine ⟨iff_of_true heq h, ?_⟩
    rw [heq, specifiedParams_eq_splitParams_iff]
    exact (and_iff_right h).symm
  · obtain ⟨k, hk, hsome⟩ := parseQueryString_of_not_flagsLast h
    have hspecified : parseQueryString url ≠ specifiedParams url := by
      intro heq
      rw [heq, specifiedParams_eq_none hk] at hsome
      cases hsome
    have hsplit : parseQueryString url ≠ splitParams url := by
      intro heq
      rw [heq, splitParams_eq_none hk] at hsome
      cases hsome
    exact ⟨iff_of_false hspecified h, iff_of_false hsplit fun hboth => h hboth.1⟩

/-- In `/a?b&c=d` the first parameter is `b`, and the map has `b&c`. -/
theorem parseQueryString_swallows :
    parseQueryString (ascii "/a?b&c=d") ≠ specifiedParams (ascii "/a?b&c=d") ∧
      parseQueryString (ascii "/a?b&c=d") ≠ splitParams (ascii "/a?b&c=d") := by
  have hcode : parseQueryString (ascii "/a?b&c=d") (ascii "b&c") = some (ascii "d") := by
    decide +kernel
  constructor
  · intro heq
    rw [heq, specifiedParams_eq_none (by decide +kernel)] at hcode
    cases hcode
  · intro heq
    rw [heq, splitParams_eq_none (by decide +kernel)] at hcode
    cases hcode

end Meliproxy.Envoy.Http
