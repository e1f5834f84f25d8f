import Meliproxy.Envoy.Common.DecimalText
import Meliproxy.Envoy.Http.AccessLogFormatter
import Meliproxy.Lib.Runs

/-!
# What an access log format says

A format is literal text with operators between percent signs. `text` writes one down, and `meaning`
is the line it stands for.
-/

namespace Meliproxy.Envoy.Http.AccessLog

open Lib List StringUtil Option

def Field.name : Field → Bytes
  | .startTime => ascii "START_TIME"
  | .requestDuration => ascii "REQUEST_DURATION"
  | .responseDuration => ascii "RESPONSE_DURATION"
  | .bytesReceived => ascii "BYTES_RECEIVED"
  | .protocol => ascii "PROTOCOL"
  | .responseCode => ascii "RESPONSE_CODE"
  | .bytesSent => ascii "BYTES_SENT"
  | .duration => ascii "DURATION"
  | .responseFlags => ascii "RESPONSE_FLAGS"
  | .upstreamHost => ascii "UPSTREAM_HOST"
  | .upstreamCluster => ascii "UPSTREAM_CLUSTER"

/-- `REQ(main?alternative):length`, and `RESP` for the response. -/
inductive Operator where
  | requestInfo (field : Field)
  | header (response : Bool) (main : Bytes) (alternative length : Option Bytes)

def keyword (response : Bool) : Bytes := if response then ascii "RESP(" else ascii "REQ("

/-- A part that need not be there, after the character that announces it. -/
def optional (c : UInt8) : Option Bytes → Bytes
  | none => []
  | some text => c :: text

def Operator.token : Operator → Bytes
  | .requestInfo field => field.name
  | .header response main alternative length =>
    keyword response ++ ((main ++ optional 63 alternative) ++ 41 :: optional 58 length)

/-- The names end where the next part begins. -/
def Operator.Delimited : Operator → Prop
  | .requestInfo _ => True
  | .header _ main alternative _ => 63 ∉ main ∧ 41 ∉ main ++ optional 63 alternative

def text : List (Bytes × Operator) → Bytes → Bytes
  | [], last => last
  | (literal, operator) :: segments, last =>
    literal ++ 37 :: (operator.token ++ 37 :: text segments last)

/-- The format is these literals and operators. -/
structure Written (format : Bytes) (segments : List (Bytes × Operator)) (last : Bytes) : Prop where
  eq : format = text segments last
  delimited : ∀ segment ∈ segments, 37 ∉ segment.1 ∧ 37 ∉ segment.2.token ∧ segment.2.Delimited
  last : 37 ∉ last

def Operator.length : Operator → Option Bytes
  | .requestInfo _ => none
  | .header _ _ _ length => length

def IsDecimal (text : Bytes) : Prop := text ≠ [] ∧ text.all isDecimal = true

/-- The header that is named first, or the other one. An alternative without a name is none. -/
def valueOf (headers : HeaderMap) (main : Bytes) (alternative : Option Bytes) : Bytes :=
  match headers.get (lowerCase main) with
  | some header => header.value.bytes
  | none =>
    match alternative with
    | none | some [] => ascii "-"
    | some name =>
      match headers.get (lowerCase name) with
      | some header => header.value.bytes
      | none => ascii "-"

def cut (length : Option Bytes) (value : Bytes) : Bytes :=
  match length with
  | some length => value.take (readDecimal length 0)
  | none => value

def Operator.meaning (operator : Operator) (request response : HeaderMap) (info : RequestInfo) :
    Bytes :=
  match operator with
  | .requestInfo field => field.extract info
  | .header ofResponse main alternative length =>
    cut length (valueOf (if ofResponse then response else request) main alternative)

def meaning (segments : List (Bytes × Operator)) (last : Bytes) (request response : HeaderMap)
    (info : RequestInfo) : Bytes :=
  (segments.flatMap fun segment => segment.1 ++ segment.2.meaning request response info) ++ last

/-- `strtoul` takes the length, whatever stands before its digits. -/
def Operator.Accepted (errno : Bool) (operator : Operator) : Prop :=
  ∀ length ∈ operator.length, ∃ value, decimalValue (cStr length) = some value ∧
    TakesValue errno value

/-- The length is a number, and what is written of the value has no NUL byte. -/
def Operator.Plain (operator : Operator) (request response : HeaderMap) : Prop :=
  match operator with
  | .requestInfo _ => True
  | .header ofResponse main alternative length =>
    (∀ text ∈ length, IsDecimal text) ∧
      0 ∉ cut length (valueOf (if ofResponse then response else request) main alternative)

def Slips (errno : Bool) (format : Bytes) (request response : HeaderMap) : Prop :=
  ∃ segments last, Written format segments last ∧
    (∀ segment ∈ segments, segment.2.Accepted errno) ∧
      ∃ segment ∈ segments, ¬ segment.2.Plain request response

/-! ## One operator -/

def Operator.formatter (errno : Bool) : Operator → Formatter
  | .requestInfo field => .requestInfo field
  | .header response main alternative length =>
    let header := HeaderFormatter.new main (alternative.getD []) (length.bind (atoul errno · 10))
    if response then .responseHeader header else .requestHeader header

variable {errno : Bool} {before before' after after' token name rest : Bytes} {start : Nat}

variable {c : UInt8}

theorem append_cons_inj (h : c ∉ before) (h' : c ∉ before')
    (heq : before ++ c :: after = before' ++ c :: after') : before = before' ∧ after = after' := by
  have htake := congrArg (List.takeWhile (· ≠ c)) heq
  rw [takeWhile_append_cons h, takeWhile_append_cons h'] at htake
  subst htake
  exact ⟨rfl, (List.cons.inj (append_cancel_left heq)).2⟩

theorem optional_inj {part part' : Option Bytes}
    (h : optional c part = optional c part') : part = part' := by
  cases part <;> cases part' <;> cases h <;> rfl

theorem takeWhile_optional (h : c ∉ name) (part : Option Bytes) :
    (name ++ optional c part).takeWhile (· ≠ c) = name ∧
      ((name ++ optional c part).dropWhile (· ≠ c)).drop 1 = part.getD [] := by
  cases part with
  | none =>
    have hall : ∀ b ∈ name, decide (b ≠ c) = true := fun b hb =>
      decide_eq_true fun heq => h (heq ▸ hb)
    rw [optional, append_nil, takeWhile_eq_self_iff.mpr hall, dropWhile_eq_nil_iff.mpr hall]
    exact ⟨rfl, rfl⟩
  | some text =>
    rw [optional, takeWhile_append_cons h, dropWhile_append_cons h]
    exact ⟨rfl, rfl⟩

theorem keyword_append_ne_name (response : Bool) (field : Field) (rest : Bytes) :
    keyword response ++ rest ≠ field.name := by
  cases response <;> cases field <;> rintro ⟨⟩

theorem Field.parse_eq_ok_iff {field : Field} :
    Field.parse token = .ok field ↔ token = field.name := by
  constructor
  · intro h
    unfold Field.parse at h
    iterate 11
      obtain ⟨heq, hok⟩ | ⟨-, h⟩ := ite_eq_iff.mp h
      · cases hok
        exact heq
    cases h
  · rintro rfl
    cases field <;> decide

theorem Operator.token_inj {operator operator' : Operator} (h : operator.Delimited)
    (h' : operator'.Delimited) (heq : operator.token = operator'.token) : operator = operator' := by
  cases operator with
  | requestInfo field =>
    cases operator' with
    | requestInfo field' =>
      cases (Field.parse_eq_ok_iff.mpr rfl).symm.trans (Field.parse_eq_ok_iff.mpr heq)
      rfl
    | header => exact (keyword_append_ne_name _ _ _ heq.symm).elim
  | header response main alternative length =>
    cases operator' with
    | requestInfo => exact (keyword_append_ne_name _ _ _ heq).elim
    | header response' main' alternative' length' =>
      obtain rfl : response = response' := by
        cases response <;> cases response' <;> first | rfl | cases heq
      obtain ⟨hnames, hlength⟩ := append_cons_inj h.2 h'.2 (append_cancel_left heq)
      obtain rfl := optional_inj hlength
      obtain rfl : main = main' := by
        rw [← (takeWhile_optional h.1 alternative).1, hnames, (takeWhile_optional h'.1 _).1]
      rw [optional_inj (append_cancel_left hnames)]

def maxLength (errno : Bool) : Bytes → Option (Option Nat)
  | [] => some none
  | 58 :: length => (atoul errno length 10).map some
  | _ => none

theorem find_append (h : 41 ∉ name) : find 41 (before ++ (name ++ 41 :: rest)) before.length =
      some (before.length + name.length) := by
  have hmem : (41 : UInt8) ∈ (before ++ (name ++ 41 :: rest)).drop before.length := by
    rw [drop_left]
    simp
  rw [find, ← findFrom, findFrom_of_mem hmem, drop_left, takeWhile_append_cons h]

theorem toOption_maxLength {main text token : Bytes} (rest : Bytes)
    (header : Option Nat → Except Bytes HeaderFormatter)
    (hheader : ∀ length, header length = .ok (.new main text length)) :
    (if rest = [] then header none
      else if rest.head? ≠ some 58 then
        .error (ascii "Incorrect position of ')' in token: " ++ token)
      else match atoul errno ((41 :: rest).drop 2) 10 with
        | some lengthValue => header (some lengthValue)
        | none => .error (ascii "Length must be an integer, given: " ++ (41 :: rest).drop 2)
      : Except Bytes HeaderFormatter).toOption = (maxLength errno rest).map (.new main text ·) := by
  cases rest with
  | nil => simp [hheader, maxLength, Except.toOption]
  | cons c rest =>
    by_cases hc : c = 58
    · subst hc
      cases hatoul : atoul errno rest 10 <;> simp [hheader, maxLength, hatoul, Except.toOption]
    · simp [hc, maxLength, Except.toOption]

theorem parseCommand_eq (errno : Bool) (before rest : Bytes) {main : Bytes}
    {alternative : Option Bytes} (hmain : 63 ∉ main)
    (hsplit : name = main ++ optional 63 alternative) (h : 41 ∉ name) :
    (parseCommand errno (before ++ (name ++ 41 :: rest)) before.length).toOption =
      (maxLength errno rest).map (.new main (alternative.getD []) ·) := by
  have hname : substr (before ++ (name ++ 41 :: rest)) before.length
      (before.length + name.length - before.length) = name := by
    rw [substr, drop_left, Nat.add_sub_cancel_left, take_left]
  have hrest (n : Nat) : (before ++ (name ++ 41 :: rest)).drop (before.length + name.length + n) =
      (41 :: rest).drop n := by
    rw [Nat.add_assoc, ← drop_drop, drop_left, ← drop_drop, drop_left]
  have hnext : (before ++ (name ++ 41 :: rest))[before.length + name.length + 1]? = rest.head? := by
    rw [← head?_drop, hrest]
    rfl
  have hend : before.length + name.length = (before ++ (name ++ 41 :: rest)).length - 1 ↔
      rest = [] := by
    rw [← length_eq_zero_iff]
    simp only [length_append, length_cons]
    omega
  rw [parseCommand, find_append h]
  simp only [hname, hnext, hend, hrest]
  cases alternative with
  | none =>
    rw [optional, append_nil] at hsplit
    subst hsplit
    have hfind : find 63 name 0 = none := findFrom_of_notMem hmain
    simp only [hfind]
    exact toOption_maxLength rest (fun length => .ok (.new name [] length)) fun _ => rfl
  | some text =>
    have hfind : find 63 name 0 = some main.length := by
      have hmem : (63 : UInt8) ∈ name.drop 0 := by simp [hsplit, optional]
      rw [find, ← findFrom, findFrom_of_mem hmem, drop_zero, hsplit, optional,
        takeWhile_append_cons hmain, Nat.zero_add]
    simp only [hfind]
    refine toOption_maxLength rest (fun length => .ok (.new (name.take main.length)
      (substr name (main.length + 1) (before.length + name.length - main.length - 1)) length))
      fun length => ?_
    rw [hsplit, optional, take_left, substr, ← drop_drop, drop_left]
    simp only [drop_one, tail_cons, length_append, length_cons]
    rw [take_of_length_le (by omega)]
    rfl

theorem parseToken_keyword (response : Bool) (body : Bytes) :
    parseToken errno (keyword response ++ body) =
      (parseCommand errno (keyword response ++ body) (keyword response).length).map
        (if response then .responseHeader else .requestHeader) := by
  cases response <;> rfl

theorem accepted_iff (length : Bytes) :
    (∃ value, decimalValue (cStr length) = some value ∧ TakesValue errno value) ↔
      (atoul errno length 10).isSome = true := by
  rw [atoul_ten]
  cases decimalValue (cStr length) with
  | none | some => simp

theorem maxLength_optional (length : Option Bytes)
    (h : ∀ text ∈ length, (atoul errno text 10).isSome = true) :
    maxLength errno (optional 58 length) = some (length.bind (atoul errno · 10)) := by
  cases length with
  | none => rfl
  | some text =>
    obtain ⟨n, hn⟩ := isSome_iff_exists.mp (h text rfl)
    simp [optional, maxLength, hn]

theorem optional_of_maxLength {n : Option Nat} (h : maxLength errno rest = some n) :
    ∃ length, rest = optional 58 length ∧ ∀ text ∈ length, (atoul errno text 10).isSome = true := by
  unfold maxLength at h
  split at h
  · exact ⟨none, rfl, nofun⟩
  · rename_i text
    obtain ⟨value, hvalue, -⟩ := map_eq_some_iff.mp h
    refine ⟨some text, rfl, ?_⟩
    rintro _ ⟨⟩
    rw [hvalue]
    rfl
  · cases h

theorem toOption_eq_some_iff {ε α : Type} {x : Except ε α} {a : α} :
    x.toOption = some a ↔ x = .ok a := by
  cases x <;> simp [Except.toOption]

theorem Operator.parse {operator : Operator} (h : operator.Delimited)
    (haccepted : operator.Accepted errno) :
    parseToken errno operator.token = .ok (operator.formatter errno) := by
  cases operator with
  | requestInfo field =>
    have hfield : parseToken errno field.name = (Field.parse field.name).map .requestInfo := by
      cases field <;> rfl
    rw [Operator.token, hfield, Field.parse_eq_ok_iff.mpr rfl]
    rfl
  | header response main alternative length =>
    have hcommand := parseCommand_eq errno (keyword response) (optional 58 length) h.1 rfl h.2
    have hlength := maxLength_optional length fun text htext =>
      (accepted_iff text).mp (haccepted text htext)
    rw [hlength, map_some, toOption_eq_some_iff] at hcommand
    rw [Operator.token, parseToken_keyword, hcommand]
    cases response <;> rfl

theorem exists_names (names : Bytes) :
    ∃ main alternative, names = main ++ optional 63 alternative ∧ 63 ∉ main := by
  by_cases hmem : 63 ∈ names
  · obtain ⟨main, text, rfl, hmain⟩ := eq_append_cons_of_mem hmem
    exact ⟨main, some text, rfl, hmain⟩
  · exact ⟨names, none, (append_nil names).symm, hmem⟩

theorem operator_of_parseToken {f : Formatter} (h : parseToken errno token = .ok f) :
    ∃ operator : Operator, operator.token = token ∧ operator.Delimited ∧
      operator.Accepted errno := by
  have hkeyword (response : Bool) {body : Bytes} (h : parseToken errno (keyword response ++ body) =
      .ok f) : ∃ operator : Operator, operator.token = keyword response ++ body ∧
        operator.Delimited ∧ operator.Accepted errno := by
    rw [parseToken_keyword] at h
    by_cases hmem : 41 ∈ body
    · obtain ⟨names, rest, rfl, hnames⟩ := eq_append_cons_of_mem hmem
      obtain ⟨main, alternative, rfl, hmain⟩ := exists_names names
      have hcommand := parseCommand_eq errno (keyword response) rest hmain rfl hnames
      cases hlength : maxLength errno rest with
      | none =>
        rw [hlength, map_none] at hcommand
        cases hparse : parseCommand errno (keyword response ++
          ((main ++ optional 63 alternative) ++ 41 :: rest)) (keyword response).length with
        | error message => rw [hparse] at h; cases h
        | ok header => rw [hparse] at hcommand; cases hcommand
      | some n =>
        obtain ⟨length, rfl, hsome⟩ := optional_of_maxLength hlength
        exact ⟨.header response main alternative length, rfl, ⟨hmain, hnames⟩,
          fun text htext => (accepted_iff text).mpr (hsome text htext)⟩
    · have hfind : find 41 (keyword response ++ body) (keyword response).length = none := by
        refine findFrom_of_notMem ?_
        rw [drop_left]
        exact hmem
      rw [parseCommand, hfind] at h
      cases h
  by_cases hreq : (ascii "REQ(").isPrefixOf token = true
  · obtain ⟨body, rfl⟩ := isPrefixOf_iff_prefix.mp hreq
    exact hkeyword false h
  by_cases hresp : (ascii "RESP(").isPrefixOf token = true
  · obtain ⟨body, rfl⟩ := isPrefixOf_iff_prefix.mp hresp
    exact hkeyword true h
  rw [parseToken, if_neg hreq, if_neg hresp] at h
  cases hfield : Field.parse token with
  | error message => rw [hfield] at h; cases h
  | ok field => exact ⟨.requestInfo field, (Field.parse_eq_ok_iff.mp hfield).symm, trivial, nofun⟩

/-! ## The whole format -/

def formatters (errno : Bool) (segments : List (Bytes × Operator)) (last : Bytes) :
    List Formatter :=
  (segments.flatMap fun segment => plain segment.1 ++ [segment.2.formatter errno]) ++ plain last

variable {segments segments' : List (Bytes × Operator)} {last last' currentToken : Bytes}
  {s : Bytes} {steps pos : Nat} {fs : List Formatter}

theorem getElem?_of_drop (h : s.drop pos = c :: rest) :
    s[pos]? = some c ∧ s.drop (pos + 1) = rest := by
  rw [← head?_drop, ← drop_drop, h]
  exact ⟨rfl, rfl⟩

theorem parseFrom_operator (h : s.drop pos = 37 :: (token ++ 37 :: rest)) (hnot : 37 ∉ token) :
    parseFrom errno s (steps + 1) pos currentToken = (do
      let formatter ← parseToken errno token
      let formatters ← parseFrom errno s steps (pos + 1 + token.length + 1) []
      .ok (plain currentToken ++ formatter :: formatters)) := by
  obtain ⟨hpercent, hrest⟩ := getElem?_of_drop h
  have hfind : find 37 s (pos + 1) = some (pos + 1 + token.length) := by
    have hmem : (37 : UInt8) ∈ s.drop (pos + 1) := by simp [hrest]
    rw [find, ← findFrom, findFrom_of_mem hmem, hrest, takeWhile_append_cons hnot]
  rw [parseFrom, hpercent]
  simp [hfind, substr, hrest]

theorem parseFrom_plain (h : s[pos]? = some c) (hc : c ≠ 37) :
    parseFrom errno s (steps + 1) pos currentToken =
      parseFrom errno s steps (pos + 1) (currentToken ++ [c]) := by
  rw [parseFrom, h]
  split <;> simp_all

/-- What the loop has read of a literal is put before the rest of the s. -/
theorem parseFrom_ok (hsteps : s.length ≤ pos + steps) (hcurrent : 37 ∉ currentToken)
    (h : parseFrom errno s steps pos currentToken = .ok fs) :
    ∃ segments last, Written (currentToken ++ s.drop pos) segments last ∧
      ∀ segment ∈ segments, segment.2.Accepted errno := by
  induction steps generalizing pos currentToken fs with
  | zero =>
    refine ⟨[], currentToken, ⟨?_, nofun, hcurrent⟩, nofun⟩
    rw [drop_eq_nil_of_le (by omega), append_nil]
    rfl
  | succ steps ih =>
    cases hdrop : s.drop pos with
    | nil => exact ⟨[], currentToken, ⟨append_nil _, nofun, hcurrent⟩, nofun⟩
    | cons c rest =>
      obtain ⟨hget, hrest⟩ := getElem?_of_drop hdrop
      by_cases hc : c = 37
      · subst hc
        by_cases hmem : 37 ∈ rest
        · obtain ⟨token, rest, rfl, htoken⟩ := eq_append_cons_of_mem hmem
          rw [parseFrom_operator hdrop htoken] at h
          obtain ⟨formatter, hformatter, h⟩ := ok_of_bind h
          obtain ⟨fs', h, -⟩ := ok_of_bind h
          obtain ⟨operator, rfl, hdelimited, haccepted⟩ := operator_of_parseToken hformatter
          obtain ⟨segments, last, hwritten, hrest'⟩ := ih (by omega) not_mem_nil h
          have hafter : s.drop (pos + 1 + operator.token.length + 1) = rest := by
            rw [← drop_drop, ← drop_drop, hrest, drop_left]
            rfl
          rw [hafter, nil_append] at hwritten
          refine ⟨(currentToken, operator) :: segments, last, ⟨?_, ?_, hwritten.last⟩, ?_⟩
          · rw [text, ← hwritten.eq]
          · exact forall_mem_cons.mpr ⟨⟨hcurrent, htoken, hdelimited⟩, hwritten.delimited⟩
          · exact forall_mem_cons.mpr ⟨haccepted, hrest'⟩
        · have hfind : find 37 s (pos + 1) = none := findFrom_of_notMem (hrest ▸ hmem)
          rw [parseFrom, hget] at h
          simp only [hfind] at h
          cases h
      · have hnot : 37 ∉ currentToken ++ [c] := by
          simp [hcurrent, Ne.symm hc]
        rw [parseFrom_plain hget hc] at h
        obtain ⟨segments, last, hwritten, haccepted⟩ := ih (by omega) hnot h
        rw [hrest, append_assoc] at hwritten
        exact ⟨segments, last, hwritten, haccepted⟩

theorem parseFrom_literal {literal : Bytes} (h : s.drop pos = literal ++ rest)
    (hnot : 37 ∉ literal) : parseFrom errno s (steps + literal.length) pos currentToken =
      parseFrom errno s steps (pos + literal.length) (currentToken ++ literal) := by
  induction literal generalizing pos currentToken with
  | nil => rw [append_nil]; rfl
  | cons c literal ih =>
    obtain ⟨hget, hrest⟩ := getElem?_of_drop h
    obtain ⟨hc, hliteral⟩ := not_or.mp (mt mem_cons.mpr hnot)
    rw [length_cons, ← Nat.add_assoc, parseFrom_plain hget (Ne.symm hc), ih hrest hliteral,
      append_assoc, singleton_append, Nat.add_right_comm, Nat.add_assoc pos]

theorem parseFrom_end (h : s.length ≤ pos) :
    parseFrom errno s steps pos currentToken = .ok (plain currentToken) := by
  cases steps with
  | zero => rfl
  | succ steps => rw [parseFrom, getElem?_eq_none h]

theorem parseFrom_text (hdrop : s.drop pos = text segments last)
    (h : ∀ segment ∈ segments, 37 ∉ segment.1 ∧ 37 ∉ segment.2.token ∧ segment.2.Delimited)
    (hlast : 37 ∉ last) (haccepted : ∀ segment ∈ segments, segment.2.Accepted errno)
    (hsteps : s.length ≤ pos + steps) :
    parseFrom errno s steps pos [] = .ok (formatters errno segments last) := by
  have hlength := congrArg List.length hdrop
  rw [length_drop] at hlength
  induction segments generalizing pos steps with
  | nil =>
    rw [text] at hdrop hlength
    obtain ⟨k, rfl⟩ : ∃ k, steps = k + last.length := ⟨steps - last.length, by omega⟩
    rw [parseFrom_literal (hdrop.trans (append_nil _).symm) hlast, parseFrom_end (by omega)]
    rfl
  | cons segment segments ih =>
    obtain ⟨literal, operator⟩ := segment
    obtain ⟨⟨hliteral, htoken, hdelimited⟩, hother⟩ := forall_mem_cons.mp h
    obtain ⟨hoperator, haccepted⟩ := forall_mem_cons.mp haccepted
    rw [text] at hdrop hlength
    simp only [length_append, length_cons] at hlength
    obtain ⟨k, rfl⟩ : ∃ k, steps = k + 1 + literal.length := ⟨steps - literal.length - 1, by omega⟩
    have hnext : s.drop (pos + literal.length) =
        37 :: (operator.token ++ 37 :: text segments last) := by
      rw [← drop_drop, hdrop, drop_left]
    have hafter : s.drop (pos + literal.length + 1 + operator.token.length + 1) =
        text segments last := by
      rw [← drop_drop, ← drop_drop, (getElem?_of_drop hnext).2, drop_left]
      rfl
    have hremaining := congrArg List.length hafter
    rw [length_drop] at hremaining
    have hrest : parseFrom errno s k (pos + literal.length + 1 + operator.token.length + 1) [] =
        .ok (formatters errno segments last) :=
      ih hafter hother haccepted (by omega) hremaining
    rw [parseFrom_literal hdrop hliteral, parseFrom_operator hnext htoken,
      Operator.parse hdelimited hoperator, nil_append]
    rw [hrest, formatters, formatters, flatMap_cons, append_assoc, append_assoc]
    rfl

theorem Written.unique (h : Written s segments last) (h' : Written s segments' last') :
    segments = segments' ∧ last = last' := by
  obtain ⟨rfl, hdelimited, hlast⟩ := h
  obtain ⟨heq, hdelimited', hlast'⟩ := h'
  induction segments generalizing segments' with
  | nil =>
    cases segments' with
    | nil => exact ⟨rfl, heq⟩
    | cons segment' segments' =>
      rw [text, text] at heq
      exact absurd (heq ▸ by simp) hlast
  | cons segment segments ih =>
    obtain ⟨⟨hliteral, htoken, hoperator⟩, hother⟩ := forall_mem_cons.mp hdelimited
    cases segments' with
    | nil =>
      rw [text, text] at heq
      exact absurd (heq ▸ by simp) hlast'
    | cons segment' segments' =>
      obtain ⟨⟨hliteral', htoken', hoperator'⟩, hother'⟩ := forall_mem_cons.mp hdelimited'
      obtain ⟨hsame, heq⟩ := append_cons_inj hliteral hliteral' heq
      obtain ⟨htokens, heq⟩ := append_cons_inj htoken htoken' heq
      obtain ⟨rfl, rfl⟩ := ih hother heq hother'
      exact ⟨congrArg (· :: _) (Prod.ext hsame (Operator.token_inj hoperator hoperator' htokens)),
        rfl⟩

/-! ## Lines -/

variable {request response headers : HeaderMap} {operator : Operator}

theorem header_value (main : Bytes) (alternative : Option Bytes) (n : Option Nat) :
    (((HeaderFormatter.new main (alternative.getD []) n).header headers).map
      fun header => header.value.cStr).getD (ascii "-") =
        cStr (valueOf headers main alternative) := by
  unfold HeaderFormatter.header valueOf
  cases hmain : headers.get (lowerCase main) with
  | some header => simp only [HeaderFormatter.new, hmain]; rfl
  | none =>
    match alternative with
    | none | some [] => simp only [HeaderFormatter.new, hmain]; rfl
    | some (c :: name) =>
      have hne : (lowerCase (c :: name)).get ≠ [] := cons_ne_nil _ _
      simp only [HeaderFormatter.new, hmain, getD_some]
      cases headers.get (lowerCase (c :: name)) <;> rfl

theorem cut_cStr (length : Option Bytes) (value : Bytes) :
    cut length (cStr value) = cStr (cut length value) := by
  cases length with
  | none => rfl
  | some length => exact take_takeWhile

theorem ite_take (n : Nat) (value : Bytes) :
    (if n < value.length then value.take n else value) = value.take n := by
  split
  · rfl
  · rw [take_of_length_le (by omega)]

theorem format_header {main : Bytes} {alternative length : Option Bytes} {n : Option Nat}
    (h : n = length.map (readDecimal · 0)) :
    (HeaderFormatter.new main (alternative.getD []) n).format headers =
      cStr (cut length (valueOf headers main alternative)) := by
  rw [← cut_cStr, ← header_value main alternative n, HeaderFormatter.format]
  subst h
  cases (HeaderFormatter.new main (alternative.getD []) _).header headers <;> cases length <;>
    simp only [HeaderFormatter.new, map_some, map_none, getD_some,
      getD_none, cut] <;> exact ite_take ..

theorem cStr_eq_self_iff {s : Bytes} : cStr s = s ↔ 0 ∉ s := by
  refine ⟨fun h hmem => ?_, cStr_eq_self⟩
  have hall := takeWhile_eq_self_iff.mp h 0 hmem
  cases hall

theorem format_operator (haccepted : operator.Accepted errno)
    (hdecimal : ∀ length ∈ operator.length, IsDecimal length) (info : RequestInfo) :
    (operator.formatter errno).format request response info <+:
        operator.meaning request response info ∧
      ((operator.formatter errno).format request response info =
        operator.meaning request response info ↔ operator.Plain request response) := by
  cases operator with
  | requestInfo field => exact ⟨prefix_rfl, iff_of_true rfl trivial⟩
  | header ofResponse main alternative length =>
    have hn : length.bind (atoul errno · 10) = length.map (readDecimal · 0) := by
      cases length with
      | none => rfl
      | some text =>
        obtain ⟨n, hn⟩ := isSome_iff_exists.mp ((accepted_iff text).mp (haccepted text rfl))
        obtain ⟨hne, hall⟩ := hdecimal text rfl
        rw [bind_some, hn, eq_readDecimal_of_atoul hall hne hn, map_some]
    have hformat : ((Operator.header ofResponse main alternative length).formatter errno).format
        request response info = cStr ((Operator.header ofResponse main alternative length).meaning
          request response info) := by
      cases ofResponse <;> exact format_header hn
    rw [hformat]
    exact ⟨List.takeWhile_prefix _, cStr_eq_self_iff.trans (and_iff_right hdecimal).symm⟩

theorem flatMap_eq_iff {α : Type} {f g : α → Bytes} {l : List α} (h : ∀ a ∈ l, f a <+: g a) :
    (l.flatMap f).length ≤ (l.flatMap g).length ∧
      (l.flatMap f = l.flatMap g ↔ ∀ a ∈ l, f a = g a) := by
  induction l with
  | nil => exact ⟨Nat.le_refl _, iff_of_true rfl nofun⟩
  | cons a l ih =>
    obtain ⟨⟨t, ht⟩, hrest⟩ := forall_mem_cons.mp h
    obtain ⟨hlength, hiff⟩ := ih hrest
    simp only [flatMap_cons, ← ht, append_assoc, length_append,
      append_cancel_left_eq, forall_mem_cons, self_eq_append_right]
    refine ⟨by omega, fun heq => ?_, fun hall => ?_⟩
    · have hsame := congrArg List.length heq
      rw [length_append] at hsame
      obtain rfl : t = [] := length_eq_zero_iff.mp (by omega)
      exact ⟨rfl, hiff.mp heq⟩
    · rw [hall.1, nil_append]
      exact hiff.mpr hall.2

theorem format_formatters (info : RequestInfo) :
    format (formatters errno segments last) request response info =
      (segments.flatMap fun segment => segment.1 ++
        (segment.2.formatter errno).format request response info) ++ last := by
  have hplain (literal : Bytes) : ((plain literal).flatMap fun f =>
      f.format request response info) = literal := by
    rw [plain]
    split
    · rename_i hempty
      rw [hempty]
      rfl
    · exact append_nil literal
  simp only [format, formatters, flatMap_append, flatMap_assoc, hplain,
    flatMap_cons, flatMap_nil, append_nil]

/-- What is accepted means what the grammar says, unless a length is no number or a value has a NUL
byte. -/
theorem format_iff (errno : Bool) (s : Bytes) (request response : HeaderMap) (info : RequestInfo) :
    (∀ fs, parse errno s = .ok fs → ∃ segments last, Written s segments last ∧
      (∀ segment ∈ segments, ∀ length ∈ segment.2.length, IsDecimal length) ∧
      format fs request response info = meaning segments last request response info) ↔
    ¬ Slips errno s request response := by
  have hline {segments last} (haccepted : ∀ segment ∈ segments, segment.2.Accepted errno)
      (hdecimal : ∀ segment ∈ segments, ∀ length ∈ segment.2.length, IsDecimal length) :
      format (formatters errno segments last) request response info =
        meaning segments last request response info ↔
      ∀ segment ∈ segments, segment.2.Plain request response := by
    rw [format_formatters, meaning, append_cancel_right_eq, (flatMap_eq_iff fun segment h =>
      (prefix_append_right_inj _).mpr
        (format_operator (haccepted segment h) (hdecimal segment h) info).1).2]
    refine forall₂_congr fun segment h => ?_
    rw [append_cancel_left_eq]
    exact (format_operator (haccepted segment h) (hdecimal segment h) info).2
  constructor
  · rintro h ⟨segments, last, hwritten, haccepted, segment, hsegment, hslips⟩
    have hparse : parseFrom errno s s.length 0 [] = .ok (formatters errno segments last) :=
      parseFrom_text hwritten.eq hwritten.delimited hwritten.last haccepted
        (Nat.le_of_eq (Nat.zero_add _).symm)
    obtain ⟨segments', last', hwritten', hdecimal, hformat⟩ := h _ hparse
    obtain ⟨rfl, rfl⟩ := hwritten.unique hwritten'
    exact hslips ((hline haccepted hdecimal).mp hformat segment hsegment)
  · intro hslips fs hparse
    obtain ⟨segments, last, hwritten, haccepted⟩ :=
      parseFrom_ok (Nat.le_of_eq (Nat.zero_add _).symm) not_mem_nil hparse
    have hplain : ∀ segment ∈ segments, segment.2.Plain request response := by
      intro segment hsegment
      by_contra hnot
      exact hslips ⟨segments, last, hwritten, haccepted, segment, hsegment, hnot⟩
    have hdecimal : ∀ segment ∈ segments, ∀ length ∈ segment.2.length, IsDecimal length := by
      rintro ⟨literal, operator⟩ hsegment
      cases operator with
      | requestInfo => exact nofun
      | header => exact (hplain _ hsegment).1
    have hparse' : parseFrom errno s s.length 0 [] = .ok (formatters errno segments last) :=
      parseFrom_text hwritten.eq hwritten.delimited hwritten.last haccepted
        (Nat.le_of_eq (Nat.zero_add _).symm)
    cases hparse.symm.trans hparse'
    exact ⟨segments, last, hwritten, hdecimal, (hline haccepted hdecimal).mpr hplain⟩

def signedLength : Operator := .header false (ascii "A") none (some (ascii "-1"))

def sampleInfo : RequestInfo where
  startTime := 0
  requestReceivedDuration := 0
  responseReceivedDuration := 0
  bytesReceived := 0
  protocol := .http11
  responseCode := none
  bytesSent := 0
  duration := 0
  getResponseFlag := fun _ => false
  upstreamHost := none

/-- A length with a sign is taken. -/
theorem format_signedLength : ¬ ∀ (errno : Bool) (s : Bytes) (request response : HeaderMap)
    (info : RequestInfo), ∀ fs, parse errno s = .ok fs → ∃ segments last, Written s segments last ∧
      (∀ segment ∈ segments, ∀ length ∈ segment.2.length, IsDecimal length) ∧
      format fs request response info = meaning segments last request response info := by
  intro h
  have hparse : parse false (ascii "%REQ(A):-1%") = .ok [signedLength.formatter false] := by rfl
  have hwritten : Written (ascii "%REQ(A):-1%") [([], signedLength)] [] :=
    ⟨by decide, forall_mem_singleton.mpr ⟨by decide, by decide, by decide, by decide⟩,
      by decide⟩
  obtain ⟨segments, last, hwritten', hdecimal, -⟩ := h false _ .new .new sampleInfo _ hparse
  obtain ⟨rfl, -⟩ := hwritten.unique hwritten'
  obtain ⟨-, hall⟩ := forall_mem_singleton.mp hdecimal (ascii "-1") rfl
  revert hall
  decide

end Meliproxy.Envoy.Http.AccessLog
