import Meliproxy.Envoy.Common.DecimalText

/-!
# TCP URLs

`hostFromTcpUrl` and `portFromTcpUrl` of `network/utility.cc`. The port is read by `std::stoi`,
which takes the number at the front of a text and does not look at what follows it.
-/

namespace Meliproxy.Envoy.Network

open Lib List StringUtil

inductive StoiException where
  | invalidArgument
  | outOfRange

def numeral (text : Bytes) : Bytes := (signOf ((cStr text).dropWhile isSpace)).2

/-- `std::stoi` in base 10, for an `int` of 32 bits. -/
def stoi (text : Bytes) : Except StoiException Int :=
  let digits := (numeral text).takeWhile isDecimal
  let number : Int := readDecimal digits 0
  let value := if (signOf ((cStr text).dropWhile isSpace)).1 then -number else number
  if digits = [] then .error .invalidArgument
  else if value < -2 ^ 31 ∨ 2 ^ 31 ≤ value then .error .outOfRange
  else .ok value

/-- What can leave the two functions. -/
inductive Exception where
  | envoy (message : Bytes)
  | stdOutOfRange
  deriving DecidableEq

def TCP_SCHEME : Bytes := ascii "tcp://"

variable (url : Bytes)

def urlIsTcpScheme : Bool := TCP_SCHEME.isPrefixOf url

def hostFromTcpUrl : Except Exception Bytes :=
  if urlIsTcpScheme url = false then
    .error (.envoy (ascii "expected TCP scheme, got: " ++ url))
  else
    match findFrom 58 url TCP_SCHEME.length with
    | none => .error (.envoy (ascii "malformed url: " ++ url))
    | some colonIndex => .ok (subspan url TCP_SCHEME.length colonIndex)

/-- The result is an `uint32_t`, and a negative number wraps around. -/
def portFromTcpUrl : Except Exception Nat :=
  if urlIsTcpScheme url = false then
    .error (.envoy (ascii "expected TCP scheme, got: " ++ url))
  else
    match findFrom 58 url TCP_SCHEME.length with
    | none => .error (.envoy (ascii "malformed url: " ++ url))
    | some colonIndex =>
      match stoi (url.drop (colonIndex + 1)) with
      | .ok port => .ok (port % 2 ^ 32).toNat
      | .error .invalidArgument => .error (.envoy (ascii "stoi"))
      | .error .outOfRange => .error .stdOutOfRange

/-! ## What the URL should be -/

def ReadsParts : Prop :=
  ∃ host port zeros, hostFromTcpUrl url = .ok host ∧ portFromTcpUrl url = .ok port ∧
    port ≤ 65535 ∧ url = TCP_SCHEME ++ host ++ 58 :: (List.replicate zeros 48 ++ decimal port)

def ThrowsEnvoy {α : Type} (result : Except Exception α) : Prop :=
  ∃ message, result = .error (.envoy message)

def Malformed : Prop :=
  urlIsTcpScheme url = false ∨ 58 ∉ url.drop TCP_SCHEME.length

def portText : Bytes :=
  ((url.drop TCP_SCHEME.length).dropWhile (· ≠ 58)).drop 1

def IsPort (text : Bytes) : Prop :=
  text ≠ [] ∧ text.all isDecimal = true ∧ readDecimal text 0 ≤ 65535

def NoDigit (text : Bytes) : Prop := (numeral text).takeWhile isDecimal = []

theorem stoi_of_isPort {text : Bytes} (h : IsPort text) : stoi text = .ok (readDecimal text 0) := by
  obtain ⟨hne, hall, hle⟩ := h
  have hsign := numeral_of_digits hall hne
  have htake := (takeWhile_of_all hall).1
  rw [stoi, numeral, hsign]
  simp only [htake, if_neg hne, Bool.false_eq_true, if_false]
  rw [if_neg (by omega)]

theorem stoi_eq_invalidArgument_iff (text : Bytes) :
    stoi text = .error .invalidArgument ↔ NoDigit text := by
  rw [stoi, NoDigit]
  by_cases h : (numeral text).takeWhile isDecimal = []
  · exact iff_of_true (if_pos h) h
  · simp only [if_neg h]
    refine iff_of_false ?_ h
    split <;> split <;> exact fun heq => by cases heq

variable {url : Bytes}

theorem malformed_throws (h : Malformed url) :
    ThrowsEnvoy (hostFromTcpUrl url) ∧ ThrowsEnvoy (portFromTcpUrl url) := by
  by_cases hscheme : urlIsTcpScheme url = false
  · exact ⟨⟨_, if_pos hscheme⟩, ⟨_, if_pos hscheme⟩⟩
  · have hcolon := findFrom_of_notMem (h.resolve_left hscheme)
    refine ⟨⟨ascii "malformed url: " ++ url, ?_⟩, ⟨ascii "malformed url: " ++ url, ?_⟩⟩
    · rw [hostFromTcpUrl, if_neg hscheme, hcolon]
    · rw [portFromTcpUrl, if_neg hscheme, hcolon]

theorem not_malformed_parts (h : ¬ Malformed url) :
    ∃ host, url = TCP_SCHEME ++ host ++ 58 :: portText url ∧ hostFromTcpUrl url = .ok host ∧
      portFromTcpUrl url =
        match stoi (portText url) with
        | .ok port => .ok (port % 2 ^ 32).toNat
        | .error .invalidArgument => .error (.envoy (ascii "stoi"))
        | .error .outOfRange => .error .stdOutOfRange := by
  obtain ⟨hscheme, hcolon⟩ := not_or.mp h
  rw [not_not] at hcolon
  obtain ⟨rest, rfl⟩ : ∃ rest, TCP_SCHEME ++ rest = url := by
    rw [Bool.not_eq_false, urlIsTcpScheme, isPrefixOf_iff_prefix] at hscheme
    exact hscheme
  rw [drop_left] at hcolon
  obtain ⟨host, text, rfl, hhost⟩ := eq_append_cons_of_mem hcolon
  have hfind : findFrom 58 (TCP_SCHEME ++ (host ++ 58 :: text)) TCP_SCHEME.length =
      some (TCP_SCHEME.length + host.length) := by
    rw [findFrom_of_mem (by rw [drop_left]; exact hcolon), drop_left,
      takeWhile_append_cons hhost]
  have htext : portText (TCP_SCHEME ++ (host ++ 58 :: text)) = text := by
    rw [portText, drop_left, dropWhile_append_cons hhost, drop_one, tail_cons]
  have hdrop : (TCP_SCHEME ++ (host ++ 58 :: text)).drop (TCP_SCHEME.length + host.length + 1) =
      text := by
    rw [← drop_drop, ← drop_drop, drop_left, drop_left, drop_one, tail_cons]
  refine ⟨host, ?_, ?_, ?_⟩
  · rw [htext, append_assoc]
  · rw [hostFromTcpUrl, if_neg hscheme, hfind]
    simp [subspan_of_le (Nat.le_add_right _ _)]
  · rw [portFromTcpUrl, if_neg hscheme, hfind, htext]
    simp only [hdrop]

theorem isPort_iff (text : Bytes) :
    IsPort text ↔ ∃ port zeros, port ≤ 65535 ∧ text = List.replicate zeros 48 ++ decimal port := by
  constructor
  · rintro ⟨hne, hall, hle⟩
    obtain ⟨zeros, htext⟩ := eq_zeros_append_decimal hne hall
    exact ⟨_, zeros, hle, htext⟩
  · rintro ⟨port, zeros, hle, rfl⟩
    refine ⟨?_, ?_, ?_⟩
    · intro hnil
      exact decimal_ne_nil port (append_eq_nil_iff.mp hnil).2
    · rw [all_append, all_isDecimal_decimal, Bool.and_true, all_replicate]
      split
      · rfl
      · decide
    · rw [readDecimal_append, readDecimal_zeros, readDecimal_decimal]
      exact hle

theorem readsParts_iff (url : Bytes) :
    ReadsParts url ↔ ¬ Malformed url ∧ IsPort (portText url) := by
  constructor
  · rintro ⟨host, port, zeros, hhost, hport, hle, hurl⟩
    have hwell : ¬ Malformed url := by
      intro hmal
      obtain ⟨message, hthrow⟩ := (malformed_throws hmal).1
      rw [hhost] at hthrow
      cases hthrow
    obtain ⟨host', hsplit, hhost', -⟩ := not_malformed_parts hwell
    rw [hhost] at hhost'
    cases hhost'
    have htext : portText url = List.replicate zeros 48 ++ decimal port := by
      have happend := hsplit.symm.trans hurl
      exact (List.cons.inj (append_cancel_left happend)).2
    exact ⟨hwell, (isPort_iff _).mpr ⟨port, zeros, hle, htext⟩⟩
  · rintro ⟨hwell, hisPort⟩
    obtain ⟨host, hsplit, hhost, hport⟩ := not_malformed_parts hwell
    obtain ⟨zeros, htext⟩ := eq_zeros_append_decimal hisPort.1 hisPort.2.1
    have hle := hisPort.2.2
    rw [stoi_of_isPort hisPort] at hport
    refine ⟨host, readDecimal (portText url) 0, zeros, hhost, ?_, hle, htext ▸ hsplit⟩
    rw [hport]
    apply congrArg Except.ok
    omega

theorem portFromTcpUrl_throws_iff (h : ¬ Malformed url) :
    ThrowsEnvoy (portFromTcpUrl url) ↔ NoDigit (portText url) := by
  obtain ⟨host, -, -, hport⟩ := not_malformed_parts h
  rw [hport, ← stoi_eq_invalidArgument_iff]
  cases hstoi : stoi (portText url) with
  | ok port => simp [ThrowsEnvoy]
  | error e => cases e <;> simp [ThrowsEnvoy]

theorem hostFromTcpUrl_not_throws (h : ¬ Malformed url) :
    ¬ ThrowsEnvoy (hostFromTcpUrl url) := by
  obtain ⟨host, -, hhost, -⟩ := not_malformed_parts h
  rw [hhost]
  rintro ⟨message, heq⟩
  cases heq

/-- Exactly the malformed URLs and those with a port behind the first colon are read as they
should be. Where it is enough that one function refuses, the ones without any digit are as well. -/
theorem tcpUrl_iff (url : Bytes) :
    (ReadsParts url ∨ ThrowsEnvoy (hostFromTcpUrl url) ∧ ThrowsEnvoy (portFromTcpUrl url) ↔
      Malformed url ∨ IsPort (portText url)) ∧ (ReadsParts url ∨
        (ThrowsEnvoy (hostFromTcpUrl url) ∨ ThrowsEnvoy (portFromTcpUrl url)) ∧
          hostFromTcpUrl url ≠ .error .stdOutOfRange ∧ portFromTcpUrl url ≠ .error .stdOutOfRange ↔
      Malformed url ∨ IsPort (portText url) ∨ NoDigit (portText url)) := by
  by_cases hmal : Malformed url
  · obtain ⟨⟨message, hhost⟩, message', hport⟩ := malformed_throws hmal
    constructor
    · exact iff_of_true (.inr ⟨⟨message, hhost⟩, message', hport⟩) (.inl hmal)
    · refine iff_of_true (.inr ⟨.inl ⟨message, hhost⟩, ?_, ?_⟩) (.inl hmal)
      · rw [hhost]
        simp
      · rw [hport]
        simp
  · have hhost := hostFromTcpUrl_not_throws hmal
    have hport := portFromTcpUrl_throws_iff hmal
    have hparts := readsParts_iff url
    have hok : hostFromTcpUrl url ≠ .error .stdOutOfRange := by
      obtain ⟨host, -, heq, -⟩ := not_malformed_parts hmal
      rw [heq]
      simp
    have hrange : ThrowsEnvoy (portFromTcpUrl url) →
        portFromTcpUrl url ≠ .error .stdOutOfRange := by
      rintro ⟨message, heq⟩
      rw [heq]
      simp
    tauto

/-- The exception of a number beyond `int` is not caught. -/
theorem tcpUrl_out_of_range : hostFromTcpUrl (ascii "tcp://a:99999999999") = .ok (ascii "a") ∧
      portFromTcpUrl (ascii "tcp://a:99999999999") = .error .stdOutOfRange ∧
      ¬ (ReadsParts (ascii "tcp://a:99999999999") ∨
        (ThrowsEnvoy (hostFromTcpUrl (ascii "tcp://a:99999999999")) ∨
            ThrowsEnvoy (portFromTcpUrl (ascii "tcp://a:99999999999"))) ∧
          hostFromTcpUrl (ascii "tcp://a:99999999999") ≠ .error .stdOutOfRange ∧
          portFromTcpUrl (ascii "tcp://a:99999999999") ≠ .error .stdOutOfRange) := by
  have hport : portFromTcpUrl (ascii "tcp://a:99999999999") = .error .stdOutOfRange := by
    decide +kernel
  refine ⟨by decide +kernel, hport, ?_⟩
  rintro (⟨host, port, zeros, -, hok, -⟩ | ⟨-, -, hne⟩)
  · rw [hport] at hok
    cases hok
  · exact hne hport

end Meliproxy.Envoy.Network
