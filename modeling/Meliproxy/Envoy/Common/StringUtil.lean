import Meliproxy.Lib.Text
import Mathlib.Data.List.DropRight

/-!
# String utilities

The functions of `common/utility.cc` that the HTTP code uses. A C string ends before its
first NUL byte.
-/

namespace Meliproxy.Envoy

open Lib List Option

def cStr (s : Bytes) : Bytes := s.takeWhile (· ≠ 0)

theorem cStr_eq_self {s : Bytes} (h : 0 ∉ s) : cStr s = s := by
  apply takeWhile_eq_self_iff.mpr
  intro c hc
  have hne : c ≠ 0 := fun h0 => h (h0 ▸ hc)
  simpa using hne

theorem cStr_append_zero {s : Bytes} (h : 0 ∉ s) (rest : Bytes) : cStr (s ++ 0 :: rest) = s := by
  have hs : ∀ c ∈ s, (decide (c ≠ 0)) = true := by
    intro c hc
    have hne : c ≠ 0 := fun h0 => h (h0 ▸ hc)
    simpa using hne
  rw [cStr, takeWhile_append_of_pos hs]
  simp

namespace StringUtil

def toLower (c : UInt8) : UInt8 := if 65 ≤ c ∧ c ≤ 90 then c + 32 else c

def caseInsensitiveEqual (lhs rhs : Bytes) : Bool := lhs.map toLower = rhs.map toLower

/-- The loop of `split`: the piece read so far, and how much of a separator is still to be
passed over. -/
def splitLoop (separator : Bytes) (skip : Nat) (piece : Bytes) : Bytes → List Bytes
  | [] => [piece]
  | c :: source =>
    if 0 < skip then splitLoop separator (skip - 1) piece source
    else if separator.isPrefixOf (c :: source) then
      piece :: splitLoop separator (separator.length - 1) [] source
    else splitLoop separator 0 (piece ++ [c]) source

/-- `std::string::find` of a character. -/
def findFrom (c : UInt8) (source : Bytes) (start : Nat) : Option Nat :=
  ((source.drop start).findIdx? (· = c)).map (start + ·)

/-- Where the end is before the start the length wraps around, and `substr` goes up to the end of
the string. -/
def subspan (source : Bytes) (start finish : Nat) : Bytes :=
  if finish < start then source.drop start else (source.drop start).take (finish - start)

def split (source separator : Bytes) : List Bytes :=
  if separator = [] then [source]
  else (splitLoop separator 0 [] source).filter (· ≠ [])

/-- The extra delimiter at the end is removed again, and there is none without a string. -/
def join (source : List Bytes) (delimiter : Bytes) : Bytes :=
  let text := source.flatMap (· ++ delimiter)
  text.take (text.length - delimiter.length)

def isSpace (c : UInt8) : Bool := c = 32 || (9 ≤ c && c ≤ 13)

/-- The characters of `find_last_not_of` are those of `isspace`. -/
def rtrim (source : Bytes) : Bytes := source.rdropWhile isSpace

def digitOf (base : Nat) (c : UInt8) : Option Nat :=
  let value :=
    if 48 ≤ c ∧ c ≤ 57 then c.toNat - 48
    else if 97 ≤ c ∧ c ≤ 122 then c.toNat - 87
    else if 65 ≤ c ∧ c ≤ 90 then c.toNat - 55
    else base
  if value < base then some value else none

def ulongMax : Nat := 18446744073709551615

/-- `strtoul`: the value, the rest of the text and whether `errno` is set to `ERANGE`. -/
def strtoul (str : Bytes) (base : Nat) : Nat × Bytes × Bool :=
  let text := str.dropWhile isSpace
  let (negative, text) : Bool × Bytes := match text with
    | 45 :: text => (true, text)
    | 43 :: text => (false, text)
    | text => (false, text)
  let text := match text with
    | 48 :: x :: c :: rest =>
      if base = 16 ∧ (x = 120 ∨ x = 88) ∧ (digitOf base c).isSome then c :: rest else text
    | text => text
  let digits := (text.takeWhile fun c => (digitOf base c).isSome).filterMap (digitOf base)
  let rest := text.dropWhile fun c => (digitOf base c).isSome
  let value := digits.foldl (fun value digit => value * base + digit) 0
  if digits = [] then (0, str, false)
  else if ulongMax < value then (ulongMax, rest, true)
  else (if negative then (ulongMax + 1 - value) % (ulongMax + 1) else value, rest, false)

/-- `atoul`; `errno` is what an earlier call left, for `strtoul` never clears it. -/
def atoul (errno : Bool) (str : Bytes) (base : Nat) : Option Nat :=
  if cStr str = [] then none
  else
    let (out, rest, range) := strtoul (cStr str) base
    if rest ≠ [] ∨ (out = ulongMax ∧ (range ∨ errno)) then none else some out

variable {c : UInt8} {text : Bytes}

theorem findIdx?_of_mem (h : c ∈ text) :
    text.findIdx? (· = c) = some (text.takeWhile (· ≠ c)).length := by
  induction text with
  | nil => cases h
  | cons b text ih =>
    rw [findIdx?_cons]
    by_cases hb : b = c
    · simp [hb]
    · have hmem : c ∈ text := (mem_cons.mp h).resolve_left (Ne.symm hb)
      rw [ih hmem]
      simp [hb]

variable {source : Bytes} {start : Nat}

theorem findFrom_of_mem (h : c ∈ source.drop start) :
    findFrom c source start = some (start + ((source.drop start).takeWhile (· ≠ c)).length) := by
  rw [findFrom, findIdx?_of_mem h, map_some]

theorem findFrom_of_notMem (h : c ∉ source.drop start) : findFrom c source start = none := by
  have hfind : (source.drop start).findIdx? (· = c) = none := by
    rw [findIdx?_eq_none_iff]
    intro x hx
    have hne : x ≠ c := fun hxc => h (hxc ▸ hx)
    simpa using hne
  rw [findFrom, hfind, map_none]

theorem findFrom_getD (c : UInt8) (h : start ≤ source.length) :
    (findFrom c source start).getD source.length =
      start + ((source.drop start).takeWhile (· ≠ c)).length := by
  by_cases hmem : c ∈ source.drop start
  · rw [findFrom_of_mem hmem, getD_some]
  · have hall : (source.drop start).takeWhile (· ≠ c) = source.drop start := by
      apply takeWhile_eq_self_iff.mpr
      intro x hx
      have hne : x ≠ c := fun hxc => hmem (hxc ▸ hx)
      simpa using hne
    rw [findFrom_of_notMem hmem, getD_none, hall, length_drop]
    omega

theorem subspan_of_le {finish : Nat} (h : start ≤ finish) :
    subspan source start finish = (source.drop start).take (finish - start) := by
  rw [subspan, if_neg (by omega)]

variable {before : Bytes}

theorem takeWhile_append_cons (h : c ∉ before) (after : Bytes) :
    (before ++ c :: after).takeWhile (· ≠ c) = before := by
  rw [takeWhile_append_of_pos, takeWhile_cons_of_neg (by simp), append_nil]
  intro x hx
  have hne : x ≠ c := fun hxc => h (hxc ▸ hx)
  simpa using hne

theorem dropWhile_append_cons (h : c ∉ before) (after : Bytes) :
    (before ++ c :: after).dropWhile (· ≠ c) = c :: after := by
  rw [dropWhile_append_of_pos, dropWhile_cons_of_neg (by simp)]
  intro x hx
  have hne : x ≠ c := fun hxc => h (hxc ▸ hx)
  simpa using hne

theorem splitLoop_plain {separator piece : Bytes} {first : UInt8} {rest : Bytes}
    (hsep : separator = first :: rest) (h : first ∉ source) :
    splitLoop separator 0 piece source = [piece ++ source] := by
  induction source generalizing piece with
  | nil => simp [splitLoop]
  | cons c source ih =>
    have hc : first ≠ c := fun hc => h (hc ▸ mem_cons_self)
    have hprefix : separator.isPrefixOf (c :: source) = false := by
      simp [hsep, List.isPrefixOf, hc]
    rw [splitLoop, if_neg (Nat.lt_irrefl 0), hprefix, if_neg Bool.false_ne_true,
      ih fun hm => h (mem_cons_of_mem c hm)]
    simp

theorem splitLoop_last (htext : text ≠ []) (hcomma : 44 ∉ text) (before : Bytes) (skip : Nat)
    (hskip : skip ≤ before.length) (piece : Bytes) :
    ((splitLoop [44, 32] skip piece (before ++ 44 :: 32 :: text)).filter (· ≠ [])).getLast? =
      some text := by
  induction before generalizing skip piece with
  | nil =>
    obtain rfl : skip = 0 := Nat.le_zero.mp hskip
    have hplain : splitLoop [44, 32] 0 [] text = [text] := splitLoop_plain rfl hcomma
    have hloop : splitLoop [44, 32] 0 piece (44 :: 32 :: text) = [piece, text] := by
      simpa [splitLoop, List.isPrefixOf] using hplain
    rw [nil_append, hloop]
    by_cases hpiece : piece = [] <;> simp [hpiece, htext]
  | cons c before ih =>
    rw [cons_append, splitLoop]
    by_cases hs : 0 < skip
    · rw [if_pos hs]
      apply ih
      simp only [length_cons] at hskip
      omega
    · rw [if_neg hs]
      split
      · rename_i hprefix
        have hlength : 1 ≤ before.length := by
          cases before with
          | nil => simp [List.isPrefixOf] at hprefix
          | cons c' before => simp
        have hlast := ih 1 hlength []
        by_cases hpiece : piece = []
        · simpa [hpiece] using hlast
        · rw [filter_cons_of_pos (by simpa using hpiece)]
          rw [getLast?_cons]
          simp only [length_cons, length_nil]
          rw [hlast, getD_some]
      · exact ih 0 (Nat.zero_le _) _

theorem split_last (htext : text ≠ []) (hcomma : 44 ∉ text) (before : Bytes) :
    (split (before ++ 44 :: 32 :: text) [44, 32]).getLast? = some text := by
  rw [split, if_neg (by decide)]
  exact splitLoop_last htext hcomma before 0 (Nat.zero_le _) []

theorem split_plain (htext : text ≠ []) (hcomma : 44 ∉ text) : split text [44, 32] = [text] := by
  have hplain : splitLoop [44, 32] 0 [] text = [text] := splitLoop_plain rfl hcomma
  rw [split, if_neg (by decide), hplain]
  simp [htext]

end StringUtil

end Meliproxy.Envoy
