import Meliproxy.Envoy.Redis.CodecNumbers
import Meliproxy.Envoy.Redis.CommandSplitter

/-!
# What the fragments of a command combine to

The fragments that the pool refuses complete inside `create`, the others in any order. What
has been combined after a list of fragments is a fold over it, and the fold over all
fragments does not depend on their order. Only the sum is taken in 64 bits.
-/

namespace Meliproxy.Envoy.Redis

open Lib List Option

namespace CommandSplitter

/-- What the pool tells a fragment that has a handle. -/
inductive Reply where
  | value (v : RespValue)
  | failure

def Reply.toValue : Reply → RespValue
  | .value v => v
  | .failure => makeError (ascii "upstream failure")

def SplitRequest.onReply (r : SplitRequest) (reply : Reply) (index : Nat) :
    Option (SplitRequest × Option RespValue) :=
  match reply with
  | .value v => r.onResponse v index
  | .failure => r.onFailure index

/-- The fragments of a request complete one after the other: the values handed to the
callbacks. -/
def complete (r : SplitRequest) (reply : Nat → Reply) : List Nat → Option (List RespValue)
  | [] => some []
  | i :: order =>
    (r.onReply (reply i) i).bind fun (r, answer) =>
      (complete r reply order).map (answer.toList ++ ·)

def Made.run (m : Made) (reply : Nat → Reply) (order : List Nat) : Option (List RespValue) :=
  match m.request with
  | none => if order = [] then some m.responses else none
  | some r => (complete r reply order).map (m.responses ++ ·)

def fragmentValue (available : Nat → Bool) (reply : Nat → Reply) (i : Nat) : RespValue :=
  if available i then (reply i).toValue else noUpstreamHost

namespace Combined

def foldChildren (c : Combined) (value : Nat → RespValue) (done : List Nat) : Combined :=
  done.foldl (fun c i => (c.add (value i) i).1) c

def fails (c : Combined) (value : RespValue) : Bool := (c.add value 0).2

def errors (c : Combined) (value : Nat → RespValue) (done : List Nat) : Nat :=
  done.countP fun i => c.fails (value i)

variable (c : Combined) (value : Nat → RespValue) (done : List Nat)

theorem add_snd (value : RespValue) (i : Nat) : (c.add value i).2 = c.fails value := by
  cases c <;> cases value <;> rfl

theorem fails_add (value : RespValue) (i : Nat) : (c.add value i).1.fails = c.fails := by
  funext v
  cases c with
  | mget responses => rfl
  | mset => cases value <;> rfl
  | splitKeysSumResult total => cases value <;> cases v <;> rfl

theorem foldChildren_snoc (i : Nat) :
    c.foldChildren value (done ++ [i]) = ((c.foldChildren value done).add (value i) i).1 := by
  rw [foldChildren, foldl_append]
  rfl

theorem fails_foldChildren : (c.foldChildren value done).fails = c.fails := by
  induction done using List.reverseRecOn with
  | nil => rfl
  | append_singleton done i ih => rw [foldChildren_snoc, fails_add, ih]

theorem errors_snoc (i : Nat) : c.errors value (done ++ [i]) =
      if c.fails (value i) then c.errors value done + 1 else c.errors value done := by
  rw [errors, countP_append, countP_singleton]
  split <;> rfl

end Combined

/-- What has been handed to the callbacks when the fragments in `done` have completed. -/
def answered (c : Combined) (value : Nat → RespValue) (n : Nat) (done : List Nat) :
    List RespValue :=
  if done.length = n then [(c.foldChildren value done).response (c.errors value done)] else []

/-- A request of `n` fragments of which those in `done` have completed, in this order. -/
structure FragmentedRequest.After (c : Combined) (value : Nat → RespValue) (n : Nat)
    (done : List Nat) (r : FragmentedRequest) : Prop where
  combined : r.combined = c.foldChildren value done
  errorCount : r.errorCount = c.errors value done
  pending : r.numPendingResponses + done.length = n

section Steps

variable {c : Combined} {value : Nat → RespValue} {n : Nat} {done : List Nat}
variable {r : FragmentedRequest}

theorem FragmentedRequest.After.onChildResponse (h : r.After c value n done) (hlt : done.length < n)
    (i : Nat) : ∃ r' answer, r.onChildResponse (value i) i = some (r', answer) ∧
      r'.After c value n (done ++ [i]) ∧ answer.toList = answered c value n (done ++ [i]) := by
  have hpending := h.pending
  have hne : r.numPendingResponses ≠ 0 := by omega
  have hcombined : (r.combined.add (value i) i).1 = c.foldChildren value (done ++ [i]) := by
    rw [h.combined, Combined.foldChildren_snoc]
  have herrors : (if (r.combined.add (value i) i).2 then r.errorCount + 1 else r.errorCount) =
      c.errors value (done ++ [i]) := by
    rw [Combined.add_snd, h.combined, Combined.fails_foldChildren, h.errorCount,
      Combined.errors_snoc]
  refine ⟨_, _, if_neg hne, ⟨hcombined, herrors, ?_⟩, ?_⟩
  · simp only [length_append, length_singleton]
    omega
  · simp only [hcombined, herrors, answered, length_append, length_singleton]
    by_cases hlast : r.numPendingResponses - 1 = 0
    · have hall : done.length + 1 = n := by omega
      rw [if_pos hlast, if_pos hall]
      rfl
    · have hleft : done.length + 1 ≠ n := by omega
      rw [if_neg hlast, if_neg hleft]
      rfl

variable (available : Nat → Bool)

def refused (k : Nat) : List Nat :=
  (List.range k).filter fun i => !available i

def accepted (k : Nat) : List Nat :=
  (List.range k).filter fun i => available i

theorem refused_append_accepted (k : Nat) :
    (refused available k ++ accepted available k).Perm (List.range k) := by
  have h := filter_append_perm available (List.range k)
  exact (perm_append_comm).trans h

theorem length_refused_le (k : Nat) : (refused available k).length ≤ k := by
  have h := length_filter_le (fun i => !available i) (List.range k)
  rwa [length_range] at h

/-- A request inside `create` before the fragment `k`. -/
structure Creating.After (c : Combined) (value : Nat → RespValue)
    (all : List Fragment) (k : Nat) (s : Creating) : Prop where
  request : s.request.After c value all.length (refused available k)
  responses : s.responses = answered c value all.length (refused available k)
  sent : s.sent.map Prod.fst = accepted available k
  keys : ∀ p ∈ s.sent, all[p.1]? = some p.2

variable {available : Nat → Bool} {all : List Fragment} {s : Creating}

theorem Creating.After.createChild {k : Nat} (h : s.After available c value all k)
    {fragment : Fragment} (hk : all[k]? = some fragment)
    (hrefused : ∀ i, available i = false → value i = noUpstreamHost) :
    ∃ s', CommandSplitter.createChild available s k fragment = some s' ∧
      s'.After available c value all (k + 1) := by
  have hlength := length_refused_le available k
  have hlt : k < all.length := (List.getElem?_eq_some_iff.mp hk).1
  unfold CommandSplitter.createChild
  by_cases hav : available k = true
  · have hr : refused available (k + 1) = refused available k := by
      simp [refused, range_succ, hav]
    have ha : accepted available (k + 1) = accepted available k ++ [k] := by
      simp [accepted, range_succ, hav]
    refine ⟨_, if_pos hav, ?_, ?_, ?_, ?_⟩
    · rw [hr]
      exact { h.request with }
    · rw [hr]
      exact h.responses
    · rw [ha, ← h.sent, map_append]
      rfl
    · intro p hp
      rcases mem_append.mp hp with hp | hp
      · exact h.keys p hp
      · obtain rfl := mem_singleton.mp hp
        exact hk
  · have hr : refused available (k + 1) = refused available k ++ [k] := by
      simp [refused, range_succ, hav]
    have ha : accepted available (k + 1) = accepted available k := by
      simp [accepted, range_succ, hav]
    have hwith : FragmentedRequest.After c value all.length (refused available k)
        { s.request with handles := s.request.handles ++ [available k] } := { h.request with }
    obtain ⟨r', answer, hchild, hafter, hanswer⟩ := hwith.onChildResponse (by omega) k
    rw [hrefused k (by simpa using hav)] at hchild
    refine ⟨⟨r', s.responses ++ answer.toList, s.sent⟩, ?_, ?_, ?_, ?_, h.keys⟩
    · simp [if_neg hav, hchild]
    · rw [hr]
      exact hafter
    · have hsilent : answered c value all.length (refused available k) = [] := by
        rw [answered, if_neg (by omega)]
      rw [hr, ← hanswer, h.responses, hsilent, nil_append]
    · rw [ha]
      exact h.sent

theorem Creating.After.createLoop (fragments : List Fragment) {k : Nat}
    (h : s.After available c value all k) (hk : all.drop k = fragments) (hle : k ≤ all.length)
    (hrefused : ∀ i, available i = false → value i = noUpstreamHost) :
    ∃ s', CommandSplitter.createLoop available s k fragments = some s' ∧
      s'.After available c value all all.length := by
  induction fragments generalizing s k with
  | nil =>
    have hend : all.length ≤ k := drop_eq_nil_iff.mp hk
    obtain rfl : k = all.length := by omega
    exact ⟨s, rfl, h⟩
  | cons fragment fragments ih =>
    have hfragment : all[k]? = some fragment := by
      rw [← head?_drop, hk]
      rfl
    have hlt : k < all.length := (List.getElem?_eq_some_iff.mp hfragment).1
    have hnext : all.drop (k + 1) = fragments := by
      rw [← tail_drop, hk]
      rfl
    obtain ⟨s₁, hs₁, h₁⟩ := h.createChild hfragment hrefused
    obtain ⟨s₂, hs₂, h₂⟩ := ih h₁ hnext hlt
    refine ⟨s₂, ?_, h₂⟩
    rw [CommandSplitter.createLoop, hs₁]
    exact hs₂

theorem FragmentedRequest.After.onReply (h : r.After c value n done) (hlt : done.length < n)
    (i : Nat) {reply : Reply} (hreply : value i = reply.toValue) :
    ∃ r' answer, (SplitRequest.fragmented r).onReply reply i = some (.fragmented r', answer) ∧
      r'.After c value n (done ++ [i]) ∧ answer.toList = answered c value n (done ++ [i]) := by
  obtain ⟨r', answer, hchild, hafter, hanswer⟩ := h.onChildResponse hlt i
  refine ⟨r', answer, ?_, hafter, hanswer⟩
  have hvalue : (SplitRequest.fragmented r).onReply reply i =
      (SplitRequest.fragmented r).onResponse (value i) i := by
    rw [hreply]
    cases reply <;> rfl
  rw [hvalue, SplitRequest.onResponse, hchild]
  rfl

theorem FragmentedRequest.After.complete {reply : Nat → Reply} {order : List Nat}
    (h : r.After c value n done) (hcount : done.length + order.length = n)
    (hreply : ∀ i ∈ order, value i = (reply i).toValue) :
    CommandSplitter.complete (.fragmented r) reply order =
      some (if order = [] then [] else answered c value n (done ++ order)) := by
  induction order generalizing r done with
  | nil => rfl
  | cons i order ih =>
    rw [length_cons] at hcount
    obtain ⟨r', answer, hr', hafter, hanswer⟩ := h.onReply (by omega) i (hreply i mem_cons_self)
    have hrest := ih hafter (by rw [length_append, length_singleton]; omega)
      (fun j hj => hreply j (mem_cons_of_mem i hj))
    rw [CommandSplitter.complete, hr', bind_some, if_neg (cons_ne_nil i order)]
    change (CommandSplitter.complete (.fragmented r') reply order).map (answer.toList ++ ·) = _
    rw [hrest, map_some, hanswer]
    cases order with
    | nil => rw [if_pos rfl, append_nil]
    | cons j order =>
      have hsnoc : (done ++ [i]).length = done.length + 1 := by simp
      rw [length_cons] at hcount
      have hsilent : answered c value n (done ++ [i]) = [] := by
        rw [answered, if_neg (by omega)]
      rw [hsilent, if_neg (cons_ne_nil j order), nil_append, append_assoc]
      rfl

/-- A command of `n` fragments has one response, the fold over all of them in some order. -/
theorem createFragmented_run (available : Nat → Bool) (c : Combined) (fragments : List Fragment)
    (hpos : 0 < fragments.length) (reply : Nat → Reply) (order : List Nat) :
    ∃ m, createFragmented available c fragments.length fragments = some m ∧
      (∀ p ∈ m.sent, fragments[p.1]? = some p.2) ∧
      m.sent.map Prod.fst = accepted available fragments.length ∧
      (order.Perm (m.sent.map Prod.fst) → ∃ done, done.Perm (List.range fragments.length) ∧
          m.run reply order = some [(c.foldChildren (fragmentValue available reply) done).response
            (c.errors (fragmentValue available reply) done)]) := by
  have hrefused : ∀ i, available i = false → fragmentValue available reply i = noUpstreamHost := by
    intro i hi
    simp [fragmentValue, hi]
  have hstart : Creating.After available c (fragmentValue available reply) fragments 0
      ⟨⟨c, [], fragments.length, 0⟩, [], []⟩ := by
    refine ⟨⟨rfl, rfl, rfl⟩, ?_, rfl, by simp⟩
    rw [answered, if_neg]
    · change ¬ (0 = fragments.length)
      omega
  obtain ⟨s, hs, hafter⟩ := hstart.createLoop fragments rfl (Nat.zero_le _) hrefused
  rw [createFragmented, hs, map_some]
  refine ⟨_, rfl, hafter.keys, hafter.sent, ?_⟩
  intro horder
  rw [hafter.sent] at horder
  have hperm : (refused available fragments.length ++ order).Perm
      (List.range fragments.length) :=
    (List.Perm.append_left _ horder).trans (refused_append_accepted _ _)
  have hcount : (refused available fragments.length).length + order.length = fragments.length := by
    rw [← length_append, hperm.length_eq, length_range]
  have hpending := hafter.request.pending
  refine ⟨_, hperm, ?_⟩
  have hall : answered c (fragmentValue available reply) fragments.length
      (refused available fragments.length ++ order) =
      [(c.foldChildren (fragmentValue available reply)
        (refused available fragments.length ++ order)).response
        (c.errors (fragmentValue available reply) (refused available fragments.length ++ order))] := by
    rw [answered, if_pos (by rw [length_append, hcount])]
  rw [← hall]
  unfold Made.run
  by_cases hleft : 0 < s.request.numPendingResponses
  · have hne : order ≠ [] := by
      rintro rfl
      rw [length_nil] at hcount
      omega
    have hsilent : s.responses = [] := by
      rw [hafter.responses, answered, if_neg (by omega)]
    have hreply : ∀ i ∈ order, fragmentValue available reply i = (reply i).toValue := by
      intro i hi
      have hi' := (mem_filter.mp (horder.mem_iff.mp hi)).2
      rw [fragmentValue, if_pos hi']
    simp [if_pos hleft, hafter.request.complete hcount hreply, if_neg hne, hsilent]
  · have hnil : order = [] := by
      apply eq_nil_of_length_eq_zero
      omega
    subst hnil
    simp [if_neg hleft, hafter.responses]

end Steps

theorem foldChildren_mget (responses : List RespValue) (value : Nat → RespValue) (done : List Nat) :
    ∃ elements, (Combined.mget responses).foldChildren value done = .mget elements ∧
      elements.length = responses.length ∧
      ∀ i ∈ done, i < responses.length → elements[i]? = some (mgetChild (value i)).1 := by
  induction done using List.reverseRecOn with
  | nil => exact ⟨responses, rfl, rfl, by simp⟩
  | append_singleton done i ih =>
    obtain ⟨elements, hfold, hlength, helements⟩ := ih
    refine ⟨elements.set i (mgetChild (value i)).1, ?_, ?_, ?_⟩
    · rw [Combined.foldChildren_snoc, hfold]
      rfl
    · rw [length_set, hlength]
    · intro j hj hlt
      rw [getElem?_set]
      by_cases hij : i = j
      · subst hij
        rw [if_pos rfl, if_pos (by omega)]
      · rw [if_neg hij]
        apply helements j _ hlt
        rcases mem_append.mp hj with hj | hj
        · exact hj
        · exact absurd (mem_singleton.mp hj).symm hij

theorem foldChildren_mset (value : Nat → RespValue) (done : List Nat) :
    Combined.mset.foldChildren value done = .mset := by
  induction done using List.reverseRecOn with
  | nil => rfl
  | append_singleton done i ih =>
    rw [Combined.foldChildren_snoc, ih]
    cases value i <;> rfl

def integerOf : RespValue → Int
  | .integer i => i.toInt
  | _ => 0

def integerSum (value : Nat → RespValue) (done : List Nat) : Int :=
  (done.map fun i => integerOf (value i)).sum

theorem foldChildren_sum (value : Nat → RespValue) (done : List Nat) :
    ∃ total : Int64, (Combined.splitKeysSumResult 0).foldChildren value done =
        .splitKeysSumResult total ∧ total.toInt = (integerSum value done).bmod (2 ^ 64) := by
  induction done using List.reverseRecOn with
  | nil => exact ⟨0, rfl, rfl⟩
  | append_singleton done i ih =>
    obtain ⟨total, hfold, htotal⟩ := ih
    have hsum : integerSum value (done ++ [i]) = integerSum value done + integerOf (value i) := by
      simp [integerSum]
    rw [Combined.foldChildren_snoc, hfold, hsum]
    cases hvalue : value i with
    | integer k =>
      refine ⟨total + k, rfl, ?_⟩
      rw [Int64.toInt_add, htotal, Int.bmod_add_bmod]
      rfl
    | null | simpleString | bulkString | error | array =>
      exact ⟨total, rfl, by simpa [integerOf] using htotal⟩

inductive Kind where
  | mget | mset | splitKeysSumResult

variable (kind : Kind)

def Kind.Command (words : List Bytes) : Prop :=
  2 ≤ words.length ∧
    match kind with
    | .mget => toLowerCase (words.headD []) = ascii "mget"
    | .mset => toLowerCase (words.headD []) = ascii "mset" ∧ words.length % 2 = 1
    | .splitKeysSumResult => toLowerCase (words.headD []) ∈
        SupportedCommands.hashMultipleSumResultCommands.map ascii

instance (kind : Kind) (words : List Bytes) : Decidable (kind.Command words) := by
  cases kind <;> exact inferInstanceAs (Decidable (_ ∧ _))

def Kind.keys (words : List Bytes) : Nat :=
  match kind with
  | .mset => (words.length - 1) / 2
  | _ => words.length - 1

def Kind.keyIndex (i : Nat) : Nat :=
  match kind with
  | .mset => 2 * i + 1
  | _ => i + 1

def isOk : RespValue → Bool
  | .simpleString s => s = ascii "OK"
  | _ => false

def isInteger : RespValue → Bool
  | .integer _ => true
  | _ => false

/-- The response that the fragments combine to, without a bound on the sum. -/
def Kind.Combines (n : Nat) (value : Nat → RespValue) (response : RespValue) : Prop :=
  match kind with
  | .mget => ∃ elements, response = .array elements ∧ elements.length = n ∧
      ∀ i < n, elements[i]? = some (mgetChild (value i)).1
  | .mset =>
    if ∀ i < n, isOk (value i) = true then response = .simpleString (ascii "OK")
    else response = finishedWithErrors ((List.range n).countP fun i => !isOk (value i))
  | .splitKeysSumResult =>
    if ∀ i < n, isInteger (value i) = true then
      ∃ total, response = .integer total ∧ total.toInt = integerSum value (List.range n)
    else response = finishedWithErrors ((List.range n).countP fun i => !isInteger (value i))

/-- Where all fragments are integers, their sum fits the response. -/
def Kind.SumFits (n : Nat) (value : Nat → RespValue) : Prop :=
  match kind with
  | .splitKeysSumResult =>
    (∀ i < n, isInteger (value i) = true) → InInt64 (integerSum value (List.range n))
  | _ => True

def Kind.start (n : Nat) : Combined :=
  match kind with
  | .mget => .mget (List.replicate n .null)
  | .mset => .mset
  | .splitKeysSumResult => .splitKeysSumResult 0

theorem count_eq_zero_iff (value : Nat → RespValue) (ok : RespValue → Bool) (n : Nat) :
    (List.range n).countP (fun i => !ok (value i)) = 0 ↔ ∀ i < n, ok (value i) = true := by
  rw [countP_eq_zero]
  constructor
  · intro h i hi
    simpa using h i (mem_range.mpr hi)
  · intro h i hi
    rw [h i (mem_range.mp hi)]
    simp

variable {value : Nat → RespValue} {done : List Nat}

theorem errors_perm {c : Combined} {ok : RespValue → Bool} {n : Nat}
    (hdone : done.Perm (List.range n)) (hfails : ∀ v, c.fails v = !ok v) :
    c.errors value done = (List.range n).countP fun i => !ok (value i) := by
  rw [Combined.errors, hdone.countP_eq]
  apply countP_congr
  intro i _
  rw [hfails]

theorem fails_mset (v : RespValue) : Combined.mset.fails v = !isOk v := by
  cases v with
  | simpleString s => simp [Combined.fails, Combined.add, isOk]
  | _ => rfl

theorem fails_sum (total : Int64) (v : RespValue) :
    (Combined.splitKeysSumResult total).fails v = !isInteger v := by
  cases v <;> rfl

theorem bmod_eq_self_iff (n : Int) : n.bmod (2 ^ 64) = n ↔ InInt64 n := by
  constructor
  · intro h
    have hlow := Int.le_bmod (x := n) (m := 2 ^ 64) (by decide)
    have hhigh := Int.bmod_lt (x := n) (m := 2 ^ 64) (by decide)
    rw [h] at hlow hhigh
    unfold InInt64
    omega
  · rintro ⟨hlow, hhigh⟩
    rw [Int.bmod_eq_of_le] <;> omega

theorem response_iff (kind : Kind) {n : Nat} (hdone : done.Perm (List.range n)) :
    kind.Combines n value (((kind.start n).foldChildren value done).response
      ((kind.start n).errors value done)) ↔ kind.SumFits n value := by
  cases kind with
  | mget =>
    obtain ⟨elements, hfold, hlength, helements⟩ :=
      foldChildren_mget (List.replicate n .null) value done
    rw [length_replicate] at hlength helements
    refine iff_of_true ⟨elements, ?_, hlength, ?_⟩ trivial
    · rw [Kind.start, hfold]
      rfl
    · intro i hi
      exact helements i (hdone.mem_iff.mpr (mem_range.mpr hi)) hi
  | mset =>
    have hcount := count_eq_zero_iff value isOk n
    refine iff_of_true ?_ trivial
    rw [Kind.start, foldChildren_mset, errors_perm hdone fails_mset, Kind.Combines,
      Combined.response]
    by_cases hall : ∀ i < n, isOk (value i) = true
    · rw [if_pos hall, if_pos (hcount.mpr hall)]
    · rw [if_neg hall, if_neg (mt hcount.mp hall)]
  | splitKeysSumResult =>
    obtain ⟨total, hfold, htotal⟩ := foldChildren_sum value done
    have hcount := count_eq_zero_iff value isInteger n
    have hsum : integerSum value done = integerSum value (List.range n) :=
      (hdone.map fun i => integerOf (value i)).sum_eq
    rw [Kind.start, hfold, errors_perm hdone (fails_sum 0), Kind.Combines, Combined.response]
    by_cases hall : ∀ i < n, isInteger (value i) = true
    · rw [if_pos hall, if_pos (hcount.mpr hall), Kind.SumFits, ← bmod_eq_self_iff, ← hsum, ← htotal]
      constructor
      · rintro ⟨total', htotal', hexact⟩ _
        obtain rfl := RespValue.integer.inj htotal'
        exact hexact
      · intro hfits
        exact ⟨total, rfl, hfits hall⟩
    · rw [if_neg hall, if_neg (mt hcount.mp hall)]
      exact iff_of_true rfl fun h => absurd h hall

theorem bulkStrings_map (words : List Bytes) :
    bulkStrings (words.map .bulkString) = some words := by
  induction words with
  | nil => rfl
  | cons word words ih => rw [map_cons, bulkStrings, ih]; rfl

variable {words : List Bytes}

theorem makeRequest_commandOf (available : Nat → Bool) (h : 2 ≤ words.length) :
    makeRequest available (commandOf words) = startRequest available words := by
  rw [commandOf, makeRequest, if_neg (by rw [length_map]; omega), bulkStrings_map]

def Kind.fragments (words : List Bytes) : List Fragment :=
  match kind with
  | .mget => keyFragments (ascii "get") words.tail
  | .mset => pairFragments words.tail
  | .splitKeysSumResult => keyFragments (words.headD []) words.tail

theorem Kind.length_fragments (kind : Kind) (words : List Bytes) :
    (kind.fragments words).length = kind.keys words := by
  cases kind with
  | mget => exact length_keyFragments _ words
  | mset => rw [Kind.fragments, length_pairFragments, length_tail, Kind.keys]
  | splitKeysSumResult => exact length_keyFragments _ words

variable {i : Nat} {fragment : Fragment}

theorem keyFragments_hashKey {command : Bytes}
    (h : (keyFragments command words.tail)[i]? = some fragment) :
    words[i + 1]? = some fragment.hashKey := by
  rw [keyFragments, getElem?_map, map_eq_some_iff] at h
  obtain ⟨key, hkey, rfl⟩ := h
  rw [getElem?_tail] at hkey
  exact hkey

theorem pairFragments_hashKey (words : List Bytes) (h : (pairFragments words)[i]? = some fragment) :
    words[2 * i]? = some fragment.hashKey := by
  induction words using pairFragments.induct generalizing i with
  | case1 key value rest ih =>
    rw [pairFragments] at h
    cases i with
    | zero =>
      cases h
      rfl
    | succ i =>
      rw [getElem?_cons_succ] at h
      rw [show 2 * (i + 1) = 2 * i + 1 + 1 by omega, getElem?_cons_succ, getElem?_cons_succ]
      exact ih h
  | case2 words hshort =>
    rw [pairFragments.eq_2 words hshort] at h
    cases h

variable {kind : Kind}

theorem Kind.hashKey (h : (kind.fragments words)[i]? = some fragment) :
    words[kind.keyIndex i]? = some fragment.hashKey := by
  cases kind with
  | mget => exact keyFragments_hashKey h
  | mset =>
    have hkey := pairFragments_hashKey words.tail h
    rw [getElem?_tail] at hkey
    exact hkey
  | splitKeysSumResult => exact keyFragments_hashKey h

/-- No name of a fragmented command is in the tables that are looked at before its own. -/
theorem sum_not_earlier : ∀ name ∈ SupportedCommands.hashMultipleSumResultCommands.map ascii,
    name ∉ SupportedCommands.simpleCommands.map ascii ∧
      name ∉ SupportedCommands.evalCommands.map ascii := by
  decide +kernel

theorem multi_not_earlier : ∀ name ∈ [ascii "mget", ascii "mset"],
    name ∉ SupportedCommands.simpleCommands.map ascii ∧
      name ∉ SupportedCommands.evalCommands.map ascii ∧
      name ∉ SupportedCommands.hashMultipleSumResultCommands.map ascii := by
  decide +kernel

theorem Kind.startRequest_eq (h : kind.Command words) (available : Nat → Bool) :
    startRequest available words = createFragmented available (kind.start (kind.keys words))
      (kind.fragments words).length (kind.fragments words) := by
  rw [kind.length_fragments]
  unfold startRequest
  cases kind with
  | mget =>
    obtain ⟨hsimple, heval, hsum⟩ := multi_not_earlier (ascii "mget") (by simp)
    rw [h.2, handler, if_neg hsimple, if_neg heval, if_neg hsum, if_pos rfl]
    rfl
  | mset =>
    obtain ⟨hsimple, heval, hsum⟩ := multi_not_earlier (ascii "mset") (by simp)
    have hname := h.2.1
    have hodd := h.2.2
    have heven : ¬ (words.length - 1) % 2 ≠ 0 := by omega
    rw [hname, handler, if_neg hsimple, if_neg heval, if_neg hsum, if_neg (by decide), if_pos rfl]
    change MSETRequest.create available words = _
    rw [MSETRequest.create, if_neg heven]
    rfl
  | splitKeysSumResult =>
    obtain ⟨hsimple, heval⟩ := sum_not_earlier _ h.2
    rw [handler, if_neg hsimple, if_neg heval, if_pos h.2]
    rfl

theorem Kind.keys_pos (h : kind.Command words) : 0 < kind.keys words := by
  have hlength := h.1
  cases kind with
  | mset =>
    have hodd := h.2.2
    simp only [Kind.keys]
    omega
  | mget | splitKeysSumResult =>
    simp only [Kind.keys]
    omega

/-- A fragmented command has exactly one response, in whatever order its fragments complete. It
is what they combine to exactly when the sum of integers fits. -/
theorem makeRequest_combines (kind : Kind) (words : List Bytes) (h : kind.Command words)
    (available : Nat → Bool) (reply : Nat → Reply) (order : List Nat) :
    ∃ m, makeRequest available (commandOf words) = some m ∧
      m.sent.map Prod.fst = accepted available (kind.keys words) ∧
      (∀ p ∈ m.sent, words[kind.keyIndex p.1]? = some p.2.hashKey) ∧
      (order.Perm (m.sent.map Prod.fst) → ∃ response, m.run reply order = some [response] ∧
        (kind.Combines (kind.keys words) (fragmentValue available reply) response ↔
          kind.SumFits (kind.keys words) (fragmentValue available reply))) := by
  have hpos : 0 < (kind.fragments words).length := by
    rw [kind.length_fragments]
    exact Kind.keys_pos h
  obtain ⟨m, hm, hkeys, hsent, hrun⟩ := createFragmented_run available
    (kind.start (kind.keys words)) (kind.fragments words) hpos reply order
  rw [kind.length_fragments] at hsent hrun
  refine ⟨m, ?_, hsent, fun p hp => Kind.hashKey (hkeys p hp), ?_⟩
  · rw [makeRequest_commandOf available h.1, Kind.startRequest_eq h]
    exact hm
  · intro horder
    obtain ⟨done, hdone, hresponse⟩ := hrun horder
    exact ⟨_, hresponse, response_iff kind hdone⟩

/-- The second of three keys has no host, and the last one completes first. -/
theorem makeRequest_combines_mget :
    let words := [ascii "MGET", ascii "a", ascii "b", ascii "a"]
    let available : Nat → Bool := fun i => i ≠ 1
    let reply : Nat → Reply := fun i => if i = 0 then .value .null else .failure
    ∃ m, makeRequest available (commandOf words) = some m ∧
      ∃ response, m.run reply [2, 0] = some [response] ∧
        Kind.mget.Combines 3 (fragmentValue available reply) response := by
  intro words available reply
  obtain ⟨m, hm, hsent, -, hrun⟩ := makeRequest_combines .mget words (by decide) available reply [2, 0]
  obtain ⟨response, hresponse, hiff⟩ := hrun (by rw [hsent]; decide)
  exact ⟨m, hm, response, hresponse, hiff.mpr trivial⟩

def largest : Int64 := 9223372036854775807

/-- Two replies with the largest integer: the total wraps around. -/
theorem makeRequest_wraps :
    let words := [ascii "del", ascii "a", ascii "b"]
    let reply : Nat → Reply := fun _ => .value (.integer largest)
    ∃ m, makeRequest (fun _ => true) (commandOf words) = some m ∧
      m.run reply [0, 1] = some [.integer (-2)] ∧
      ¬ Kind.splitKeysSumResult.Combines 2 (fragmentValue (fun _ => true) reply) (.integer (-2)) := by
  intro words reply
  refine ⟨_, rfl, rfl, ?_⟩
  have hall : ∀ i < 2, isInteger (fragmentValue (fun _ => true) reply i) = true := fun _ _ => rfl
  rw [Kind.Combines, if_pos hall]
  rintro ⟨total, htotal, hsum⟩
  obtain rfl := RespValue.integer.inj htotal
  revert hsum
  decide

end CommandSplitter

end Meliproxy.Envoy.Redis
