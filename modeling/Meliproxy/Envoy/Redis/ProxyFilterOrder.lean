import Meliproxy.Envoy.Redis.ProxyFilter

/-!
# The order of the responses

While the connection is open, the pending requests are the commands from the first one that
is not written to the last one, the pool owes exactly the handles they hold, and what is
written is the responses of the commands before them. Every event keeps this, also when the
splitter answers a command at once or one response releases several.
-/

namespace Meliproxy.Envoy.Redis

open Lib List CommandSplitter Option

namespace ProxyFilter

/-- A pending request waits for the pool or is answered. -/
inductive PendingRequest.Proper (p : PendingRequest) : Prop
  | waits (r : SplitRequest) (hresponse : p.pendingResponse = none)
      (hhandle : p.requestHandle = some r) (hwaits : r.Waits)
  | answered (value : RespValue) (hresponse : p.pendingResponse = some value)
      (hhandle : p.requestHandle = none)

/-- The state of an open connection on which the first `n` commands are answered and
written. -/
structure Books (n : Nat) (s : ProxyFilter) : Prop where
  ids : s.pendingRequests.map PendingRequest.id = List.range' n s.pendingRequests.length
  commands : s.commands = n + s.pendingRequests.length
  outstanding : s.outstanding.Perm (s.pendingRequests.flatMap PendingRequest.owed)
  buffer : s.encoderBuffer = []
  first : ∀ id < n, ∃ value, s.answersOf id = [value]
  pending : ∀ p ∈ s.pendingRequests, s.answersOf p.id = p.pendingResponse.toList
  later : ∀ id, s.commands ≤ id → s.answersOf id = []
  written : s.written = encodeAll ((List.range n).flatMap s.answersOf)
  closed : s.closed = false
  cancelled : s.cancelled = []

/-- Between two events the first pending request is not answered. -/
structure Open (n : Nat) (s : ProxyFilter) : Prop extends Books n s where
  proper : ∀ p ∈ s.pendingRequests, p.Proper
  front : ∀ p, s.pendingRequests.head? = some p → p.pendingResponse = none

theorem open_create : Open 0 create where
  ids := rfl
  commands := rfl
  outstanding := List.Perm.refl []
  buffer := rfl
  first := fun _ h => absurd h (Nat.not_lt_zero _)
  pending := fun _ h => by cases h
  later := fun _ _ => rfl
  written := rfl
  closed := rfl
  cancelled := rfl
  proper := fun _ h => by cases h
  front := fun _ h => by cases h

section Books

variable {n : Nat} {s : ProxyFilter}

theorem Books.nodup (h : Books n s) : (s.pendingRequests.map PendingRequest.id).Nodup := by
  rw [h.ids]
  exact nodup_range'

variable {p : PendingRequest}

theorem Books.id_bounds (h : Books n s) (hp : p ∈ s.pendingRequests) :
    n ≤ p.id ∧ p.id < s.commands := by
  have hid : p.id ∈ s.pendingRequests.map PendingRequest.id := List.mem_map_of_mem hp
  rw [h.ids, mem_range'_1] at hid
  have hcommands := h.commands
  omega

theorem answersOf_answer (s : ProxyFilter) (id c : Nat) (value : RespValue) :
    (s.answer id value).answersOf c = s.answersOf c ++ if id = c then [value] else [] := by
  unfold answersOf answer
  rw [filter_append, map_append]
  congr 1
  by_cases h : id = c <;> simp [h]

theorem flatMap_answersOf_answer {ids : List Nat} {id : Nat} (h : id ∉ ids) (value : RespValue) :
    ids.flatMap (s.answer id value).answersOf = ids.flatMap s.answersOf := by
  apply flatMap_congr
  intro c hc
  have hne : id ≠ c := fun heq => h (heq ▸ hc)
  rw [answersOf_answer, if_neg hne, append_nil]

theorem encodeAll_append (xs ys : List RespValue) :
    encodeAll (xs ++ ys) = encodeAll xs ++ encodeAll ys := by
  induction xs with
  | nil => rfl
  | cons x xs ih => rw [cons_append, encodeAll, encodeAll, ih, append_assoc]

section

variable (h : Books n s)
include h

theorem Books.answer (hp : p ∈ s.pendingRequests)
    (hresponse : p.pendingResponse = none) (howed : p.owed = []) (value : RespValue) :
    Books n (s.answer p.id value) := by
  obtain ⟨hlow, hhigh⟩ := h.id_bounds hp
  have hnodup := h.nodup
  have hbefore := h.pending p hp
  obtain ⟨before, after, hsplit⟩ := append_of_mem hp
  have hids := h.ids
  have hcommands := h.commands
  have howes := h.outstanding
  rw [hsplit] at hnodup hids hcommands howes
  have hpending : (s.answer p.id value).pendingRequests =
      before ++ ⟨p.id, some value, none⟩ :: after := by
    change update s.pendingRequests p.id _ = _
    rw [hsplit, update_middle hnodup]
  have hkeep : ∀ c, p.id ≠ c → (s.answer p.id value).answersOf c = s.answersOf c := by
    intro c hc
    rw [answersOf_answer, if_neg hc, append_nil]
  constructor
  · rw [hpending]
    simpa using hids
  · rw [hpending]
    change s.commands = _
    simpa using hcommands
  · rw [hpending, flatMap_append, flatMap_cons]
    rw [flatMap_append, flatMap_cons, howed] at howes
    exact howes
  · exact h.buffer
  · intro id hid
    rw [hkeep id (by omega)]
    exact h.first id hid
  · intro q hq
    rw [hpending] at hq
    rcases mem_middle hnodup hq with rfl | ⟨hq, hne⟩
    · rw [answersOf_answer, if_pos rfl, hbefore, hresponse]
      rfl
    · rw [hkeep q.id hne.symm]
      exact h.pending q (hsplit ▸ hq)
  · intro id hid
    change s.commands ≤ id at hid
    rw [hkeep id (by omega)]
    exact h.later id hid
  · have hnot : p.id ∉ List.range n := by
      rw [mem_range]
      omega
    rw [flatMap_answersOf_answer hnot]
    exact h.written
  · exact h.closed
  · exact h.cancelled

theorem Books.writeAnswered (hproper : ∀ p ∈ s.pendingRequests, p.Proper) :
    ∃ m, Open m s.writeAnswered := by
  obtain ⟨front, rest, hsplit, hflush, hfront, hrest⟩ := flush_eq s.pendingRequests s.encoderBuffer
  rw [h.buffer, nil_append] at hflush
  have hids := h.ids
  have hcommands := h.commands
  have howes := h.outstanding
  rw [hsplit, map_append, length_append, ← range'_append_1] at hids
  rw [hsplit, length_append] at hcommands
  have hlengths : (front.map PendingRequest.id).length = (List.range' n front.length).length := by
    simp
  obtain ⟨hidsFront, hidsRest⟩ := append_inj hids hlengths
  -- What the loop has encoded are the responses of the commands it has passed.
  have hencoded : front.flatMap (fun p => p.pendingResponse.toList) =
      (List.range' n front.length).flatMap s.answersOf := by
    rw [← hidsFront, flatMap_map]
    apply flatMap_congr
    intro p hp
    exact (h.pending p (hsplit ▸ mem_append_left _ hp)).symm
  have hfrontOwed : front.flatMap PendingRequest.owed = [] := by
    rw [flatMap_eq_nil_iff]
    intro p hp
    cases hproper p (hsplit ▸ mem_append_left _ hp) with
    | waits r hresponse => exact absurd hresponse (hfront p hp)
    | answered value hresponse hhandle => rw [PendingRequest.owed, hhandle]
  have hstate : s.writeAnswered = { s with
      pendingRequests := rest
      written := s.written ++ encodeAll ((List.range' n front.length).flatMap s.answersOf) } := by
    simp only [ProxyFilter.writeAnswered, h.buffer, hflush, hencoded]
    split
    · rfl
    · rename_i hempty
      rw [eq_nil_of_length_eq_zero (Nat.le_zero.mp (Nat.not_lt.mp hempty)), append_nil]
  rw [hstate]
  refine ⟨n + front.length, ⟨hidsRest, ?_, ?_, h.buffer, ?_, ?_, h.later, ?_, h.closed,
    h.cancelled⟩, ?_, hrest⟩
  · change s.commands = n + front.length + rest.length
    omega
  · rw [hsplit, flatMap_append, hfrontOwed, nil_append] at howes
    exact howes
  · intro id hid
    by_cases hold : id < n
    · exact h.first id hold
    · have hmem : id ∈ front.map PendingRequest.id := by
        rw [hidsFront, mem_range'_1]
        omega
      obtain ⟨p, hp, rfl⟩ := List.mem_map.mp hmem
      have hanswers := h.pending p (hsplit ▸ mem_append_left _ hp)
      obtain ⟨value, hvalue⟩ := ne_none_iff_exists'.mp (hfront p hp)
      rw [hvalue] at hanswers
      exact ⟨value, hanswers⟩
  · intro p hp
    exact h.pending p (hsplit ▸ mem_append_right _ hp)
  · change s.written ++ _ = encodeAll ((List.range (n + front.length)).flatMap s.answersOf)
    rw [h.written, ← encodeAll_append, ← flatMap_append, range_eq_range',
      range_eq_range', ← range'_append_1, Nat.zero_add]
  · intro p hp
    exact hproper p (hsplit ▸ mem_append_right _ hp)

theorem Books.onResponse (hp : p ∈ s.pendingRequests)
    (hresponse : p.pendingResponse = none) (howed : p.owed = [])
    (hothers : ∀ q ∈ s.pendingRequests, q.id ≠ p.id → q.Proper) (value : RespValue) :
    ∃ m s', s.onResponse p.id value = some s' ∧ Open m s' := by
  have hnodup := h.nodup
  obtain ⟨before, after, hsplit⟩ := append_of_mem hp
  rw [hsplit] at hnodup
  have hfind : s.pendingRequests.find? (fun q => q.id = p.id) = some p := by
    rw [hsplit]
    exact find_middle hnodup
  have hproper : ∀ q ∈ (s.answer p.id value).pendingRequests, q.Proper := by
    intro q hq
    obtain ⟨q₀, hq₀, rfl⟩ := List.mem_map.mp hq
    by_cases hid : q₀.id = p.id
    · rw [if_pos hid]
      exact .answered value rfl rfl
    · rw [if_neg hid]
      exact hothers q₀ hq₀ hid
  obtain ⟨m, hm⟩ := (h.answer hp hresponse howed value).writeAnswered hproper
  refine ⟨m, _, ?_, hm⟩
  rw [ProxyFilter.onResponse, hfind]
  exact if_pos howed

theorem Books.push {sent : List (Nat × Fragment)} {r : Option SplitRequest}
    (hsent : sent.map (fun fragment => (s.commands, fragment.1)) =
      PendingRequest.owed ⟨s.commands, none, r⟩) : Books n { s.push sent with
      pendingRequests := s.pendingRequests ++ [⟨s.commands, none, r⟩] } := by
  have hcommands := h.commands
  constructor
  · change (s.pendingRequests ++ [_]).map PendingRequest.id = _
    rw [map_append, h.ids, length_append, length_singleton, range'_concat,
      Nat.one_mul, map_singleton, hcommands]
  · change s.commands + 1 = n + (s.pendingRequests ++ [_]).length
    rw [length_append, length_singleton]
    omega
  · change (s.outstanding ++ sent.map _).Perm ((s.pendingRequests ++ [_]).flatMap _)
    rw [flatMap_append, flatMap_singleton, hsent]
    exact h.outstanding.append_right _
  · exact h.buffer
  · exact h.first
  · intro p hp
    change s.answersOf p.id = _
    rcases mem_append.mp hp with hp | hp
    · exact h.pending p hp
    · obtain rfl := mem_singleton.mp hp
      exact h.later s.commands (Nat.le_refl _)
  · intro id hid
    change s.commands + 1 ≤ id at hid
    exact h.later id (by omega)
  · exact h.written
  · exact h.closed
  · exact h.cancelled

theorem Books.fresh : s.commands ∉ s.pendingRequests.map PendingRequest.id := by
  have hcommands := h.commands
  rw [h.ids, mem_range'_1]
  omega

end

theorem Open.onRespValue (h : Open n s) (available : Nat → Bool) (value : RespValue) :
    ∃ m s', s.onRespValue available value = some s' ∧ Open m s' := by
  obtain ⟨made, hmade, hproper⟩ := makeRequest_proper available value
  rw [ProxyFilter.onRespValue, hmade, bind_some]
  cases hproper with
  | answered response hresponses hrequest hsent =>
    have hbooks : Books n (s.push made.sent) := h.toBooks.push (r := none) (by rw [hsent]; rfl)
    have hlast : ⟨s.commands, none, none⟩ ∈ (s.push made.sent).pendingRequests := by
      apply mem_append_right
      exact mem_singleton_self _
    have hothers : ∀ q ∈ (s.push made.sent).pendingRequests, q.id ≠ s.commands → q.Proper := by
      intro q hq hne
      rcases mem_append.mp hq with hq | hq
      · exact h.proper q hq
      · obtain rfl := mem_singleton.mp hq
        exact absurd rfl hne
    obtain ⟨m, s', hs', hopen⟩ := hbooks.onResponse hlast rfl rfl hothers response
    refine ⟨m, s', ?_, hopen⟩
    rw [hresponses, hrequest, respond, hs']
    rfl
  | waits r hresponses hrequest hwaits hsent =>
    have hmap : made.sent.map (fun fragment => (s.commands, fragment.1)) =
        PendingRequest.owed ⟨s.commands, none, some r⟩ := by
      change _ = r.openHandles.map _
      rw [← hsent, List.map_map]
      rfl
    have hhere : s.commands ∈ (s.push made.sent).pendingRequests.map PendingRequest.id := by
      change s.commands ∈ (s.pendingRequests ++ [_]).map PendingRequest.id
      rw [map_append]
      apply mem_append_right
      exact mem_singleton_self _
    have hnodup : ((s.push made.sent).pendingRequests.map PendingRequest.id).Nodup := by
      change ((s.pendingRequests ++ [_]).map PendingRequest.id).Nodup
      rw [map_append, map_singleton, ← concat_eq_append]
      exact h.nodup.concat h.fresh
    have hupdate := update_middle hnodup fun p => { p with requestHandle := some r }
    have hstate : (s.push made.sent).setHandle s.commands r = { s.push made.sent with
        pendingRequests := s.pendingRequests ++ [⟨s.commands, none, some r⟩] } := by
      unfold setHandle
      congr 1
    refine ⟨n, (s.push made.sent).setHandle s.commands r, ?_, ?_⟩
    · rw [hresponses, hrequest]
      exact if_pos hhere
    · rw [hstate]
      refine ⟨h.toBooks.push hmap, ?_, ?_⟩
      · intro p hp
        rcases mem_append.mp hp with hp | hp
        · exact h.proper p hp
        · obtain rfl := mem_singleton.mp hp
          exact .waits r rfl rfl hwaits
      · intro p hp
        change (s.pendingRequests ++ [_]).head? = some p at hp
        rw [head?_append] at hp
        cases hhead : s.pendingRequests.head? with
        | none =>
          rw [hhead] at hp
          obtain rfl : _ = p := Option.some.inj hp
          rfl
        | some q =>
          rw [hhead] at hp
          obtain rfl : q = p := Option.some.inj hp
          exact h.front q hhead

variable {index : Nat}

theorem Open.setHandle (h : Open n s) (hp : p ∈ s.pendingRequests) {r r' : SplitRequest}
    (hhandle : p.requestHandle = some r) (hindex : index ∈ r.openHandles)
    (hr' : r'.openHandles = r.openHandles.erase index) :
    Books n ((s.settle p.id index).setHandle p.id r') := by
  have hnodup := h.nodup
  have hanswers := h.pending p hp
  obtain ⟨before, after, hsplit⟩ := append_of_mem hp
  have hids := h.ids
  have hcommands := h.commands
  have howes := h.outstanding
  rw [hsplit] at hnodup hids hcommands howes
  have hpending :
      ((s.settle p.id index).setHandle p.id r').pendingRequests =
        before ++ { p with requestHandle := some r' } :: after := by
    change update s.pendingRequests p.id _ = _
    rw [hsplit, update_middle hnodup]
  constructor
  · rw [hpending]
    simpa using hids
  · rw [hpending]
    change s.commands = _
    simpa using hcommands
  · rw [hpending]
    change (s.outstanding.erase (p.id, index)).Perm _
    have howed : p.owed = r.openHandles.map fun i => (p.id, i) := by
      rw [PendingRequest.owed, hhandle]
    have hinj : Function.Injective fun i : Nat => (p.id, i) := by
      intro i j hij
      exact (Prod.mk.inj hij).2
    have howed' : PendingRequest.owed { p with requestHandle := some r' } =
        p.owed.erase (p.id, index) := by
      change r'.openHandles.map _ = _
      rw [hr', howed, map_erase hinj]
    have hmem : (p.id, index) ∈ p.owed := by
      rw [howed]
      exact List.mem_map_of_mem hindex
    rw [flatMap_append, flatMap_cons] at howes ⊢
    rw [howed']
    have hfirst : (before.flatMap PendingRequest.owed ++
        (p.owed ++ after.flatMap PendingRequest.owed)).Perm
        ((p.id, index) :: (before.flatMap PendingRequest.owed ++
          (p.owed.erase (p.id, index) ++ after.flatMap PendingRequest.owed))) := by
      refine List.Perm.trans ?_ perm_middle
      apply List.Perm.append_left
      exact (perm_cons_erase hmem).append_right _
    exact (cons_perm_iff_perm_erase.mp (howes.trans hfirst).symm).2.symm
  · exact h.buffer
  · exact h.first
  · intro q hq
    change s.answersOf q.id = _
    rw [hpending] at hq
    rcases mem_middle hnodup hq with rfl | ⟨hq, -⟩
    · exact hanswers
    · exact h.pending q (hsplit ▸ hq)
  · exact h.later
  · exact h.written
  · exact h.closed
  · exact h.cancelled

theorem Open.onPoolResponse (h : Open n s) {id : Nat} (howed : (id, index) ∈ s.outstanding)
    (value : RespValue) :
    ∃ m s', (s.settle id index).onPoolResponse id index value = some s' ∧ Open m s' := by
  rw [h.outstanding.mem_iff, mem_flatMap] at howed
  obtain ⟨p, hp, hmem⟩ := howed
  cases h.proper p hp with
  | answered response hresponse hhandle =>
    rw [PendingRequest.owed, hhandle] at hmem
    cases hmem
  | waits r hresponse hhandle hwaits =>
    rw [PendingRequest.owed, hhandle] at hmem
    obtain ⟨i, hi, heq⟩ := List.mem_map.mp hmem
    obtain ⟨rfl, rfl⟩ := Prod.mk.inj heq
    obtain ⟨r', answer, hr', hopen, hcases⟩ := SplitRequest.onResponse_spec hwaits hi value
    have hnodup := h.nodup
    obtain ⟨before, after, hsplit⟩ := append_of_mem hp
    rw [hsplit] at hnodup
    have hfind : (s.settle p.id i).handleOf p.id = some r := by
      rw [handleOf, settle, hsplit, find_middle hnodup]
      exact hhandle
    have hbooks := h.setHandle hp hhandle hi hopen
    have hpending :
        ((s.settle p.id i).setHandle p.id r').pendingRequests =
          before ++ { p with requestHandle := some r' } :: after := by
      change update s.pendingRequests p.id _ = _
      rw [hsplit, update_middle hnodup]
    rw [ProxyFilter.onPoolResponse, hfind, bind_some, hr', bind_some]
    rcases hcases with ⟨rfl, hwaits'⟩ | ⟨⟨response, rfl⟩, hnil⟩
    · refine ⟨n, _, rfl, hbooks, ?_, ?_⟩
      · intro q hq
        rw [hpending] at hq
        rcases mem_middle hnodup hq with rfl | ⟨hq, -⟩
        · exact .waits r' hresponse rfl hwaits'
        · exact h.proper q (hsplit ▸ hq)
      · intro q hq
        rw [hpending, head?_append] at hq
        have hfront := h.front
        rw [hsplit, head?_append] at hfront
        cases hhead : before.head? with
        | none =>
          rw [hhead] at hq
          obtain rfl : _ = q := Option.some.inj hq
          exact hresponse
        | some q₀ =>
          rw [hhead] at hq hfront
          exact hfront q hq
    · have howed : PendingRequest.owed { p with requestHandle := some r' } = [] := by
        change r'.openHandles.map _ = []
        rw [hnil, map_nil]
      have hmem' : { p with requestHandle := some r' } ∈
          ((s.settle p.id i).setHandle p.id r').pendingRequests := by
        rw [hpending]
        exact mem_append_right _ mem_cons_self
      apply hbooks.onResponse hmem' hresponse howed
      intro q hq hne
      rw [hpending] at hq
      rcases mem_middle hnodup hq with rfl | ⟨hq, -⟩
      · exact absurd rfl hne
      · exact h.proper q (hsplit ▸ hq)

theorem cancelAll_eq {pending : List PendingRequest} (h : ∀ p ∈ pending, p.Proper) :
    cancelAll pending = some (pending.flatMap PendingRequest.owed) := by
  induction pending with
  | nil => rfl
  | cons p pending ih =>
    have hrest := ih fun q hq => h q (mem_cons_of_mem p hq)
    cases h p mem_cons_self with
    | waits r hresponse hhandle hwaits =>
      simp [cancelAll, hhandle, SplitRequest.cancel_eq hwaits, hrest, PendingRequest.owed]
    | answered value hresponse hhandle =>
      simp [cancelAll, hhandle, hrest, PendingRequest.owed]

theorem Books.outstanding_nodup (h : Books n s) : s.outstanding.Nodup := by
  rw [h.outstanding.nodup_iff, nodup_flatMap]
  refine ⟨?_, ?_⟩
  · intro p hp
    unfold PendingRequest.owed
    cases p.requestHandle with
    | none => exact nodup_nil
    | some r =>
      apply r.nodup_openHandles.map
      intro i j hij
      exact (Prod.mk.inj hij).2
  · have hids := pairwise_map.mp h.nodup
    apply hids.imp
    intro p q hne x hxp hxq
    have hfst : ∀ (p : PendingRequest) (x : Nat × Nat), x ∈ p.owed → x.1 = p.id := by
      intro p x hx
      unfold PendingRequest.owed at hx
      cases hhandle : p.requestHandle with
      | none =>
        rw [hhandle] at hx
        cases hx
      | some r =>
        rw [hhandle] at hx
        obtain ⟨i, -, rfl⟩ := List.mem_map.mp hx
        rfl
    exact hne ((hfst p x hxp).symm.trans (hfst q x hxq))

/-- The first `n` commands are answered once each, and their responses are what is written. -/
structure Written (n : Nat) (s : ProxyFilter) : Prop where
  first : ∀ id < n, ∃ value, s.answersOf id = [value]
  written : s.written = encodeAll ((List.range n).flatMap s.answersOf)
  once : ∀ id, (s.answersOf id).length ≤ 1
  commands : n ≤ s.commands

theorem Books.toWritten (h : Books n s) : Written n s := by
  have hcommands := h.commands
  refine ⟨h.first, h.written, ?_, by omega⟩
  intro id
  by_cases hfirst : id < n
  · obtain ⟨value, hvalue⟩ := h.first id hfirst
    rw [hvalue]
    exact Nat.le_refl 1
  · by_cases hlater : s.commands ≤ id
    · rw [h.later id hlater]
      exact Nat.zero_le 1
    · have hmem : id ∈ s.pendingRequests.map PendingRequest.id := by
        rw [h.ids, mem_range'_1]
        omega
      obtain ⟨p, hp, rfl⟩ := List.mem_map.mp hmem
      rw [h.pending p hp]
      cases p.pendingResponse <;> simp

theorem Open.complete (h : Open n s) (howed : s.outstanding = []) : n = s.commands := by
  have hcommands := h.commands
  have howes := h.outstanding
  rw [howed] at howes
  cases hpending : s.pendingRequests with
  | nil =>
    rw [hpending, length_nil] at hcommands
    omega
  | cons p rest =>
    have hp : p ∈ s.pendingRequests := hpending ▸ mem_cons_self
    have hfront : p.pendingResponse = none := h.front p (by rw [hpending]; rfl)
    cases h.proper p hp with
    | waits r hresponse hhandle hwaits =>
      exfalso
      apply SplitRequest.openHandles_ne_nil hwaits
      have hnil := flatMap_eq_nil_iff.mp (nil_perm.mp howes) p hp
      rw [PendingRequest.owed, hhandle] at hnil
      exact map_eq_nil_iff.mp hnil
    | answered value hresponse hhandle =>
      rw [hfront] at hresponse
      cases hresponse

theorem diff_self {α : Type} [BEq α] [LawfulBEq α] (l : List α) : l.diff l = [] := by
  induction l with
  | nil => rfl
  | cons a l ih => rw [diff_cons, erase_cons_head, ih]

theorem Open.onClose (h : Open n s) :
    ∃ s', s.onClose = some s' ∧ s'.closed = true ∧ s'.outstanding = [] ∧
      s'.cancelled.Perm s.outstanding ∧ s'.written = s.written ∧ s'.answers = s.answers ∧
      s'.commands = s.commands := by
  rw [ProxyFilter.onClose, cancelAll_eq h.proper, map_some]
  refine ⟨_, rfl, rfl, ?_, ?_, rfl, rfl, rfl⟩
  · change s.outstanding.diff _ = []
    rw [h.outstanding.symm.diff_left]
    exact diff_self s.outstanding
  · change (s.cancelled ++ _).Perm _
    rw [h.cancelled, nil_append]
    exact h.outstanding.symm

end Books

/-- The connection is open, or it is closed and the pool owes nothing. -/
def Inv (s : ProxyFilter) : Prop :=
  (∃ n, Open n s) ∨ (s.closed = true ∧ s.outstanding = [] ∧ ∃ n, Written n s)

variable {s s' : ProxyFilter}

theorem Written.congr {n : Nat} (h : Written n s) (hwritten : s'.written = s.written)
    (hanswers : s'.answers = s.answers) (hcommands : s'.commands = s.commands) : Written n s' := by
  have hof : s'.answersOf = s.answersOf := by
    funext id
    rw [answersOf, hanswers, answersOf]
  refine ⟨?_, ?_, ?_, ?_⟩
  · rw [hof]
    exact h.first
  · rw [hwritten, hof]
    exact h.written
  · rw [hof]
    exact h.once
  · rw [hcommands]
    exact h.commands

theorem inv_step {e : Event} (h : Inv s) (hpossible : Possible s e) :
    ∃ s', step s e = some s' ∧ Inv s' := by
  rcases h with ⟨n, h⟩ | ⟨hclosed, hnone, -⟩
  · cases e with
    | command available value =>
      obtain ⟨m, s', hs', hopen⟩ := h.onRespValue available value
      exact ⟨s', hs', .inl ⟨m, hopen⟩⟩
    | response id index value =>
      obtain ⟨m, s', hs', hopen⟩ := h.onPoolResponse hpossible value
      exact ⟨s', hs', .inl ⟨m, hopen⟩⟩
    | failure id index =>
      obtain ⟨m, s', hs', hopen⟩ :=
        h.onPoolResponse hpossible (makeError (ascii "upstream failure"))
      exact ⟨s', hs', .inl ⟨m, hopen⟩⟩
    | connection event =>
      obtain ⟨s', hs', hclosed, hnone, -, hwritten, hanswers, hcommands⟩ := h.onClose
      have hinv : Inv s' :=
        .inr ⟨hclosed, hnone, n, h.toBooks.toWritten.congr hwritten hanswers hcommands⟩
      cases event with
      | connected => exact ⟨s, rfl, .inl ⟨n, h⟩⟩
      | remoteClose | localClose => exact ⟨s', hs', hinv⟩
  · cases e with
    | command available value =>
      change s.closed = false at hpossible
      rw [hclosed] at hpossible
      cases hpossible
    | response id index value =>
      change (id, index) ∈ s.outstanding at hpossible
      rw [hnone] at hpossible
      cases hpossible
    | failure id index =>
      change (id, index) ∈ s.outstanding at hpossible
      rw [hnone] at hpossible
      cases hpossible
    | connection event =>
      change s.closed = false at hpossible
      rw [hclosed] at hpossible
      cases hpossible

def Event.isCommand : Event → Bool
  | .command _ _ => true
  | _ => false

theorem commands_writeAnswered (s : ProxyFilter) : s.writeAnswered.commands = s.commands := by
  simp only [writeAnswered]
  split <;> rfl

variable {id : Nat}

theorem commands_onResponse {value : RespValue} (h : s.onResponse id value = some s') :
    s'.commands = s.commands := by
  unfold onResponse at h
  split at h
  · cases h
  · split at h
    · cases h
      exact commands_writeAnswered _
    · cases h

theorem commands_respond {values : List RespValue} (h : s.respond id values = some s') :
    s'.commands = s.commands := by
  induction values generalizing s with
  | nil =>
    cases h
    rfl
  | cons value values ih =>
    obtain ⟨s₁, hs₁, hs'⟩ := bind_eq_some_iff.mp h
    rw [ih hs', commands_onResponse hs₁]

theorem commands_storeHandle {r : Option SplitRequest} (h : s.storeHandle id r = some s') :
    s'.commands = s.commands := by
  cases r with
  | none =>
    cases h
    rfl
  | some r =>
    simp only [storeHandle] at h
    split at h
    · cases h
      rfl
    · cases h

theorem commands_onSplit {result : SplitRequest × Option RespValue}
    (h : s.onSplit id result = some s') : s'.commands = s.commands := by
  obtain ⟨r, answer⟩ := result
  cases answer with
  | none =>
    cases h
    rfl
  | some value => exact commands_onResponse (s := s.setHandle id r) h

theorem commands_step {e : Event} (h : step s e = some s') :
    s'.commands = s.commands + [e].countP Event.isCommand := by
  cases e with
  | command available value =>
    obtain ⟨made, -, hmade⟩ := bind_eq_some_iff.mp h
    obtain ⟨s₁, hs₁, hs'⟩ := bind_eq_some_iff.mp hmade
    rw [commands_storeHandle hs', commands_respond hs₁]
    rfl
  | response | failure =>
    obtain ⟨r, -, hr⟩ := bind_eq_some_iff.mp h
    obtain ⟨result, -, hs'⟩ := bind_eq_some_iff.mp hr
    rw [commands_onSplit hs']
    rfl
  | connection event =>
    cases event with
    | connected =>
      cases h
      rfl
    | remoteClose | localClose =>
      obtain ⟨cancelled, -, rfl⟩ := map_eq_some_iff.mp h
      rfl

/-- Every run goes through, keeps the invariant and counts the commands. -/
theorem run_inv {es : List Event} (h : Inv s) (hmeet : AllMeet step Possible s es) :
    ∃ s', run step s es = some s' ∧ Inv s' ∧ s'.commands = s.commands + es.countP Event.isCommand := by
  induction es generalizing s with
  | nil => exact ⟨s, rfl, h, rfl⟩
  | cons e es ih =>
    obtain ⟨s₁, hs₁, h₁⟩ := inv_step h hmeet.1
    obtain ⟨s', hs', h', hcount⟩ := ih h₁ (hmeet.2 s₁ hs₁)
    refine ⟨s', ?_, h', ?_⟩
    · rw [run, hs₁]
      exact hs'
    · rw [hcount, commands_step hs₁, Nat.add_assoc, ← countP_append]
      rfl

/-- What is written is the responses of the first commands, one for each and in their order;
nothing is missing when the pool owes nothing; and the close of the connection cancels every
pool request once, after which nothing can happen. -/
theorem responses_in_order (es : List Event) (h : AllMeet step Possible create es) :
    ∃ s, run step create es = some s ∧ s.commands = es.countP Event.isCommand ∧
      (∀ id, (s.answersOf id).length ≤ 1) ∧
      (∃ n ≤ s.commands, (∀ id < n, ∃ value, s.answersOf id = [value]) ∧
        s.written = encodeAll ((List.range n).flatMap s.answersOf) ∧
        (s.closed = false → s.outstanding = [] → n = s.commands)) ∧
      ∀ event, event ≠ .connected → s.closed = false →
        s.outstanding.Nodup ∧ ∃ s', step s (.connection event) = some s' ∧
          s'.cancelled.Perm s.outstanding ∧ s'.written = s.written ∧ ∀ e, ¬ Possible s' e := by
  obtain ⟨s, hrun, hinv, hcount⟩ := run_inv (.inl ⟨0, open_create⟩) h
  refine ⟨s, hrun, ?_, ?_⟩
  · rw [hcount]
    exact Nat.zero_add _
  rcases hinv with ⟨n, hopen⟩ | ⟨hclosed, hnone, n, hwritten⟩
  · have hwritten := hopen.toBooks.toWritten
    refine ⟨hwritten.once, ⟨n, hwritten.commands, hwritten.first, hwritten.written, ?_⟩, ?_⟩
    · intro _ hnone
      exact hopen.complete hnone
    · intro event hevent _
      obtain ⟨s', hs', hclosed, hnone, hcancelled, hsame, -⟩ := hopen.onClose
      refine ⟨hopen.outstanding_nodup, s', ?_, hcancelled, hsame, ?_⟩
      · cases event with
        | connected => exact absurd rfl hevent
        | remoteClose | localClose => exact hs'
      · intro e
        cases e <;> simp [Possible, hclosed, hnone]
  · refine ⟨hwritten.once, ⟨n, hwritten.commands, hwritten.first, hwritten.written, ?_⟩, ?_⟩
    · intro hopen
      rw [hclosed] at hopen
      cases hopen
    · intro event _ hopen
      rw [hclosed] at hopen
      cases hopen

/-- An `mget` whose second key is answered first, and behind it a `get` without a host. -/
def pipelined : List Event :=
  [.command (fun _ => true) (commandOf [ascii "mget", [97], [98]]),
   .command (fun _ => false) (commandOf [ascii "get", [97]]),
   .response 0 1 (.bulkString [98]),
   .failure 0 0]

theorem pipelined_in_order : AllMeet step Possible create pipelined ∧
      ∃ s, run step create pipelined = some s ∧ s.commands = 2 ∧
        ∀ id, (s.answersOf id).length ≤ 1 := by
  have hmeet : AllMeet step Possible create pipelined := by decide +kernel
  obtain ⟨s, hrun, hcommands, honce, -⟩ := responses_in_order pipelined hmeet
  exact ⟨hmeet, s, hrun, hcommands, honce⟩

end ProxyFilter

end Meliproxy.Envoy.Redis
