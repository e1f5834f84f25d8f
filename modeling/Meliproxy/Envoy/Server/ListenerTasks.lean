import Meliproxy.Envoy.Server.ListenerRequests
import Meliproxy.Lib.Count
import Mathlib.Data.List.GetD

/-!
# The tasks of the workers

`stream` is what a worker still has to tell the main thread: the results on their way, then the tasks
it has not done. A worker only moves a task along its stream. About one listener a stream holds its
addition at most, and its removal exactly if the drain sequence has completed and the worker has not
confirmed it. So a post always finds its listener.
-/

namespace Meliproxy.Envoy.Server

open Lib List

variable {Name Address Body : Type}

def Task.listenerTag : Task → Nat
  | .addListener listenerTag => listenerTag
  | .removeListener listenerTag => listenerTag

namespace ListenerManager

variable (s : ListenerManager Name Address Body)

def warmingTags : List Nat :=
  s.warming.map ListenerImpl.listenerTag

def closingTags : List Nat :=
  (s.draining.filter fun d => !d.draining).map fun d => d.listener.listenerTag

def stream (worker : Nat) : List Task :=
  (s.posts.filter fun post => post.worker = worker).map Post.task ++ s.workers.getD worker []

def about (worker listenerTag : Nat) : List Task :=
  (s.stream worker).filter fun task => task.listenerTag = listenerTag

def removing (worker listenerTag : Nat) : List Task :=
  if listenerTag ∈ s.closingTags ∧ (worker, listenerTag) ∉ s.confirmed then
    [.removeListener listenerTag]
  else []

def pendingWorkers (listenerTag : Nat) : Nat :=
  (List.range s.workers.length).countP fun worker => (worker, listenerTag) ∉ s.confirmed

structure Flow (s : ListenerManager Name Address Body) : Prop where
  posts : ∀ post ∈ s.posts, post.worker < s.workers.length
  tasks : ∀ worker < s.workers.length, ∀ listenerTag,
    s.about worker listenerTag = s.removing worker listenerTag ∨
    (s.workersStarted = true ∧ listenerTag ∈ s.activeTags ++ s.drainingTags ∧
      (worker, listenerTag) ∉ s.confirmed ∧
      s.about worker listenerTag = .addListener listenerTag :: s.removing worker listenerTag)
  confirmed : ∀ worker listenerTag, (worker, listenerTag) ∈ s.confirmed →
    listenerTag ∈ s.closingTags ++ s.destroyed

/-- The counts of a draining listener. It is destroyed after the last confirmation. -/
structure Counted (s : ListenerManager Name Address Body) : Prop where
  workers : 0 < s.workers.length
  pending : ∀ d ∈ s.draining, d.workersPendingRemoval = s.pendingWorkers d.listener.listenerTag ∧
    0 < d.workersPendingRemoval
  destroyed : ∀ listenerTag ∈ s.destroyed, ∀ worker < s.workers.length,
    (worker, listenerTag) ∈ s.confirmed

variable {s s' : ListenerManager Name Address Body} {worker listenerTag : Nat} {tasks : List Task}

theorem mem_closingTags : listenerTag ∈ s.closingTags ↔
      ∃ d ∈ s.draining, d.draining = false ∧ d.listener.listenerTag = listenerTag := by
  simp [closingTags, and_assoc]

theorem about_eq_nil (h : s.Flow) (hworker : worker < s.workers.length)
    (hclosing : listenerTag ∉ s.closingTags)
    (hquiet : s.workersStarted = true → listenerTag ∉ s.activeTags ++ s.drainingTags) :
    s.about worker listenerTag = [] := by
  have hremoving : s.removing worker listenerTag = [] := if_neg fun hboth => hclosing hboth.1
  rcases h.tasks worker hworker listenerTag with habout | ⟨hstarted, hmem, -⟩
  · rw [habout, hremoving]
  · exact absurd hmem (hquiet hstarted)

theorem about_append (hposts : s'.posts = s.posts)
    (hworkers : s'.workers = s.workers.map (· ++ tasks)) (hworker : worker < s.workers.length) :
    s'.about worker listenerTag =
      s.about worker listenerTag ++ tasks.filter fun task => task.listenerTag = listenerTag := by
  have hlater : s'.workers.getD worker [] = s.workers.getD worker [] ++ tasks := by
    rw [hworkers, getD_eq_getElem _ _ (by simpa using hworker),
      getD_eq_getElem _ _ hworker, getElem_map]
  rw [about, about, stream, stream, hposts, hlater, ← append_assoc, filter_append]

theorem Flow.advance (h : s.Flow) (hworkers : s'.workers = s.workers.map (· ++ tasks))
    (hposts : s'.posts = s.posts) (hconfirmed : s'.confirmed = s.confirmed)
    (hdestroyed : s'.destroyed = s.destroyed) (hclosing : s'.closingTags = s.closingTags)
    (hstarted : s.workersStarted = true → s'.workersStarted = true)
    (hlive : s.workersStarted = true → ∀ listenerTag ∈ s.activeTags ++ s.drainingTags,
      listenerTag ∈ s'.activeTags ++ s'.drainingTags)
    (hadded : ∀ listenerTag, tasks.filter (fun task => task.listenerTag = listenerTag) = [] ∨
      tasks.filter (fun task => task.listenerTag = listenerTag) = [.addListener listenerTag] ∧
      s'.workersStarted = true ∧ listenerTag ∈ s'.activeTags ++ s'.drainingTags ∧
      listenerTag ∉ s.closingTags ++ s.destroyed ∧
      (s.workersStarted = true → listenerTag ∉ s.activeTags ++ s.drainingTags)) : s'.Flow := by
  have hlength : s'.workers.length = s.workers.length := by rw [hworkers, length_map]
  have hremoving (worker listenerTag : Nat) :
      s'.removing worker listenerTag = s.removing worker listenerTag := by
    rw [removing, removing, hclosing, hconfirmed]
  refine ⟨?_, fun worker hworker listenerTag => ?_, ?_⟩
  · rw [hposts, hlength]
    exact h.posts
  · rw [hlength] at hworker
    rw [about_append hposts hworkers hworker, hremoving, hconfirmed]
    rcases hadded listenerTag with hnone | ⟨hadd, hstarted', hmem, hnew, hquiet⟩
    · rw [hnone, append_nil]
      rcases h.tasks worker hworker listenerTag with habout | ⟨hs, hmem, hunconfirmed, habout⟩
      · exact .inl habout
      · exact .inr ⟨hstarted hs, hlive hs listenerTag hmem, hunconfirmed, habout⟩
    · have hnotClosing : listenerTag ∉ s.closingTags := fun hmem =>
        hnew (mem_append_left _ hmem)
      have hnone : s.removing worker listenerTag = [] := if_neg fun hboth => hnotClosing hboth.1
      rw [about_eq_nil h hworker hnotClosing hquiet, hadd, hnone]
      exact .inr ⟨hstarted', hmem, fun hconfirmed => hnew (h.confirmed worker _ hconfirmed), rfl⟩
  · rw [hconfirmed, hclosing, hdestroyed]
    exact h.confirmed

theorem pendingWorkers_congr (hworkers : s'.workers.length = s.workers.length)
    (hconfirmed : s'.confirmed = s.confirmed) :
    s'.pendingWorkers listenerTag = s.pendingWorkers listenerTag := by
  rw [pendingWorkers, pendingWorkers, hworkers, hconfirmed]

theorem pendingWorkers_eq_length (hunconfirmed : ∀ worker, (worker, listenerTag) ∉ s.confirmed) :
    s.pendingWorkers listenerTag = s.workers.length := by
  rw [pendingWorkers, countP_eq_length.mpr fun worker _ => by simpa using hunconfirmed worker,
    length_range]

theorem Counted.advance (h : s.Counted) (hworkers : s'.workers.length = s.workers.length)
    (hconfirmed : s'.confirmed = s.confirmed) (hdestroyed : s'.destroyed = s.destroyed)
    (hdraining : ∀ d ∈ s'.draining,
      (∃ before ∈ s.draining, before.listener.listenerTag = d.listener.listenerTag ∧
        before.workersPendingRemoval = d.workersPendingRemoval) ∨
      (d.workersPendingRemoval = s.workers.length ∧
        ∀ worker, (worker, d.listener.listenerTag) ∉ s.confirmed)) : s'.Counted := by
  refine ⟨hworkers ▸ h.workers, fun d hd => ?_, ?_⟩
  · rw [pendingWorkers_congr hworkers hconfirmed]
    rcases hdraining d hd with ⟨before, hbefore, htag, hpending⟩ | ⟨hpending, hunconfirmed⟩
    · rw [← htag, ← hpending]
      exact h.pending before hbefore
    · rw [pendingWorkers_eq_length hunconfirmed, hpending]
      exact ⟨rfl, h.workers⟩
  · rw [hdestroyed, hworkers, hconfirmed]
    exact h.destroyed

theorem runWorker_cases (s : ListenerManager Name Address Body) (worker : Nat) (success : Bool) :
    s.runWorker worker success = s ∨
    ∃ task rest, s.workers[worker]? = some (task :: rest) ∧ s.runWorker worker success =
      { s with workers := s.workers.set worker rest, posts := s.posts ++ [⟨worker, task, success⟩] } := by
  rw [runWorker]
  split
  · rename_i task rest hworker
    split
    · exact .inr ⟨task, rest, hworker, rfl⟩
    · exact .inl rfl
  · exact .inl rfl

theorem stream_runWorker {task : Task} {rest : List Task} {success : Bool}
    (hworker : s.workers[worker]? = some (task :: rest)) (other : Nat) :
    ({ s with workers := s.workers.set worker rest, posts := s.posts ++ [⟨worker, task, success⟩] } :
      ListenerManager Name Address Body).stream other = s.stream other := by
  obtain ⟨hlt, hget⟩ := List.getElem?_eq_some_iff.mp hworker
  rw [stream, stream, filter_append, map_append]
  by_cases hother : other = worker
  · subst hother
    rw [getD_eq_getElem _ _ (by simpa using hlt), getD_eq_getElem _ _ hlt, hget, getElem_set_self]
    simp
  · have hne : worker ≠ other := fun heq => hother heq.symm
    simp [getD_eq_getElem?_getD, getElem?_set_ne hne, hne]

theorem Flow.runWorker (h : s.Flow) (worker : Nat) (success : Bool) :
    (s.runWorker worker success).Flow := by
  rcases runWorker_cases s worker success with heq | ⟨task, rest, hworker, heq⟩
  · rw [heq]
    exact h
  · obtain ⟨hlt, -⟩ := List.getElem?_eq_some_iff.mp hworker
    rw [heq]
    refine ⟨fun post hpost => ?_, fun other hother listenerTag => ?_, h.confirmed⟩
    · rw [length_set]
      rcases mem_append.mp hpost with hpost | hpost
      · exact h.posts post hpost
      · rw [mem_singleton.mp hpost]
        exact hlt
    · rw [length_set] at hother
      rw [about, stream_runWorker hworker]
      exact h.tasks other hother listenerTag

theorem Counted.runWorker (h : s.Counted) (worker : Nat) (success : Bool) :
    (s.runWorker worker success).Counted := by
  rcases runWorker_cases s worker success with heq | ⟨task, rest, -, heq⟩
  · rw [heq]
    exact h
  · rw [heq]
    exact h.advance (length_set ..) rfl rfl fun d hd => .inl ⟨d, hd, rfl, rfl⟩

end ListenerManager

end Meliproxy.Envoy.Server
