import Mathlib.Data.List.Induction
import Mathlib.Tactic.Ring

/-!
# Tries

A table from words to values: a node has the value of the word that leads to it and a child
for each letter. `find_ofList` says that a table built word by word is the list it was built
from, searched from its end.
-/

namespace Lib

open List Option

inductive Trie (α β : Type) where
  | node (value : Option β) (children : α → Option (Trie α β))

namespace Trie

variable {α β : Type}

def value : Trie α β → Option β
  | .node value _ => value

def children : Trie α β → α → Option (Trie α β)
  | .node _ children => children

def root : Trie α β := .node none fun _ => none

def find : List α → Trie α β → Option β
  | [], t => t.value
  | a :: as, t => (t.children a).bind fun child => find as child

theorem find_root (word : List α) : find word (root : Trie α β) = none := by
  cases word <;> rfl

variable [DecidableEq α]

def add (b : β) : List α → Trie α β → Trie α β
  | [], t => .node (some b) t.children
  | a :: as, t =>
    .node t.value (Function.update t.children a (some (add b as ((t.children a).getD root))))

variable (entries : List (List α × β))

def ofList : Trie α β :=
  entries.foldl (fun t entry => t.add entry.2 entry.1) root

theorem find_add (b : β) (word word' : List α) (t : Trie α β) :
    find word' (t.add b word) = if word' = word then some b else find word' t := by
  induction word generalizing word' t with
  | nil =>
    cases word' with
    | nil => rfl
    | cons a as => rw [if_neg (cons_ne_nil a as)]; rfl
  | cons c cs ih =>
    obtain ⟨value, children⟩ := t
    cases word' with
    | nil => rw [if_neg (cons_ne_nil c cs).symm]; rfl
    | cons a as =>
      by_cases ha : a = c
      · subst ha
        simp only [add, find, Trie.children, Function.update_self, bind_some, ih,
          List.cons.injEq, true_and]
        cases children a with
        | none => rw [getD_none, find_root, bind_none]
        | some child => rfl
      · simp [add, find, Trie.children, ha]

theorem find_ofList (word : List α) : find word (ofList entries) =
      (entries.reverse.find? fun entry => entry.1 = word).map Prod.snd := by
  induction entries using List.reverseRecOn with
  | nil => exact find_root word
  | append_singleton entries entry ih =>
    rw [ofList, foldl_append, foldl_cons, foldl_nil, ← ofList, find_add, ih,
      reverse_append, reverse_singleton, singleton_append, find?_cons]
    by_cases hword : word = entry.1
    · simp [hword]
    · rw [if_neg hword, decide_eq_false fun h => hword h.symm]

end Trie

theorem find_reverse {α : Type} {p : α → Bool} {l : List α} (hone : ∀ a ∈ l, ∀ b ∈ l, p a = true →
    p b = true → a = b) : l.reverse.find? p = l.find? p := by
  cases hfind : l.find? p with
  | none =>
    rw [find?_eq_none] at hfind ⊢
    exact fun a ha => hfind a (mem_reverse.mp ha)
  | some a =>
    have ha := mem_of_find?_eq_some hfind
    cases hback : l.reverse.find? p with
    | none =>
      exact absurd (find?_some hfind) (find?_eq_none.mp hback a (mem_reverse.mpr ha))
    | some b =>
      have hb := mem_reverse.mp (mem_of_find?_eq_some hback)
      rw [hone a ha b hb (find?_some hfind) (find?_some hback)]

end Lib
