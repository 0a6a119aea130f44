import Bookbinder.Proofs.FreshIds
import Mathlib.Data.Finset.Card
/-!
# How long a free name is searched for

The search for a free name goes from one candidate to the next and has no end of its own (`Search`).  It ends because no
two candidates are the same and only so many names are in use (`exists_search`); the bound that `firstFree` is given is
never what ends it (`Search.firstFree_eq`).
-/
namespace Bookbinder

open Xml (Element)

namespace IdLedger

/-- A search from one attempt on that ends with another: it goes on as long as the candidate is not free. -/
inductive Search (free : String → Bool) (name : Nat → String) : Nat → Nat → Prop
  | found {a : Nat} (h : free (name a) = true) : Search free name a a
  | next {a k : Nat} (h : free (name a) = false) (rest : Search free name (a + 1) k) : Search free name a k

/-! ## One search -/

section Search

variable {free : String → Bool} {name : Nat → String} {a k n : Nat}

theorem Search.le (h : Search free name a k) : a ≤ k := by
  induction h with
  | found => exact Nat.le_refl _
  | next _ _ ih => exact Nat.le_of_succ_le ih

/-- A search ends with a free candidate that is ahead of it, if not before. -/
theorem exists_search_of_free (h : free (name (a + n)) = true) : ∃ k ≤ a + n, Search free name a k := by
  induction n generalizing a with
  | zero => exact ⟨a, Nat.le_refl _, .found h⟩
  | succ n ih =>
    cases hf : free (name a) with
    | true => exact ⟨a, Nat.le_add_right _ _, .found hf⟩
    | false =>
      have hshift : a + 1 + n = a + (n + 1) := by omega
      obtain ⟨k, hk, hsearch⟩ := ih (hshift ▸ h)
      exact ⟨k, hshift ▸ hk, .next hf hsearch⟩

/-- **Where all names differ, a search ends after at most one more attempt than there are names in use.** -/
theorem exists_search (hname : Function.Injective name) {used : Finset String}
    (hused : ∀ s, free s = false → s ∈ used) : ∃ k, k + 1 ≤ used.card + 1 ∧ Search free name 0 k := by
  -- Of the first candidates, one more than there are names in use, one is not among these.
  obtain ⟨n, hn, hunused⟩ := exists_notMem_of_injective (fun _ _ h => hname h) used.toList
  rw [Finset.length_toList] at hn
  rw [Finset.mem_toList] at hunused
  have hfree : free (name (0 + n)) = true := by
    rw [Nat.zero_add]
    by_contra hf
    exact hunused (hused _ (Bool.eq_false_iff.2 hf))
  obtain ⟨k, hk, hsearch⟩ := exists_search_of_free hfree
  exact ⟨k, by omega, hsearch⟩

/-- A bound that is not reached does not show in what is found. -/
theorem Search.firstFree_eq (h : Search free name a k) (hbound : k ≤ a + n) : firstFree free name a n = name k := by
  induction h generalizing n with
  | found h =>
    cases n with
    | zero => rfl
    | succ n => rw [firstFree, if_pos h]
  | next h rest ih =>
    have hlt := rest.le
    cases n with
    | zero => omega
    | succ n =>
      rw [firstFree, if_neg (by rw [h]; exact Bool.false_ne_true)]
      exact ih (by omega)

end Search

/-! ## The searches of an occurrence -/

section Occurrence

variable (l : IdLedger) (others : List String) (duplicate : Option Nat) (step : Nat) (originals : List String)

/-- What may be in the way of a name: what is taken, recorded elsewhere or given to another id of the occurrence, and
the occurrence's own ids. -/
def inUse (assigned : List String) : Finset String :=
  (l.taken ++ others ++ assigned ++ originals).toFinset

/-- The search for the name of an id when some names are given already. -/
def SearchFor (assigned : List String) (old : String) (k : Nat) : Prop :=
  Search (l.isFree others duplicate originals assigned old) (candidate (withDuplicate old duplicate) step) 0 k

theorem exists_searchFor (assigned : List String) (old : String) :
    ∃ k, k + 1 ≤ (l.inUse others originals assigned).card + 1 ∧
      l.SearchFor others duplicate step originals assigned old k :=
  exists_search (fun _ _ => candidate_injective _ _) fun _ h => List.mem_toFinset.2 (mem_of_isFree_eq_false h)

theorem card_inUse_le (assigned : List String) : (l.inUse others originals assigned).card
    ≤ l.taken.length + others.length + assigned.length + originals.length := by
  refine (List.toFinset_card_le _).trans_eq ?_
  rw [List.length_append, List.length_append, List.length_append]

theorem exists_assign_eq_append : ∀ (olds : List String) (given : List (String × String)),
    ∃ rest, l.assign others duplicate step originals olds given = given ++ rest
  | [], given => ⟨[], by rw [assign, List.append_nil]⟩
  | old :: olds, given => by
    rw [assign]
    obtain ⟨rest, hrest⟩ := exists_assign_eq_append olds (given ++ [_])
    exact ⟨_, hrest.trans (List.append_assoc _ _ _)⟩

/-- **Each id is given the name that its search ends with.** -/
theorem exists_searchFor_of_mem : ∀ (olds : List String) (given : List (String × String)), ∀ old ∈ olds,
    ∃ before name after k, l.assign others duplicate step originals olds given = before ++ (old, name) :: after ∧
      l.SearchFor others duplicate step originals (before.map (·.2)) old k ∧
      k + 1 ≤ (l.inUse others originals (before.map (·.2))).card + 1 ∧
      name = candidate (withDuplicate old duplicate) step k
  | [], _ => fun _ h => absurd h List.not_mem_nil
  | o :: olds, given => by
    intro old hold
    rw [assign]
    rcases List.mem_cons.1 hold with rfl | hold
    · -- The bound of `assign` counts a name as often as it is listed, so that it is not reached either.
      obtain ⟨k, hk, hsearch⟩ := exists_searchFor l others duplicate step originals (given.map (·.2)) old
      have hbound := card_inUse_le l others originals (given.map (·.2))
      obtain ⟨rest, hrest⟩ := exists_assign_eq_append l others duplicate step originals olds (given ++ [_])
      exact ⟨given, _, rest, k, hrest.trans (List.append_assoc _ _ _), hsearch, hk, hsearch.firstFree_eq (by omega)⟩
    · exact exists_searchFor_of_mem olds _ old hold

/-- **Every search for a name ends, and soon enough.**  The candidates for an id all differ.  So whatever a ledger holds
and whatever the document, each id below the root is given a name by a search that ends: it goes on from candidate to
candidate until one is free, and takes at most one more attempt than there are texts in what is taken, what is recorded
for other topics, the names that the occurrence has given before and the document's own ids taken together. -/
theorem searches_end (topicId : Int) (root : Element) :
    (∀ base, Function.Injective (candidate base step)) ∧
    ∀ old ∈ innerIds root, ∃ before name after k,
      l.namesFor topicId duplicate step root = before ++ (old, name) :: after ∧
      l.SearchFor (l.elsewhere topicId) duplicate step (innerIds root) (before.map (·.2)) old k ∧
      k + 1 ≤ (l.inUse (l.elsewhere topicId) (innerIds root) (before.map (·.2))).card + 1 ∧
      name = candidate (withDuplicate old duplicate) step k := by
  refine ⟨fun base _ _ h => candidate_injective base step h, fun old hold => ?_⟩
  exact exists_searchFor_of_mem l _ duplicate step _ _ [] old (List.mem_eraseDups.2 hold)

end Occurrence

/-- A ledger in which an id is taken, and what it would be with its step is recorded for another topic. -/
def crowded : IdLedger where
  recorded := [(2, "intro-3")]
  taken := ["intro"]

def introduction : Element := ⟨"section", [], [.element "para" [("id", "intro")] []]⟩

/-- Where two names are in the way, the third attempt is the last. -/
theorem searches_end_of_crowded : "intro" ∈ innerIds introduction ∧ ∃ k,
    crowded.SearchFor (crowded.elsewhere 1) none 3 ["intro"] [] "intro" k ∧ k + 1 ≤ 3 ∧
      candidate "intro" 3 k = "intro-3-1" := by
  have hmem : "intro" ∈ innerIds introduction := by decide
  have hnames : crowded.namesFor 1 none 3 introduction = [("intro", "intro-3-1")] := by decide +kernel
  obtain ⟨-, hends⟩ := searches_end crowded none 3 1 introduction
  obtain ⟨before, name, after, k, hsplit, hsearch, hk, hname⟩ := hends "intro" hmem
  rw [hnames] at hsplit
  cases before with
  | nil =>
    cases hsplit
    exact ⟨hmem, k, hsearch, hk, hname.symm⟩
  | cons n before =>
    have hlength := congrArg List.length hsplit
    simp at hlength

end IdLedger
end Bookbinder
