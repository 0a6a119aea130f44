import Bookbinder.Proofs.NumberedNames
import Bookbinder.Proofs.XmlTrees
import Mathlib.Data.List.Nodup
/-!
# The ids that a ledger hands out

`IdLedger.assign` gives every id of an occurrence a name that nothing else has: the attempts of `firstFree` are more
than the names that can be in their way, so one of them is free (`isFree_firstFree`).  What holds of one name is
carried through the whole occurrence by `Fresh`.  A renamed document's ids are the names of the ids it had
(`innerIds_enforce`).
-/
namespace Bookbinder

open Xml (Element Node)

theorem nodup_eraseDups {α : Type} [DecidableEq α] (l : List α) : l.eraseDups.Nodup := by
  generalize hn : l.length = n
  induction n using Nat.strongRecOn generalizing l with
  | ind n ih =>
    cases l with
    | nil => exact List.nodup_nil
    | cons a as =>
      rw [List.eraseDups_cons, List.nodup_cons]
      have hlen : (as.filter fun b => !b == a).length < n := by
        have := List.length_filter_le (fun b => !b == a) as
        rw [List.length_cons] at hn
        omega
      refine ⟨fun hm => ?_, ih _ hlen _ rfl⟩
      rw [List.mem_eraseDups, List.mem_filter] at hm
      simpa using hm.2

/-- Of more names than there are in use one is not in use. -/
theorem exists_notMem_of_injective {name : Nat → String} (hname : ∀ i k, name i = name k → i = k)
    (used : List String) : ∃ n ≤ used.length, name n ∉ used := by
  by_contra hnone
  have hall : ∀ s ∈ (List.range (used.length + 1)).map name, s ∈ used := by
    intro s hs
    obtain ⟨i, hi, rfl⟩ := List.mem_map.1 hs
    by_contra hunused
    exact hnone ⟨i, Nat.le_of_lt_succ (List.mem_range.1 hi), hunused⟩
  have hnodup : ((List.range (used.length + 1)).map name).Nodup := List.nodup_range.map hname
  have hle := hnodup.length_le_of_subset hall
  rw [List.length_map, List.length_range] at hle
  omega

namespace IdLedger

/-! ## One name -/

theorem exists_firstFree_eq (free : String → Bool) (name : Nat → String) : ∀ (n a : Nat), ∃ k ≤ n,
    firstFree free name a n = name (a + k) ∧ (∀ i < k, free (name (a + i)) = false) ∧
      (free (name (a + k)) = true ∨ k = n)
  | 0, a => ⟨0, Nat.le_refl _, rfl, fun _ hi => absurd hi (Nat.not_lt_zero _), .inr rfl⟩
  | n + 1, a => by
    rw [firstFree]
    by_cases hf : free (name a) = true
    · rw [if_pos hf]
      exact ⟨0, Nat.zero_le _, rfl, fun _ hi => absurd hi (Nat.not_lt_zero _), .inl hf⟩
    · rw [if_neg hf]
      obtain ⟨k, hk, he, hb, hl⟩ := exists_firstFree_eq free name n (a + 1)
      have hshift (i : Nat) : a + 1 + i = a + (i + 1) := by omega
      rw [hshift] at he hl
      refine ⟨k + 1, by omega, he, fun i hi => ?_, hl.imp_right (by omega)⟩
      cases i with
      | zero => exact Bool.eq_false_iff.2 hf
      | succ i => exact hshift i ▸ hb i (by omega)

/-- **Where all names differ, one of more attempts than there are names in use is free.** -/
theorem free_firstFree {free : String → Bool} {name : Nat → String} {used : List String}
    (hname : ∀ i k, name i = name k → i = k) (hused : ∀ s, free s = false → s ∈ used) :
    free (firstFree free name 0 used.length) = true := by
  obtain ⟨k, hk, he, hb, hl⟩ := exists_firstFree_eq free name used.length 0
  rw [he]
  rcases hl with hf | rfl
  · exact hf
  · -- If none were free, the name that is not in use would be.
    by_contra hf
    obtain ⟨n, hn, hunused⟩ := exists_notMem_of_injective hname used
    refine hunused (hused _ ?_)
    rcases Nat.lt_or_ge n used.length with h | h
    · exact Nat.zero_add n ▸ hb n h
    · have hlast : n = 0 + used.length := by omega
      exact Bool.eq_false_iff.2 (hlast ▸ hf)

theorem mem_of_isFree_eq_false {l : IdLedger} {others originals assigned : List String} {duplicate : Option Nat}
    {old s : String} (h : l.isFree others duplicate originals assigned old s = false) :
    s ∈ l.taken ++ others ++ assigned ++ originals := by
  simp only [isFree, Bool.and_eq_false_iff, Bool.not_eq_false', Bool.and_eq_true, List.contains_iff_mem] at h
  simp only [List.mem_append]
  rcases h with ((h | h) | h) | h
  · exact .inl (.inl (.inl h))
  · exact .inl (.inl (.inr h))
  · exact .inl (.inr h)
  · exact .inr h.2

/-- **The name that is found for an id is free.** -/
theorem isFree_firstFree (l : IdLedger) (others originals assigned : List String) (duplicate : Option Nat)
    (step : Nat) (old : String) :
    l.isFree others duplicate originals assigned old
      (firstFree (l.isFree others duplicate originals assigned old) (candidate (withDuplicate old duplicate) step) 0
        (l.taken.length + others.length + assigned.length + originals.length)) = true := by
  have hlen : l.taken.length + others.length + assigned.length + originals.length
      = (l.taken ++ others ++ assigned ++ originals).length := by
    rw [List.length_append, List.length_append, List.length_append]
  rw [hlen]
  exact free_firstFree (fun _ _ => candidate_injective _ _) (fun _ => mem_of_isFree_eq_false)

theorem notMem_of_isFree {l : IdLedger} {others originals assigned : List String} {duplicate : Option Nat}
    {old s : String} (h : l.isFree others duplicate originals assigned old s = true) :
    s ∉ l.taken ∧ s ∉ others ∧ s ∉ assigned := by
  simp only [isFree, Bool.and_eq_true, Bool.not_eq_true', ← Bool.not_eq_true, List.contains_iff_mem] at h
  exact ⟨h.1.1.1, h.1.1.2, h.1.2⟩

/-! ## All names of an occurrence -/

/-- Names that differ from each other, from what is taken and from what is recorded elsewhere. -/
structure Fresh (l : IdLedger) (others : List String) (given : List (String × String)) : Prop where
  nodup : (given.map (·.2)).Nodup
  notMem_taken : ∀ n ∈ given, n.2 ∉ l.taken
  notMem_others : ∀ n ∈ given, n.2 ∉ others

theorem Fresh.nil (l : IdLedger) (others : List String) : l.Fresh others [] :=
  ⟨List.nodup_nil, fun _ h => absurd h List.not_mem_nil, fun _ h => absurd h List.not_mem_nil⟩

theorem Fresh.concat {l : IdLedger} {others : List String} {given : List (String × String)} {old name : String}
    (h : l.Fresh others given) (ht : name ∉ l.taken) (ho : name ∉ others) (hg : name ∉ given.map (·.2)) :
    l.Fresh others (given ++ [(old, name)]) := by
  refine ⟨?_, fun n hn => ?_, fun n hn => ?_⟩
  · rw [List.map_append, List.map_cons, List.map_nil]
    exact List.nodup_append.2 ⟨h.nodup, List.nodup_singleton _, fun a ha b hb => by
      rintro rfl
      rw [List.mem_singleton.1 hb] at ha
      exact hg ha⟩
  · rcases List.mem_append.1 hn with hn | hn
    · exact h.notMem_taken n hn
    · rw [List.mem_singleton.1 hn]
      exact ht
  · rcases List.mem_append.1 hn with hn | hn
    · exact h.notMem_others n hn
    · rw [List.mem_singleton.1 hn]
      exact ho

/-- **All names that an occurrence is given are fresh.** -/
theorem fresh_assign (l : IdLedger) (others originals : List String) (duplicate : Option Nat) (step : Nat) :
    ∀ (olds : List String) (given : List (String × String)), l.Fresh others given →
      l.Fresh others (l.assign others duplicate step originals olds given)
  | [], _, h => h
  | old :: olds, given, h => by
    rw [assign]
    obtain ⟨ht, ho, hg⟩ := notMem_of_isFree (isFree_firstFree l others originals (given.map (·.2)) duplicate step old)
    exact fresh_assign l others originals duplicate step olds _ (h.concat ht ho hg)

theorem map_fst_assign (l : IdLedger) (others originals : List String) (duplicate : Option Nat) (step : Nat) :
    ∀ (olds : List String) (given : List (String × String)),
      (l.assign others duplicate step originals olds given).map (·.1) = given.map (·.1) ++ olds
  | [], given => by rw [assign, List.append_nil]
  | old :: olds, given => by
    rw [assign, map_fst_assign l others originals duplicate step olds, List.map_append, List.append_assoc]
    rfl

/-! ## Renaming -/

theorem get?_renameAll (names : List (String × String)) (as : Xml.Attributes) (key : String) :
    (renameAll names as).get? key = (as.get? key).map (renameValue names) := by
  induction as with
  | nil => rfl
  | cons a as ih =>
    rw [renameAll, List.map_cons, Xml.Attributes.get?_cons, Xml.Attributes.get?_cons]
    by_cases h : a.1 = key
    · rw [if_pos h, if_pos h]
      rfl
    · rw [if_neg h, if_neg h]
      exact ih

theorem innerIds_renameIn (names : List (String × String)) (root : Element) :
    innerIds (renameIn names root) = (innerIds root).map (renameValue names) :=
  Xml.nodesValues_mapAttributes "id" (renameValue names) _ (fun _ as _ => get?_renameAll names as "id") root.children ()

/-- Names that change nothing can be left out. -/
theorem renameValue_filter_ne {names : List (String × String)} (hnd : (names.map (·.1)).Nodup) {old new : String}
    (h : (old, new) ∈ names) : renameValue (names.filter fun n => n.1 != n.2) old = new := by
  induction names with
  | nil => exact absurd h List.not_mem_nil
  | cons n names ih =>
    rw [List.map_cons, List.nodup_cons] at hnd
    rcases List.mem_cons.1 h with rfl | h
    · by_cases he : old = new
      · subst he
        have hnone : (List.filter (fun n => n.1 != n.2) names).find? (fun n => n.1 == old) = none := by
          rw [List.find?_eq_none]
          intro m hm hmo
          exact hnd.1 (List.mem_map.2 ⟨m, (List.mem_filter.1 hm).1, by simpa using hmo⟩)
        rw [List.filter_cons_of_neg (by simp), renameValue, hnone]
        rfl
      · rw [List.filter_cons_of_pos (by simpa using he)]
        simp [renameValue]
    · have hne : n.1 ≠ old := by
        rintro rfl
        exact hnd.1 (List.mem_map.2 ⟨_, h, rfl⟩)
      rw [List.filter_cons]
      split
      · have hskip : (n.1 == old) = false := by simpa using hne
        rw [renameValue, List.find?_cons, hskip]
        exact ih hnd.2 h
      · exact ih hnd.2 h

/-! ## One occurrence -/

section Enforce

variable (l : IdLedger) (topicId : Int) (duplicate : Option Nat) (step : Nat) (root : Element)

/-- The names that an occurrence's ids are given, each with the id that it replaces. -/
def namesFor : List (String × String) :=
  l.assign (l.elsewhere topicId) duplicate step (innerIds root) (innerIds root).eraseDups []

/-- The document of an occurrence with its ids made unique. -/
def rewritten : Element :=
  (l.enforce topicId duplicate step root).2.1

/-- An id of an occurrence after its ids were made unique. -/
def finalId (old : String) : String :=
  renameValue (l.enforce topicId duplicate step root).1 old

theorem fresh_namesFor : l.Fresh (l.elsewhere topicId) (l.namesFor topicId duplicate step root) :=
  fresh_assign l _ _ duplicate step _ [] (Fresh.nil l _)

theorem nodup_map_fst_namesFor : ((l.namesFor topicId duplicate step root).map (·.1)).Nodup := by
  rw [namesFor, map_fst_assign]
  exact nodup_eraseDups _

theorem taken_enforce : (l.enforce topicId duplicate step root).2.2.taken
    = (l.namesFor topicId duplicate step root).map (·.2) ++ l.taken := rfl

theorem mem_innerIds_of_namesFor {n : String × String} (h : n ∈ l.namesFor topicId duplicate step root) :
    n.1 ∈ innerIds root := by
  have hold := List.mem_map_of_mem (f := (·.1)) h
  rw [namesFor, map_fst_assign] at hold
  exact List.mem_eraseDups.1 hold

theorem mem_namesFor {old : String} (h : old ∈ innerIds root) :
    (old, l.finalId topicId duplicate step root old) ∈ l.namesFor topicId duplicate step root := by
  have hold : old ∈ (l.namesFor topicId duplicate step root).map (·.1) := by
    rw [namesFor, map_fst_assign, List.map_nil, List.nil_append]
    exact List.mem_eraseDups.2 h
  obtain ⟨n, hn, rfl⟩ := List.mem_map.1 hold
  have hnew : l.finalId topicId duplicate step root n.1 = n.2 :=
    renameValue_filter_ne (nodup_map_fst_namesFor l topicId duplicate step root) hn
  rw [hnew]
  exact hn

theorem finalId_of_notMem {v : String} (h : v ∉ innerIds root) : l.finalId topicId duplicate step root v = v := by
  have hnone : (l.enforce topicId duplicate step root).1.find? (fun n => n.1 == v) = none := by
    refine List.find?_eq_none.2 fun n hn hv => h (eq_of_beq hv ▸ ?_)
    exact mem_innerIds_of_namesFor l topicId duplicate step root (List.mem_of_mem_filter hn)
  rw [finalId, renameValue, hnone]
  rfl

/-- Where no id changes the document stays as it is; else it is renamed throughout. -/
theorem rewritten_eq : (l.rewritten topicId duplicate step root = root ∧
      ∀ v, l.finalId topicId duplicate step root v = v) ∨
    l.rewritten topicId duplicate step root = renameIn (l.enforce topicId duplicate step root).1 root := by
  have hdoc : l.rewritten topicId duplicate step root
      = if (l.enforce topicId duplicate step root).1.isEmpty then root
        else renameIn (l.enforce topicId duplicate step root).1 root := rfl
  rw [hdoc]
  split
  · rename_i hempty
    refine .inl ⟨rfl, fun v => ?_⟩
    rw [finalId, List.isEmpty_iff.1 hempty]
    rfl
  · exact .inr rfl

/-- **The ids below the root are the new names of those that were there, in order.** -/
theorem innerIds_rewritten : innerIds (l.rewritten topicId duplicate step root)
    = (innerIds root).map (l.finalId topicId duplicate step root) := by
  rcases rewritten_eq l topicId duplicate step root with ⟨hroot, hid⟩ | hroot
  · rw [hroot, List.map_id'' hid]
  · rw [hroot]
    exact innerIds_renameIn _ root

/-- **Different ids get different names.** -/
theorem finalId_inj {a b : String} (ha : a ∈ innerIds root) (hb : b ∈ innerIds root)
    (h : l.finalId topicId duplicate step root a = l.finalId topicId duplicate step root b) : a = b := by
  have hma := mem_namesFor l topicId duplicate step root ha
  have hmb := mem_namesFor l topicId duplicate step root hb
  have := List.inj_on_of_nodup_map (fresh_namesFor l topicId duplicate step root).nodup hma hmb h
  exact congrArg Prod.fst this

theorem exists_of_mem_rewritten {id : String} (h : id ∈ innerIds (l.rewritten topicId duplicate step root)) :
    ∃ n ∈ l.namesFor topicId duplicate step root, n.2 = id := by
  rw [innerIds_rewritten] at h
  obtain ⟨old, hold, rfl⟩ := List.mem_map.1 h
  exact ⟨_, mem_namesFor l topicId duplicate step root hold, rfl⟩

theorem notMem_taken_of_mem_rewritten {id : String} (h : id ∈ innerIds (l.rewritten topicId duplicate step root)) :
    id ∉ l.taken := by
  obtain ⟨n, hn, rfl⟩ := exists_of_mem_rewritten l topicId duplicate step root h
  exact (fresh_namesFor l topicId duplicate step root).notMem_taken n hn

theorem notMem_elsewhere_of_mem_rewritten {id : String}
    (h : id ∈ innerIds (l.rewritten topicId duplicate step root)) : id ∉ l.elsewhere topicId := by
  obtain ⟨n, hn, rfl⟩ := exists_of_mem_rewritten l topicId duplicate step root h
  exact (fresh_namesFor l topicId duplicate step root).notMem_others n hn

theorem mem_taken_of_mem_rewritten {id : String} (h : id ∈ innerIds (l.rewritten topicId duplicate step root)) :
    id ∈ (l.enforce topicId duplicate step root).2.2.taken := by
  obtain ⟨n, hn, rfl⟩ := exists_of_mem_rewritten l topicId duplicate step root h
  rw [taken_enforce]
  exact List.mem_append_left _ (List.mem_map.2 ⟨n, hn, rfl⟩)

end Enforce

theorem mem_elsewhere_iff {l : IdLedger} {topicId : Int} {id : String} :
    id ∈ l.elsewhere topicId ↔ ∃ owner, owner ≠ topicId ∧ (owner, id) ∈ l.recorded := by
  simp only [elsewhere, List.mem_map, List.mem_filter, bne_iff_ne, Prod.exists]
  constructor
  · rintro ⟨owner, id', ⟨hr, ho⟩, rfl⟩
    exact ⟨owner, ho, hr⟩
  · rintro ⟨owner, ho, hr⟩
    exact ⟨owner, id, ⟨hr, ho⟩, rfl⟩

end IdLedger
end Bookbinder
