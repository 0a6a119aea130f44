import Bookbinder.Proofs.FreshIds
/-!
# Runs of a ledger

A ledger starts empty and is called any number of times, in any order: to record a topic's ids, to reserve an id, to
make the ids of an occurrence unique.  Nothing that is taken or recorded is ever given back (`taken_subset_foldl`,
`recorded_subset_foldl`), so an occurrence's ids are its own for good (`enforce_fresh`).
-/
namespace Bookbinder

open Xml (Element)

namespace IdLedger

/-- A call of the ledger, with what it is called with. -/
inductive Call where
  | record (topicId : Int) (root : Element)
  | reserve (id : String)
  | enforce (topicId : Int) (duplicate : Option Nat) (step : Nat) (root : Element)

/-- The ledger after a call. -/
def call (l : IdLedger) : Call → IdLedger
  | .record topicId root => l.record topicId root
  | .reserve id => l.reserve id
  | .enforce topicId duplicate step root => (l.enforce topicId duplicate step root).2.2

/-- A new ledger after some calls. -/
def run (calls : List Call) : IdLedger :=
  calls.foldl call {}

/-! ## One call -/

theorem taken_subset_call (l : IdLedger) : ∀ c : Call, l.taken ⊆ (l.call c).taken
  | .record _ _ => List.Subset.refl _
  | .reserve _ => List.subset_cons_self _ _
  | .enforce _ _ _ _ => List.subset_append_right _ _

theorem recorded_subset_call (l : IdLedger) : ∀ c : Call, l.recorded ⊆ (l.call c).recorded
  | .record _ _ => List.subset_append_left _ _
  | .reserve _ => List.Subset.refl _
  | .enforce _ _ _ _ => List.Subset.refl _

/-! ## Runs -/

theorem taken_subset_foldl : ∀ (calls : List Call) (l : IdLedger), l.taken ⊆ (calls.foldl call l).taken
  | [], _ => List.Subset.refl _
  | c :: calls, l => by
    rw [List.foldl_cons]
    exact List.Subset.trans (taken_subset_call l c) (taken_subset_foldl calls (l.call c))

theorem recorded_subset_foldl : ∀ (calls : List Call) (l : IdLedger), l.recorded ⊆ (calls.foldl call l).recorded
  | [], _ => List.Subset.refl _
  | c :: calls, l => by
    rw [List.foldl_cons]
    exact List.Subset.trans (recorded_subset_call l c) (recorded_subset_foldl calls (l.call c))

theorem run_append_cons (before after : List Call) (c : Call) :
    run (before ++ c :: after) = after.foldl call ((run before).call c) := by
  rw [run, List.foldl_append, List.foldl_cons]
  rfl

theorem taken_subset_run (before after : List Call) (c : Call) :
    ((run before).call c).taken ⊆ (run (before ++ c :: after)).taken := by
  rw [run_append_cons]
  exact taken_subset_foldl _ _

theorem mem_taken_run_of_reserve {calls : List Call} {id : String} (h : .reserve id ∈ calls) :
    id ∈ (run calls).taken := by
  obtain ⟨before, after, rfl⟩ := List.append_of_mem h
  exact taken_subset_run before after _ List.mem_cons_self

theorem mem_recorded_run_of_record {calls : List Call} {topicId : Int} {root : Element} {id : String}
    (h : .record topicId root ∈ calls) (hid : id ∈ innerIds root) : (topicId, id) ∈ (run calls).recorded := by
  obtain ⟨before, after, rfl⟩ := List.append_of_mem h
  rw [run_append_cons]
  exact recorded_subset_foldl _ _ (List.mem_append_right _ (List.mem_map.2 ⟨id, hid, rfl⟩))

/-- **The ids of an occurrence are its own.**  After any calls, the ids below the root of a document that is made
unique are none that was reserved and none that was recorded for another topic; no document that is made unique after
any further calls has one of them; and they are the ids that were there, in order, under names that differ where those
differed. -/
theorem enforce_fresh (before between : List Call) (topicId topicId' : Int) (duplicate duplicate' : Option Nat)
    (step step' : Nat) (root root' : Element) :
    (∀ id ∈ innerIds ((run before).rewritten topicId duplicate step root), .reserve id ∉ before ∧
      ∀ owner other, .record owner other ∈ before → owner ≠ topicId → id ∉ innerIds other) ∧
    (innerIds ((run before).rewritten topicId duplicate step root)).Disjoint
      (innerIds ((run (before ++ .enforce topicId duplicate step root :: between)).rewritten
        topicId' duplicate' step' root')) ∧
    innerIds ((run before).rewritten topicId duplicate step root)
      = (innerIds root).map ((run before).finalId topicId duplicate step root) ∧
    ∀ a ∈ innerIds root, ∀ b ∈ innerIds root, a ≠ b →
      (run before).finalId topicId duplicate step root a ≠ (run before).finalId topicId duplicate step root b := by
  refine ⟨fun id hid => ⟨fun hr => ?_, fun owner other hr ho hid' => ?_⟩, fun id hid hid' => ?_,
    innerIds_rewritten _ _ _ _ _, fun a ha b hb hab h => hab (finalId_inj _ _ _ _ _ ha hb h)⟩
  · exact notMem_taken_of_mem_rewritten _ _ _ _ _ hid (mem_taken_run_of_reserve hr)
  · have hrec := mem_recorded_run_of_record hr hid'
    exact notMem_elsewhere_of_mem_rewritten _ _ _ _ _ hid (mem_elsewhere_iff.2 ⟨owner, ho, hrec⟩)
  · have hgiven := mem_taken_of_mem_rewritten _ _ _ _ _ hid
    have hlater := taken_subset_run before between (.enforce topicId duplicate step root) hgiven
    exact notMem_taken_of_mem_rewritten _ _ _ _ _ hid' hlater

end IdLedger
end Bookbinder
