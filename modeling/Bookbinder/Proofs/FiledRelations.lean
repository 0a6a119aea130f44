import Bookbinder.Injection.RelatedList
import Bookbinder.Proofs.SortedTitles
import Mathlib.Data.List.Forall2
/-!
# What becomes of a topic's relations

A relation that no marker claims is reported if its topic is not in the book, and else gives one link to the list of the
first type that its topic has, if there is such a type and something to link to (`RelatedTopics.Fate`).  The lists hold
these links and no others, each as often as there are relations for it (`RelatedTopics.perm_listed`), under the headings
of their types and sorted by title (`RelatedTopics.partition_of_relations`).
-/
namespace Bookbinder

/-! ## Entries by key -/

/-- Entries picked by key, for one key after the other, are all entries if each key counts once. -/
theorem flatMap_filter_perm {α κ : Type} [DecidableEq κ] (key : α → κ) : ∀ {keys : List κ} {xs : List α}, keys.Nodup →
    (∀ x ∈ xs, key x ∈ keys) → (keys.flatMap fun k => xs.filter fun x => key x = k).Perm xs
  | [], [], _, _ => .nil
  | [], x :: xs, _, h => absurd (h x List.mem_cons_self) List.not_mem_nil
  | k :: ks, xs, hnodup, h => by
    obtain ⟨hk, hks⟩ := List.nodup_cons.1 hnodup
    -- The keys that are left pick from the entries that this one leaves.
    have hrest : ∀ k' ∈ ks, (xs.filter fun x => key x = k')
        = (xs.filter fun x => !decide (key x = k)).filter fun x => key x = k' := by
      intro k' hk'
      rw [List.filter_filter]
      refine List.filter_congr fun x _ => ?_
      by_cases hx : key x = k'
      · have hne : key x ≠ k := by
          rintro rfl
          exact hk (hx ▸ hk')
        simp [hx, hx ▸ hne]
      · simp [hx]
    have hleft : ∀ x ∈ xs.filter (fun x => !decide (key x = k)), key x ∈ ks := by
      intro x hx
      obtain ⟨hx, hne⟩ := List.mem_filter.1 hx
      exact (List.mem_cons.1 (h x hx)).resolve_left (by simpa using hne)
    rw [List.flatMap_cons, List.flatMap_congr hrest]
    exact ((flatMap_filter_perm key hks hleft).append_left _).trans (List.filter_append_perm _ xs)

/-! ## The ways that a relation may go -/

/-- The type that a relation is filed under, and its link. -/
def Filing.listed? : Filing → Option (TopicType × RelatedLink)
  | .filed type link => some (type, link)
  | _ => none

/-- The id of a relation that is not in the book. -/
def Filing.missing? : Filing → Option Int
  | .missing id => some id
  | _ => none

namespace RelatedTopics

/-- **What becomes of a relation**, by one constructor for each way that it may go. -/
inductive Fate (targets : LinkTargets) (claimed : List Int) (related : Topic) : Filing → Prop
  | claimed (claims : related.sourceId ∈ claimed) : Fate targets claimed related .claimed
  | outside (unclaimed : related.sourceId ∉ claimed) (out : targets.contains related.sourceId = false) :
    Fate targets claimed related (.missing related.sourceId)
  | untyped (unclaimed : related.sourceId ∉ claimed) (within : targets.contains related.sourceId = true)
    (untyped : ∀ type ∈ TopicType.filingOrder, related.hasTag type.tag = false) : Fate targets claimed related .dropped
  | unlinked (unclaimed : related.sourceId ∉ claimed) (within : targets.contains related.sourceId = true)
    (unlinked : targets.link? related.sourceId = none) : Fate targets claimed related .dropped
  | filed {before after : List TopicType} {type : TopicType} {link : Link} (unclaimed : related.sourceId ∉ claimed)
    (within : targets.contains related.sourceId = true) (order : TopicType.filingOrder = before ++ type :: after)
    (first : ∀ other ∈ before, related.hasTag other.tag = false) (tagged : related.hasTag type.tag = true)
    (linked : targets.link? related.sourceId = some link) :
    Fate targets claimed related (.filed type ⟨link, (targets.title? related.sourceId).getD related.title⟩)

variable {targets : LinkTargets} {claimed : List Int} {related : Topic}

theorem of?_eq_some_iff {type : TopicType} : TopicType.of? related = some type ↔ ∃ before after,
    TopicType.filingOrder = before ++ type :: after ∧ (∀ other ∈ before, related.hasTag other.tag = false) ∧
      related.hasTag type.tag = true := by
  rw [TopicType.of?, List.find?_eq_some_iff_append]
  simp only [Bool.not_eq_true']
  exact ⟨fun ⟨htag, before, after, ho, hf⟩ => ⟨before, after, ho, hf, htag⟩,
    fun ⟨before, after, ho, hf, htag⟩ => ⟨htag, before, after, ho, hf⟩⟩

theorem of?_eq_none_iff : TopicType.of? related = none ↔
    ∀ type ∈ TopicType.filingOrder, related.hasTag type.tag = false := by
  rw [TopicType.of?, List.find?_eq_none]
  simp only [Bool.not_eq_true]

theorem fate_filing (targets : LinkTargets) (claimed : List Int) (related : Topic) :
    Fate targets claimed related (filing targets claimed related) := by
  rw [filing]
  split
  · rename_i hclaimed
    exact .claimed (List.contains_iff_mem.1 hclaimed)
  · rename_i hunclaimed
    rw [List.contains_iff_mem] at hunclaimed
    split
    · rename_i hout
      exact .outside hunclaimed (by simpa using hout)
    · rename_i hin
      have hin : targets.contains related.sourceId = true := by simpa using hin
      split
      · rename_i type link htype hlink
        obtain ⟨before, after, horder, hfirst, htag⟩ := of?_eq_some_iff.1 htype
        exact .filed hunclaimed hin horder hfirst htag hlink
      · rename_i hneither
        cases htype : TopicType.of? related with
        | none => exact .untyped hunclaimed hin (of?_eq_none_iff.1 htype)
        | some type =>
          cases hlink : targets.link? related.sourceId with
          | none => exact .unlinked hunclaimed hin hlink
          | some link => exact absurd hlink (hneither type link htype)

/-- **A relation goes one way only.** -/
theorem fate_iff {f : Filing} : Fate targets claimed related f ↔ filing targets claimed related = f := by
  constructor
  · intro h
    rw [filing]
    cases h with
    | claimed hclaimed => rw [if_pos (List.contains_iff_mem.2 hclaimed)]
    | outside hunclaimed hout => simp [hunclaimed, hout]
    | untyped hunclaimed hin huntyped => simp [hunclaimed, hin, of?_eq_none_iff.2 huntyped]
    | unlinked hunclaimed hin hunlinked => cases htype : TopicType.of? related <;> simp [hunclaimed, hin, hunlinked]
    | filed hunclaimed hin horder hfirst htag hlink =>
      simp [hunclaimed, hin, of?_eq_some_iff.2 ⟨_, _, horder, hfirst, htag⟩, hlink]
  · rintro rfl
    exact fate_filing targets claimed related

theorem forall₂_fate_iff {outgoing : List Topic} {filings : List Filing} :
    List.Forall₂ (Fate targets claimed) outgoing filings ↔ outgoing.map (filing targets claimed) = filings := by
  have hfate : Fate targets claimed = fun related f => filing targets claimed related = f :=
    funext fun _ => funext fun _ => propext fate_iff
  rw [hfate, ← List.forall₂_map_left_iff, List.forall₂_eq_eq_eq]

/-! ## Lists -/

theorem filedUnder_eq (type : TopicType) (filings : List Filing) : filedUnder type filings
    = ((filings.filterMap Filing.listed?).filter fun l => l.1 = type).map (·.2) := by
  rw [filedUnder, ← List.filterMap_eq_filter, List.map_filterMap, List.filterMap_filterMap]
  refine List.filterMap_congr fun f _ => ?_
  cases f with
  | filed type' link => by_cases htype : type' = type <;> simp [Filing.listed?, Option.guard, htype]
  | _ => rfl

/-- The list of a type holds the links that are filed under it, sorted by title. -/
structure Lists (filings : List Filing) (type : TopicType) (list : RelatedList) : Prop where
  label : list.label = type.label
  role : list.role = type.role
  links_ne_nil : list.links ≠ []
  links : SortedBy (·.title) (filedUnder type filings) list.links

theorem lists_of_list? {filings : List Filing} {type : TopicType} {list : RelatedList}
    (h : list? type filings = some list) : Lists filings type list := by
  rw [list?] at h
  split at h
  · cases h
  · rename_i hsome
    cases h
    have hsorted := sortedBy_mergeSort RelatedLink.title (filedUnder type filings)
    refine ⟨rfl, rfl, fun hnil => hsome ?_, hsorted⟩
    change List.mergeSort _ _ = [] at hnil
    rw [List.isEmpty_iff, ← List.length_eq_zero_iff, ← hsorted.perm.length_eq, hnil]
    rfl

theorem list?_eq_none_iff {filings : List Filing} {type : TopicType} :
    list? type filings = none ↔ filedUnder type filings = [] := by
  simp [list?]

/-- **The lists are those of the types that something is filed under**, in the order in which lists stand. -/
theorem forall₂_lists (filings : List Filing) : ∀ types : List TopicType,
    List.Forall₂ (Lists filings) (types.filter fun type => filedUnder type filings ≠ [])
      (types.filterMap (list? · filings))
  | [] => .nil
  | type :: types => by
    cases hlist : list? type filings with
    | none =>
      have hnil := list?_eq_none_iff.1 hlist
      rw [List.filter_cons_of_neg (by simp [hnil]), List.filterMap_cons, hlist]
      exact forall₂_lists filings types
    | some list =>
      have hsome : filedUnder type filings ≠ [] := fun hnil => by
        rw [list?_eq_none_iff.2 hnil] at hlist
        cases hlist
      rw [List.filter_cons_of_pos (by simp [hsome]), List.filterMap_cons, hlist]
      exact .cons (lists_of_list? hlist) (forall₂_lists filings types)

/-- The links of a type as its list has them, if it has one, are those that are filed under it. -/
theorem perm_links (filings : List Filing) (type : TopicType) :
    ((list? type filings).toList.flatMap fun list => list.links.map fun link => (list.role, link)).Perm
      (((filings.filterMap Filing.listed?).filter fun l => l.1 = type).map fun l => (l.1.role, l.2)) := by
  have hrole : (((filings.filterMap Filing.listed?).filter fun l => l.1 = type).map fun l => (l.1.role, l.2))
      = (filedUnder type filings).map fun link => (type.role, link) := by
    rw [filedUnder_eq, List.map_map]
    refine List.map_congr_left fun l hl => ?_
    rw [Function.comp, of_decide_eq_true (List.mem_filter.1 hl).2]
  rw [hrole]
  cases hlist : list? type filings with
  | none =>
    rw [list?_eq_none_iff.1 hlist]
    exact .nil
  | some list =>
    obtain ⟨-, hrole, -, hlinks⟩ := lists_of_list? hlist
    rw [Option.toList_some, List.flatMap_singleton, hrole]
    exact hlinks.perm.map _

/-- **The links of all lists are those of the relations that are filed**, each as often as there are relations for it and
under the type that its relation is filed under. -/
theorem perm_listed {filings : List Filing}
    (h : ∀ l ∈ filings.filterMap Filing.listed?, l.1 ∈ TopicType.listOrder) :
    ((TopicType.listOrder.filterMap (list? · filings)).flatMap fun list =>
      list.links.map fun link => (list.role, link)).Perm
        ((filings.filterMap Filing.listed?).map fun l => (l.1.role, l.2)) := by
  have hpicked := flatMap_filter_perm Prod.fst (by decide : TopicType.listOrder.Nodup) h
  rw [List.filterMap_eq_flatMap_toList, List.flatMap_assoc]
  refine (List.Perm.flatMap_left _ fun type _ => perm_links filings type).trans ?_
  rw [← List.map_flatMap]
  exact hpicked.map _

theorem mem_listOrder_of_filing {type : TopicType} {link : RelatedLink}
    (h : filing targets claimed related = .filed type link) : type ∈ TopicType.listOrder := by
  have hperm : TopicType.filingOrder.Perm TopicType.listOrder := by decide
  have hfate := fate_filing targets claimed related
  rw [h] at hfate
  cases hfate with
  | filed _ _ horder _ _ _ => exact hperm.mem_iff.1 (horder ▸ List.mem_append_right _ List.mem_cons_self)

/-- **The relations of a topic are parted**, each going one way.  Those that are not in the book are missing, in their
order, unless that is tolerated.  There is a list, not empty, for each type that something is filed under, in the order
in which lists stand, with the links filed under the type sorted by title.  All lists together hold just the links of
the relations that are filed, in the lists of their types. -/
theorem partition_of_relations (targets : LinkTargets) (claimed : List Int) (tolerant : Bool) (topic : Topic) :
    ∃ filings, (List.Forall₂ (Fate targets claimed) topic.outgoing filings ∧
        ∀ filings', List.Forall₂ (Fate targets claimed) topic.outgoing filings' → filings' = filings) ∧
      (of targets claimed tolerant topic).missing = (if tolerant then [] else filings.filterMap Filing.missing?) ∧
      List.Forall₂ (Lists filings) (TopicType.listOrder.filter fun type => filedUnder type filings ≠ [])
        (of targets claimed tolerant topic).lists ∧
      ((of targets claimed tolerant topic).lists.flatMap fun list => list.links.map fun link => (list.role, link)).Perm
        ((filings.filterMap Filing.listed?).map fun l => (l.1.role, l.2)) := by
  refine ⟨topic.outgoing.map (filing targets claimed),
    ⟨forall₂_fate_iff.2 rfl, fun filings' h => (forall₂_fate_iff.1 h).symm⟩, rfl, forall₂_lists _ _, perm_listed ?_⟩
  intro l hl
  obtain ⟨f, hf, hlisted⟩ := List.mem_filterMap.1 hl
  obtain ⟨related, -, hfiling⟩ := List.mem_map.1 hf
  cases f with
  | filed type link =>
    cases hlisted
    exact mem_listOrder_of_filing hfiling
  | _ => cases hlisted

end RelatedTopics
end Bookbinder
