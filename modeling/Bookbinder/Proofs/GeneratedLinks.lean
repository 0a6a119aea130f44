import Bookbinder.Proofs.InjectedLinks
import Bookbinder.Proofs.TopicFiles
/-!
# Links that a book generates

The library itself makes cross references for the topics of a book: where a marker asks for links, and in the lists that
the outline or the topic's relations declare.  All of them lead to link ids of registered references and levels
(`crossReferences_subset`).
-/
namespace Bookbinder

open Xml (Document Element)

namespace Registry

theorem mem_of_nearest {start : Nat} {c : TopicEntry} : ∀ {es : List TopicEntry}, nearest start es = some c → c ∈ es
  | [], h => by cases h
  | e :: es, h => by
    rw [nearest] at h
    split at h
    · cases h
      exact List.mem_cons_self
    · rename_i e' he'
      dsimp only at h
      split at h
      · cases h
        exact List.mem_cons_self
      · cases h
        exact List.mem_cons_of_mem _ (mem_of_nearest he')

theorem mem_of_closest? {r : Registry} {id : Int} {start : Nat} {c : TopicEntry} (h : r.closest? id start = some c) :
    c ∈ r.entries :=
  List.mem_of_mem_filter (mem_of_nearest h)

theorem mem_of_entry? {r : Registry} {step : Nat} {c : TopicEntry} (h : r.entry? step = some c) : c ∈ r.entries :=
  List.mem_of_find?_eq_some h

theorem mem_of_level? {r : Registry} {index : Nat} {l : LevelEntry} (h : r.level? index = some l) : l ∈ r.levels :=
  List.mem_of_getElem? h

end Registry

theorem RelatedTopics.link?_of_filing {targets : LinkTargets} {claimed : List Int} {related : Topic} {type : TopicType}
    {link : RelatedLink} (h : filing targets claimed related = .filed type link) :
    targets.link? related.sourceId = some link.link := by
  rw [filing] at h
  split at h
  · cases h
  · split at h
    · cases h
    · split at h
      · cases h
        assumption
      · cases h

namespace Draft

open Template (TopicView linksTargets stepLinks)

variable {d : Draft} {e : TopicEntry} {target : String}

/-! ## What is generated -/

/-- The ids that markers of a reference's topic lead to. -/
def markerTargets (d : Draft) (e : TopicEntry) (among : Element → List Marker) : List String :=
  match e.topic with
  | some t => match (Manuscript.of t).document? with
    | some doc =>
      if d.policy.allowedFor t then
        (among (d.occurrence e t doc)).flatMap (Injection.markerTargets (.book d.registry d.stable e.ref.step)
          d.settings.ignoreMissingInjections t)
      else []
    | none => []
  | none => []

/-- The ids that the cross references lead to which are made for a reference: those of its lists and, where its document
is shown, those of its markers. -/
def crossReferences (d : Draft) (e : TopicEntry) : List String :=
  (d.view e).targets ++ if e.outcome = .valid then d.markerTargets e Injection.markers else []

/-- Those of them that are not made for a title, which the page supplies anew. -/
def bodyReferences (d : Draft) (e : TopicEntry) : List String :=
  (d.view e).targets ++ if e.outcome = .valid then d.markerTargets e Injection.bodyMarkers else []

theorem mem_markerTargets_iff {among : Element → List Marker} {t : Topic} {doc : Document} (htopic : e.topic = some t)
    (hmanuscript : (Manuscript.of t).document? = some doc) : target ∈ d.markerTargets e among ↔
      d.policy.allowedFor t = true ∧ ∃ m ∈ among (d.occurrence e t doc), target ∈ Injection.markerTargets
        (.book d.registry d.stable e.ref.step) d.settings.ignoreMissingInjections t m := by
  rw [markerTargets, htopic]
  simp only [hmanuscript]
  split
  · rename_i hallowed
    rw [List.mem_flatMap, and_iff_right hallowed]
  · rename_i hallowed
    exact ⟨fun h => absurd h List.not_mem_nil, fun h => absurd h.1 hallowed⟩

theorem exists_of_mem_markerTargets {among : Element → List Marker} (h : target ∈ d.markerTargets e among) :
    ∃ t doc, e.topic = some t ∧ (Manuscript.of t).document? = some doc := by
  rw [markerTargets] at h
  split at h
  · rename_i t htopic
    split at h
    · rename_i doc hmanuscript
      exact ⟨t, doc, htopic, hmanuscript⟩
    · exact absurd h List.not_mem_nil
  · exact absurd h List.not_mem_nil

theorem bodyReferences_subset (d : Draft) (e : TopicEntry) : d.bodyReferences e ⊆ d.crossReferences e := by
  intro target h
  rcases List.mem_append.1 h with h | h
  · exact List.mem_append_left _ h
  · refine List.mem_append_right _ ?_
    split at h
    · rename_i hvalid
      obtain ⟨t, doc, htopic, hmanuscript⟩ := exists_of_mem_markerTargets h
      obtain ⟨hallowed, m, hm, ht⟩ := (mem_markerTargets_iff htopic hmanuscript).1 h
      rw [if_pos hvalid]
      exact (mem_markerTargets_iff htopic hmanuscript).2 ⟨hallowed, m, Injection.bodyMarkers_subset _ hm, ht⟩
    · exact absurd h List.not_mem_nil

/-! ## Where it leads -/

theorem mem_linkIds_of_link? {start : Nat} {id : Int} (h : ((LinkTargets.book d.registry d.stable start).link? id).bind
    Link.target? = some target) : target ∈ d.linkIds := by
  obtain ⟨link, hlink, htarget⟩ := Option.bind_eq_some_iff.1 h
  obtain ⟨c, hc, rfl⟩ := Option.map_eq_some_iff.1 hlink
  cases htarget
  exact linkId_mem (Registry.mem_of_closest? hc)

theorem mem_linkIds_of_markerTargets {among : Element → List Marker} (h : target ∈ d.markerTargets e among) :
    target ∈ d.linkIds := by
  obtain ⟨t, doc, htopic, hmanuscript⟩ := exists_of_mem_markerTargets h
  obtain ⟨-, m, -, hm⟩ := (mem_markerTargets_iff htopic hmanuscript).1 h
  rw [Injection.markerTargets] at hm
  split at hm
  · obtain ⟨id, -, hid⟩ := List.mem_filterMap.1 hm
    exact mem_linkIds_of_link? hid
  · exact absurd hm List.not_mem_nil

/-- Links that lead to link ids of the book. -/
def LeadHome (d : Draft) (ls : List RelatedLink) : Prop :=
  ∀ l ∈ ls, ∀ target ∈ l.link.target?, target ∈ d.linkIds

theorem LeadHome.linksTargets {ls : List RelatedLink} (h : d.LeadHome ls) : linksTargets ls ⊆ d.linkIds := by
  intro target ht
  obtain ⟨l, hl, htarget⟩ := List.mem_filterMap.1 ht
  exact h l hl target htarget

theorem leadHome_steps {process : Option RelatedLink} {ls : List RelatedLink} (hprocess : d.LeadHome process.toList)
    (hls : d.LeadHome ls) : d.LeadHome (stepLinks process ls) := by
  intro l hl
  cases process with
  | none => exact absurd hl List.not_mem_nil
  | some p =>
    rw [stepLinks] at hl
    split at hl
    · exact absurd hl List.not_mem_nil
    · rcases List.mem_cons.1 hl with rfl | hl
      · exact hprocess l (List.mem_singleton_self l)
      · exact hls l hl

theorem leadHome_linksOf (kind : RelationKind) (relations : List Relation) :
    d.LeadHome (OutlineLinks.linksOf d.registry d.stable kind relations) := by
  intro l hl target htarget
  obtain ⟨rel, -, hrel⟩ := List.mem_filterMap.1 hl
  rw [OutlineLinks.resolve?] at hrel
  split at hrel
  · obtain ⟨c, hc, rfl⟩ := Option.map_eq_some_iff.1 hrel
    cases htarget
    exact linkId_mem (Registry.mem_of_entry? hc)
  · obtain ⟨c, hc, rfl⟩ := Option.map_eq_some_iff.1 hrel
    cases htarget
    exact levelId_mem (Registry.mem_of_level? hc)
  · cases hrel

theorem leadHome_nil : d.LeadHome [] :=
  fun _ hl => absurd hl List.not_mem_nil

theorem targets_subset {v : TopicView} (hprerequisites : d.LeadHome v.links.prerequisites)
    (hseeAlso : d.LeadHome v.links.seeAlso) (hprevious : d.LeadHome v.links.previousSteps)
    (hnext : d.LeadHome v.links.nextSteps) (hprocess : d.LeadHome v.links.process.toList)
    (hrelated : ∀ l ∈ v.related, d.LeadHome l.links) : v.targets ⊆ d.linkIds := by
  intro target ht
  simp only [TopicView.targets, List.mem_append, List.mem_flatMap] at ht
  rcases ht with (((ht | ht) | ht) | ⟨l, hl, ht⟩) | ht
  · exact hprerequisites.linksTargets ht
  · exact (leadHome_steps hprocess hprevious).linksTargets ht
  · exact (leadHome_steps hprocess hnext).linksTargets ht
  · exact (hrelated l hl).linksTargets ht
  · exact hseeAlso.linksTargets ht

/-- What the outline declares leads to registered references and levels. -/
theorem targets_collect_subset (linkId title : String) (step : Nat) :
    TopicView.targets { linkId, title, links := OutlineLinks.collect d.registry d.stable step } ⊆ d.linkIds := by
  have hrelated : ∀ l ∈ ([] : List RelatedList), d.LeadHome l.links := fun l hl => absurd hl List.not_mem_nil
  cases hentry : d.registry.entry? step with
  | none =>
    have hcollect : OutlineLinks.collect d.registry d.stable step = {} := by rw [OutlineLinks.collect, hentry]
    rw [hcollect]
    exact targets_subset leadHome_nil leadHome_nil leadHome_nil leadHome_nil leadHome_nil hrelated
  | some c =>
    rw [OutlineLinks.collect, hentry]
    refine targets_subset (leadHome_linksOf _ _) (leadHome_linksOf _ _) (leadHome_linksOf _ _) (leadHome_linksOf _ _) ?_
      hrelated
    intro l hl target htarget
    dsimp only at hl
    split at hl
    · exact absurd hl List.not_mem_nil
    · obtain ⟨level, hlevel, rfl⟩ := Option.map_eq_some_iff.1 (Option.mem_toList.1 hl)
      cases htarget
      exact levelId_mem (Registry.mem_of_level? hlevel)

theorem leadHome_related (start : Nat) (claimed : List Int) (tolerant : Bool) (t : Topic) :
    ∀ l ∈ (RelatedTopics.of (.book d.registry d.stable start) claimed tolerant t).lists, d.LeadHome l.links := by
  intro l hl k hk target htarget
  obtain ⟨type, -, hlist⟩ := List.mem_filterMap.1 hl
  rw [RelatedTopics.list?] at hlist
  split at hlist
  · cases hlist
  · cases hlist
    obtain ⟨filing, hfiling, hfiled⟩ := List.mem_filterMap.1 (List.mem_mergeSort.1 hk)
    obtain ⟨related, -, rfl⟩ := List.mem_map.1 hfiling
    cases hcase : RelatedTopics.filing (.book d.registry d.stable start) claimed related with
    | filed type' link =>
      rw [hcase] at hfiled
      dsimp only at hfiled
      split at hfiled
      · cases hfiled
        exact mem_linkIds_of_link? (Option.bind_eq_some_iff.2 ⟨_, RelatedTopics.link?_of_filing hcase, htarget⟩)
      · cases hfiled
    | _ =>
      rw [hcase] at hfiled
      cases hfiled

theorem targets_injectionView_subset (t : Topic) (doc : Document) : (d.injectionView e t doc).targets ⊆ d.linkIds := by
  rw [injectionView]
  split
  · split
    · exact targets_subset leadHome_nil leadHome_nil leadHome_nil leadHome_nil leadHome_nil
        (leadHome_related _ _ d.settings.ignoreMissingInjections t)
    · exact targets_collect_subset _ _ _
  · exact List.nil_subset _

theorem targets_view_subset : (d.view e).targets ⊆ d.linkIds := by
  rw [view]
  split
  · split
    · exact targets_injectionView_subset _ _
    · exact List.nil_subset _
  · exact List.nil_subset _

/-- **Whatever cross references are made for a reference lead to link ids of the book.** -/
theorem crossReferences_subset (d : Draft) (e : TopicEntry) : d.crossReferences e ⊆ d.linkIds := by
  intro target h
  rcases List.mem_append.1 h with h | h
  · exact targets_view_subset h
  · split at h
    · exact mem_linkIds_of_markerTargets h
    · exact absurd h List.not_mem_nil

end Draft
end Bookbinder
