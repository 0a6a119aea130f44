import Bookbinder.Proofs.KeptLinks
import Bookbinder.Proofs.MarkerGrammar
import Bookbinder.Proofs.SortedTitles
import Bookbinder.Proofs.SubstitutedMarkers
/-!
# What link markers give way to

A link marker of a book all ids of which are resolved gives way to one cross reference for each id, in the order of the
marker or sorted by the titles of the topics, laid out as its kind asks for (`Injection.gives_way_to_links`).  No id is
dropped on the way, because every topic that the registry knows has a nearest occurrence (`Registry.exists_nearest`).
-/
namespace Bookbinder

open Xml (Element Node linkends nodesElements)

/-! ## The ids of a marker -/

namespace Marker

theorem NamesIds.ids_ne_nil {ts : List Token} {ids : List MarkerId} (h : NamesIds ts ids) : ids ≠ [] := by
  cases h <;> exact List.cons_ne_nil _ _

/-- A comment that is a marker names an id, and just one if its kind takes no more. -/
theorem ids_of_read? {body : String} {m : Marker} (h : read? body = some m) :
    m.ids ≠ [] ∧ (m.kind.takesOne = true → m.ids.length = 1) := by
  obtain ⟨ts, -, hts⟩ := Option.bind_eq_some_iff.1 h
  obtain ⟨us, -, hids, hone⟩ := ofTokens?_eq_some_iff.1 hts
  exact ⟨hids.ids_ne_nil, hone⟩

end Marker

/-! ## The nearest occurrence -/

namespace Registry

/-- **A topic of the book has a nearest occurrence**, and links lead there. -/
theorem exists_nearest {r : Registry} {id : Int} (h : r.containsTopic id = true) (start : Nat) :
    ∃ c, r.closest? id start = some c ∧ r.IsNearest id start c := by
  have hentry : r.entriesFor id ≠ [] := by
    obtain ⟨e, he, hid⟩ := List.any_eq_true.1 h
    exact List.ne_nil_of_mem (List.mem_filter.2 ⟨he, hid⟩)
  obtain ⟨c, hc⟩ := Option.ne_none_iff_exists'.1 fun hnone => hentry (nearest_eq_none_iff.1 hnone)
  exact ⟨c, hc, isNearest_of_closest? hc⟩

end Registry

namespace Injection

/-! ## Pieces and layouts -/

/-- A cross reference to a link id. -/
def crossReference (linkId : String) : Node :=
  .element "xref" [("linkend", Text.escape linkId)] []

/-- What stands before a cross reference to an optional topic. -/
def optionalNote : Node :=
  .element "emphasis" [] [.text "Optional: "]

/-- What stands for an id of a marker: a cross reference to the nearest occurrence of its topic, behind a note if the id
is optional. -/
def StandsFor (r : Registry) (stable : Bool) (start : Nat) (id : MarkerId) (piece : List Node) : Prop :=
  ∃ c, r.IsNearest id.topicId start c ∧
    piece = (if id.isOptional then [optionalNote] else []) ++ [crossReference (c.linkId stable)]

def listItem (piece : List Node) : Node :=
  .element "listitem" [] [.element "para" [] piece]

/-- How pieces are laid out for a marker of a kind: as a list, as the items of one, or within the sentence. -/
inductive LaidOut : MarkerKind → List (List Node) → List Node → Prop
  | sequence (pieces : List (List Node)) : LaidOut .sequence pieces [.element "orderedlist" [] (pieces.map listItem)]
  | list (pieces : List (List Node)) : LaidOut .list pieces [.element "itemizedlist" [] (pieces.map listItem)]
  | sortedList (pieces : List (List Node)) :
    LaidOut .sortedList pieces [.element "itemizedlist" [] (pieces.map listItem)]
  | listItems (pieces : List (List Node)) : LaidOut .listItems pieces (pieces.map listItem)
  | single (piece : List Node) : LaidOut .single [piece] piece

/-- The ids of a marker in the order in which they are shown: as they stand, or sorted by the titles of their topics. -/
def ShownAs (t : Topic) (m : Marker) (ids : List MarkerId) : Prop :=
  if m.kind = .sortedList then SortedBy (fun id => ((t.related? id.topicId).map (·.title)).getD "") m.ids ids
  else ids = m.ids

theorem laidOut_linkNodes {targets : LinkTargets} {kind : MarkerKind} {rs : List (MarkerId × Topic)}
    (hlink : kind.isLink = true) (hne : linkPieces targets (arrange kind rs) ≠ [])
    (hone : kind.takesOne = true → (linkPieces targets (arrange kind rs)).length = 1) :
    LaidOut kind (linkPieces targets (arrange kind rs)) (linkNodes targets kind rs) := by
  rw [linkNodes.eq_def]
  dsimp only
  rw [if_neg (by simpa using hne)]
  generalize linkPieces targets (arrange kind rs) = pieces at hone
  have hitems : (pieces.map DocBook.listItem).map Element.toNode = pieces.map listItem := by
    rw [List.map_map]
    rfl
  cases kind with
  | sequence => exact hitems ▸ .sequence pieces
  | list => exact hitems ▸ .list pieces
  | listItems => exact .listItems pieces
  | sortedList => exact hitems ▸ .sortedList pieces
  | single =>
    obtain ⟨piece, rfl⟩ := List.length_eq_one_iff.1 (hone rfl)
    exact (List.flatten_singleton (l := piece)).symm ▸ .single piece
  | text => cases hlink
  | title => cases hlink

/-! ## Resolved ids -/

section Book

variable {r : Registry} {stable : Bool} {start : Nat} {t : Topic}

theorem standsFor_markedLink {id : MarkerId} {c : TopicEntry} (h : r.IsNearest id.topicId start c) (title : String) :
    StandsFor r stable start id
      (DocBook.markedLink ((Link.xref (c.linkId stable)).element title) id.isOptional) := by
  refine ⟨c, h, ?_⟩
  have hnote : (DocBook.emphasis DocBook.optionalMark).toNode = optionalNote := by
    have hmark : Text.escape DocBook.optionalMark = "Optional: " := by decide
    rw [optionalNote, ← hmark]
    rfl
  rw [← hnote, DocBook.markedLink]
  cases id.isOptional <;> rfl

/-- **Each id of the book has its piece**, and none is dropped. -/
theorem forall₂_linkPieces {rs : List (MarkerId × Topic)} (h : ∀ p ∈ rs, r.containsTopic p.1.topicId = true) :
    List.Forall₂ (StandsFor r stable start) (rs.map (·.1)) (linkPieces (.book r stable start) rs) := by
  induction rs with
  | nil => exact .nil
  | cons p rs ih =>
    obtain ⟨id, related⟩ := p
    obtain ⟨hid, hrs⟩ := List.forall_mem_cons.1 h
    obtain ⟨c, hc, hnearest⟩ := Registry.exists_nearest hid start
    have hlink : (LinkTargets.book r stable start).link? id.topicId = some (.xref (c.linkId stable)) :=
      congrArg (Option.map _) hc
    rw [linkPieces_cons hlink, List.map_cons]
    exact .cons (standsFor_markedLink hnearest related.title) (ih hrs)

end Book

section Resolving

variable {targets : LinkTargets} {t : Topic} {m : Marker}

theorem related?_of_mem_resolved {p : MarkerId × Topic} (h : p ∈ resolved targets t m) :
    t.related? p.1.topicId = some p.2 := by
  obtain ⟨id, -, hid⟩ := List.mem_filterMap.1 h
  obtain ⟨related, hrelated, rfl⟩ := Option.map_eq_some_iff.1 hid
  rw [resolve?] at hrelated
  split at hrelated
  · cases hrelated
  · exact hrelated

/-- Where all ids of a marker are resolved, none is lost and none is moved. -/
theorem map_fst_resolved (h : Settled targets t m) : (resolved targets t m).map (·.1) = m.ids := by
  rw [resolved, List.map_filterMap]
  have hall : ∀ id ∈ m.ids, ((resolve? targets t m.kind id).map fun r => (id, r)).map (·.1) = some id := by
    intro id hid
    have hsome : resolve? targets t m.kind id ≠ none := fun hnone =>
      isNone_resolve?.1 (Option.isNone_iff_eq_none.2 hnone) (h id hid)
    obtain ⟨related, hrelated⟩ := Option.ne_none_iff_exists'.1 hsome
    rw [hrelated, Option.map_some, Option.map_some]
  rw [List.filterMap_congr hall, List.filterMap_some]

/-- Sorting moves the ids along with the topics. -/
theorem shownAs_arrange (h : Settled targets t m) :
    ShownAs t m ((arrange m.kind (resolved targets t m)).map (·.1)) := by
  rw [ShownAs, arrange]
  split
  · rw [← map_fst_resolved h]
    refine (sortedBy_mergeSort (fun p : MarkerId × Topic => p.2.title) (resolved targets t m)).map fun p hp => ?_
    rw [related?_of_mem_resolved hp, Option.map_some, Option.getD_some]
  · exact map_fst_resolved h

/-- What a marker gives way to if it is to show links and all its ids are resolved. -/
theorem stead?_of_links {body : String} (hread : Marker.read? body = some m) (hlink : m.kind.isLink = true)
    (h : Settled targets t m) (tolerant : Bool) :
    stead? targets t tolerant body = some (linkNodes targets m.kind (resolved targets t m)) := by
  have hreplacement : replacement? targets tolerant t m = some (nodes targets m.kind (resolved targets t m)) := by
    rw [replacement?, substitute_eq, if_pos (.inr h)]
  rw [stead?_eq, hread, Option.bind_some, hreplacement, eq_linkNodes_of_replacement hlink hreplacement]
  rfl

end Resolving

/-! ## Links -/

/-- Nodes that show the ids of a marker as links: the ids in their order, the piece of each, and the pieces laid out. -/
structure ShowsLinks (r : Registry) (stable : Bool) (start : Nat) (t : Topic) (m : Marker) (ids : List MarkerId)
    (pieces : List (List Node)) (nodes : List Node) : Prop where
  order : ShownAs t m ids
  shown : List.Forall₂ (StandsFor r stable start) ids pieces
  layout : LaidOut m.kind pieces nodes
  /-- The cross references among the nodes lead to the nearest occurrences, one for each id. -/
  linkends : List.Forall₂ (fun id v => ∃ c, r.IsNearest id.topicId start c ∧ v = Text.escape (c.linkId stable)) ids
    (linkends (nodesElements nodes))

section Book

variable {r : Registry} {stable : Bool} {start : Nat}

theorem StandsFor.linkends_eq {id : MarkerId} {piece : List Node} (h : StandsFor r stable start id piece) :
    ∃ c, r.IsNearest id.topicId start c ∧ linkends (nodesElements piece) = [Text.escape (c.linkId stable)] := by
  obtain ⟨c, hc, rfl⟩ := h
  refine ⟨c, hc, ?_⟩
  cases id.isOptional <;> rfl

theorem forall₂_linkends {ids : List MarkerId} {pieces : List (List Node)}
    (h : List.Forall₂ (StandsFor r stable start) ids pieces) :
    List.Forall₂ (fun id v => ∃ c, r.IsNearest id.topicId start c ∧ v = Text.escape (c.linkId stable)) ids
      (pieces.flatMap fun p => linkends (nodesElements p)) := by
  induction h with
  | nil => exact .nil
  | cons hpiece _ ih =>
    obtain ⟨c, hc, hlinkends⟩ := hpiece.linkends_eq
    rw [List.flatMap_cons, hlinkends]
    exact .cons ⟨c, hc, rfl⟩ ih

/-- **A link marker gives way to a link for each of its ids.**  If all ids of a link marker are resolved in a book, the
comment gives way to one cross reference for each, to the nearest occurrence of its topic, whether or not missing
injections are tolerated. -/
theorem gives_way_to_links (r : Registry) (stable : Bool) (start : Nat) (tolerant : Bool) {t : Topic} {m : Marker}
    {body : String} (hread : Marker.read? body = some m) (hlink : m.kind.isLink = true)
    (hids : ∀ id ∈ m.ids, (∃ related ∈ t.outgoing, related.sourceId = id.topicId) ∧ r.containsTopic id.topicId = true) :
    ∃ ids pieces nodes, ShowsLinks r stable start t m ids pieces nodes ∧
      stead? (.book r stable start) t tolerant body = some nodes ∧
      ∀ root, (process (.book r stable start) tolerant t root).1
        = root.splice (stead? (.book r stable start) t tolerant) := by
  have hsettled : Settled (.book r stable start) t m := fun id hid => ⟨(hids id hid).1, fun _ => (hids id hid).2⟩
  have hfst := map_fst_resolved hsettled
  generalize hrs : resolved (.book r stable start) t m = rs at hfst
  have hcontains : ∀ p ∈ arrange m.kind rs, r.containsTopic p.1.topicId = true := by
    intro p hp
    have hmem : p.1 ∈ m.ids := hfst ▸ List.mem_map_of_mem ((arrange_perm _ _).mem_iff.1 hp)
    exact (hids p.1 hmem).2
  have hpieces : List.Forall₂ (StandsFor r stable start) ((arrange m.kind rs).map (·.1))
      (linkPieces (.book r stable start) (arrange m.kind rs)) := forall₂_linkPieces hcontains
  -- There are as many pieces as ids, and a marker has some, only one if its kind takes no more.
  have hlength : (linkPieces (.book r stable start) (arrange m.kind rs)).length = m.ids.length := by
    rw [← hpieces.length_eq, List.length_map, (arrange_perm _ _).length_eq, ← hfst, List.length_map]
  obtain ⟨hne, hone⟩ := Marker.ids_of_read? hread
  refine ⟨_, _, linkNodes (.book r stable start) m.kind rs, ⟨?_, hpieces, ?_, ?_⟩, ?_, fun root => ?_⟩
  · exact hrs ▸ shownAs_arrange hsettled
  · refine laidOut_linkNodes hlink (fun hnil => hne ?_) fun htakes => hlength.trans (hone htakes)
    rw [hnil] at hlength
    exact List.eq_nil_of_length_eq_zero hlength.symm
  · rw [linkends_linkNodes, ← linkends_linkPieces]
    exact forall₂_linkends hpieces
  · exact hrs ▸ stead?_of_links hread hlink hsettled tolerant
  · exact congrArg (·.1) (process_eq (.book r stable start) tolerant t root)

/-- The topics of a chapter in which one topic comes before and after another. -/
def surroundedRegistry : Registry :=
  (({} : Registry).register ⟨{ kind := .chapter, title := "Surroundings" },
    [.topic (.ofTopic 2 "B"), .topic (.ofTopic 1 "M"), .topic (.ofTopic 2 "B"), .topic (.ofTopic 3 "A")]⟩).2

/-- A sorted list of a topic that is named twice, at equal distances from the list, and of one that is optional. -/
theorem gives_way_to_links_of_surrounded :
    let t := { Topic.ofText 1 "M" "" with outgoing := [Topic.ofText 2 "B" "", Topic.ofText 3 "A" ""] }
    let m : Marker := ⟨.sortedList, [⟨2, false⟩, ⟨3, true⟩, ⟨2, false⟩]⟩
    Marker.read? " InjectListAlphaSort: 2, OPT: 3, 2 " = some m ∧
    (∀ id ∈ m.ids, (∃ related ∈ t.outgoing, related.sourceId = id.topicId) ∧
      surroundedRegistry.containsTopic id.topicId = true) ∧
    ∃ ids pieces nodes, ShowsLinks surroundedRegistry false 3 t m ids pieces nodes ∧
      stead? (.book surroundedRegistry false 3) t false " InjectListAlphaSort: 2, OPT: 3, 2 " = some nodes ∧
      ∀ root, (process (.book surroundedRegistry false 3) false t root).1
        = root.splice (stead? (.book surroundedRegistry false 3) t false) := by
  intro t m
  have hread : Marker.read? " InjectListAlphaSort: 2, OPT: 3, 2 " = some m := by decide +kernel
  have hids : ∀ id ∈ m.ids, (∃ related ∈ t.outgoing, related.sourceId = id.topicId) ∧
      surroundedRegistry.containsTopic id.topicId = true := by decide +kernel
  exact ⟨hread, hids, gives_way_to_links surroundedRegistry false 3 false hread rfl hids⟩

end Book

end Injection
end Bookbinder
