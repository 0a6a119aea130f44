import Bookbinder.Injection.Substitution
import Bookbinder.Proofs.TopicPages
/-!
# Links that are injected

The cross references that a topic's document has once its markers are substituted are those that it had, and those that
the markers put there (`mem_linkends_process`); those of its page are joined by what the page's lists show
(`TopicView.mem_linkends_tags`).
-/
namespace Bookbinder

open Xml (Element Node)

namespace Xml

/-- The values by which the cross references among elements name what they lead to. -/
def linkends (es : List Element) : List String :=
  es.filterMap fun e => if e.name = "xref" then e.attribute? "linkend" else none

theorem linkends_append (es fs : List Element) : linkends (es ++ fs) = linkends es ++ linkends fs :=
  List.filterMap_append

theorem linkends_map_tag (es : List Element) : linkends (es.map Element.tag) = linkends es := by
  rw [linkends, List.filterMap_map]
  rfl

theorem linkends_element (name : String) (as : Attributes) (cs : List Node) :
    linkends (Node.element name as cs).elements = linkends [⟨name, as, []⟩] ++ linkends (nodesElements cs) := by
  rw [← linkends_append]
  rfl

theorem mem_nodesElements_iff {x : Element} {ns : List Node} : x ∈ nodesElements ns ↔ ∃ n ∈ ns, x ∈ n.elements := by
  induction ns with
  | nil => exact ⟨fun h => absurd h List.not_mem_nil, fun ⟨_, hn, _⟩ => absurd hn List.not_mem_nil⟩
  | cons n ns ih => rw [nodesElements, List.mem_append, ih, List.exists_mem_cons_iff]

theorem linkends_subset {ns ms : List Node} (h : ns ⊆ ms) :
    linkends (nodesElements ns) ⊆ linkends (nodesElements ms) := by
  intro v hv
  obtain ⟨x, hx, hlink⟩ := List.mem_filterMap.1 hv
  obtain ⟨n, hn, hxn⟩ := mem_nodesElements_iff.1 hx
  exact List.mem_filterMap.2 ⟨x, mem_nodesElements_iff.2 ⟨n, h hn, hxn⟩, hlink⟩

/-! ## Comments -/

section Replacing

variable {σ : Type} {f : String → σ → Option (List Node) × σ} {g : String → Option (List Node)}

mutual

theorem Node.mem_linkends_replaceComments (hf : ∀ body s, (f body s).1 = g body) {v : String} : ∀ (n : Node) (s : σ),
    v ∈ linkends (nodesElements (n.replaceComments f s).1) ↔
      v ∈ linkends n.elements ∨ ∃ body ∈ n.comments, ∃ ms ∈ g body, v ∈ linkends (nodesElements ms)
  | .comment content, s => by
    have hnone : v ∉ linkends (Node.comment content).elements := List.not_mem_nil
    rw [Node.replaceComments, Node.comments, or_iff_right hnone]
    simp only [List.mem_singleton, exists_eq_left]
    have hbody := hf content s
    split
    · rename_i ms s' h
      rw [← hbody, h]
      simp only [Option.mem_some_iff, exists_eq_left']
    · rename_i s' h
      rw [← hbody, h]
      constructor
      · exact fun hv => absurd hv List.not_mem_nil
      · rintro ⟨_, hms, -⟩
        cases hms
  | .element name as cs, s => by
    have hchildren := mem_linkends_replaceComments hf (v := v) cs s
    have hsingle : (Node.replaceComments f (.element name as cs) s).1
        = [.element name as (nodesReplaceComments f cs s).1] := rfl
    rw [hsingle, Node.comments, nodesElements, nodesElements, List.append_nil, linkends_element, linkends_element,
      List.mem_append, List.mem_append, hchildren, or_assoc]
  | .text _, _ => ⟨.inl, fun h => h.elim id fun ⟨_, hb, _⟩ => absurd hb List.not_mem_nil⟩
  | .cdata _, _ => ⟨.inl, fun h => h.elim id fun ⟨_, hb, _⟩ => absurd hb List.not_mem_nil⟩
  | .instruction _, _ => ⟨.inl, fun h => h.elim id fun ⟨_, hb, _⟩ => absurd hb List.not_mem_nil⟩

/-- **Replacing comments keeps all cross references and adds those of what takes the comments' places.** -/
theorem mem_linkends_replaceComments (hf : ∀ body s, (f body s).1 = g body) {v : String} : ∀ (ns : List Node) (s : σ),
    v ∈ linkends (nodesElements (nodesReplaceComments f ns s).1) ↔
      v ∈ linkends (nodesElements ns) ∨ ∃ body ∈ nodesComments ns, ∃ ms ∈ g body, v ∈ linkends (nodesElements ms)
  | [], _ => ⟨.inl, fun h => h.elim id fun ⟨_, hb, _⟩ => absurd hb List.not_mem_nil⟩
  | n :: ns, s => by
    have hn := Node.mem_linkends_replaceComments hf (v := v) n s
    have hns := mem_linkends_replaceComments hf (v := v) ns (n.replaceComments f s).2
    have hsplit : (nodesReplaceComments f (n :: ns) s).1
        = (n.replaceComments f s).1 ++ (nodesReplaceComments f ns (n.replaceComments f s).2).1 := rfl
    rw [hsplit, nodesElements_append, linkends_append, List.mem_append, hn, hns, nodesElements, linkends_append,
      List.mem_append, nodesComments]
    simp only [List.mem_append, or_and_right, exists_or]
    exact or_or_or_comm

end

theorem exists_replaceComments_subset {n : Node} : ∀ {ns : List Node} (s : σ), n ∈ ns →
    ∃ s', (n.replaceComments f s').1 ⊆ (nodesReplaceComments f ns s).1
  | m :: ns, s, h => by
    have hsplit : (nodesReplaceComments f (m :: ns) s).1
        = (m.replaceComments f s).1 ++ (nodesReplaceComments f ns (m.replaceComments f s).2).1 := rfl
    rw [hsplit]
    rcases List.mem_cons.1 h with rfl | h
    · exact ⟨s, List.subset_append_left _ _⟩
    · obtain ⟨s', hs'⟩ := exists_replaceComments_subset (m.replaceComments f s).2 h
      exact ⟨s', List.Subset.trans hs' (List.subset_append_right _ _)⟩

theorem mem_nodesComments_iff {body : String} {ns : List Node} :
    body ∈ nodesComments ns ↔ ∃ n ∈ ns, body ∈ n.comments := by
  induction ns with
  | nil => exact ⟨fun h => absurd h List.not_mem_nil, fun ⟨_, hn, _⟩ => absurd hn List.not_mem_nil⟩
  | cons n ns ih => rw [nodesComments, List.mem_append, ih, List.exists_mem_cons_iff]

/-- What takes the place of a comment stays when the first child of a name is dropped, unless the comment is within such
a child, or gives way to one. -/
theorem mem_linkends_dropFirstChild (hf : ∀ body s, (f body s).1 = g body) {name body : String} {ns ms : List Node}
    (hbody : body ∈ nodesComments (ns.filter fun n => !n.isNamed name)) (hms : g body = some ms)
    (hnames : ∀ m ∈ ms, m.isNamed name = false) {v : String} (hv : v ∈ linkends (nodesElements ms)) (s : σ) :
    v ∈ linkends (nodesElements ((nodesReplaceComments f ns s).1.eraseP (·.isNamed name))) := by
  obtain ⟨n, hn, hcomment⟩ := mem_nodesComments_iff.1 hbody
  obtain ⟨hn, hname⟩ := List.mem_filter.1 hn
  obtain ⟨s', hs'⟩ := exists_replaceComments_subset (f := f) s hn
  have hreplaced : v ∈ linkends (nodesElements (n.replaceComments f s').1) :=
    (Node.mem_linkends_replaceComments hf n s').2 (.inr ⟨body, hcomment, ms, hms, hv⟩)
  -- Nothing that comes of the node has the name, so none of it is what is dropped.
  refine linkends_subset (fun m hm => (List.mem_eraseP_of_neg ?_).2 (hs' hm)) hreplaced
  rw [Bool.not_eq_true]
  cases n with
  | element name' as cs =>
    have hother : (name' == name) = false := by simpa [Node.isNamed] using hname
    rw [List.mem_singleton.1 hm]
    exact hother
  | comment content =>
    rw [Node.comments, List.mem_singleton] at hcomment
    subst hcomment
    have hreplace := hf body s'
    rw [hms] at hreplace
    rw [Node.replaceComments] at hm
    split at hm
    · rename_i ms' _ h
      rw [h] at hreplace
      exact hnames m (Option.some.inj hreplace ▸ hm)
    · rename_i h
      rw [h] at hreplace
      cases hreplace
  | _ => exact absurd hcomment List.not_mem_nil

end Replacing

end Xml

/-! ## Markers -/

/-- The id that a link within the book leads to. -/
def Link.target? : Link → Option String
  | .xref target => some target
  | .ulink _ => none

theorem Link.linkends_element (title : String) (l : Link) :
    Xml.linkends (l.element title).toNode.elements = l.target?.toList.map Text.escape := by
  cases l <;> rfl

namespace Injection

open Xml (linkends nodesElements)

variable {targets : LinkTargets}

theorem linkends_markedLink (link : Element) (isOptional : Bool) :
    linkends (nodesElements (DocBook.markedLink link isOptional)) = linkends link.toNode.elements := by
  cases isOptional with
  | true =>
    have hnodes : nodesElements (DocBook.markedLink link true)
        = (DocBook.emphasis DocBook.optionalMark).toNode.elements ++ (link.toNode.elements ++ []) := rfl
    have hemphasis : linkends (DocBook.emphasis DocBook.optionalMark).toNode.elements = [] := rfl
    rw [hnodes, Xml.linkends_append, hemphasis, List.nil_append, List.append_nil]
  | false =>
    have hnodes : nodesElements (DocBook.markedLink link false) = link.toNode.elements ++ [] := rfl
    rw [hnodes, List.append_nil]

theorem arrange_perm (kind : MarkerKind) (rs : List (MarkerId × Topic)) : (arrange kind rs).Perm rs := by
  rw [arrange]
  split
  · exact List.mergeSort_perm _ _
  · exact .refl _

/-- The ids that the links of resolved topics lead to. -/
def linkTargets (targets : LinkTargets) (resolved : List (MarkerId × Topic)) : List String :=
  resolved.filterMap fun r => (targets.link? r.1.topicId).bind Link.target?

theorem linkPieces_cons {id : MarkerId} {link : Link} (h : targets.link? id.topicId = some link) (related : Topic)
    (rs : List (MarkerId × Topic)) : linkPieces targets ((id, related) :: rs)
      = DocBook.markedLink (link.element related.title) id.isOptional :: linkPieces targets rs :=
  List.filterMap_cons_some (by simp only [h, Option.map_some])

theorem linkends_linkPieces (resolved : List (MarkerId × Topic)) :
    ((linkPieces targets resolved).flatMap fun p => linkends (nodesElements p))
      = (linkTargets targets resolved).map Text.escape := by
  induction resolved with
  | nil => rfl
  | cons r rs ih =>
    obtain ⟨id, related⟩ := r
    cases hlink : targets.link? id.topicId with
    | none =>
      have hpieces : linkPieces targets ((id, related) :: rs) = linkPieces targets rs :=
        List.filterMap_cons_none (by simp only [hlink, Option.map_none])
      have htargets : linkTargets targets ((id, related) :: rs) = linkTargets targets rs :=
        List.filterMap_cons_none (by simp only [hlink, Option.bind_none])
      rw [hpieces, htargets, ih]
    | some link =>
      have htargets : linkTargets targets ((id, related) :: rs) = link.target?.toList ++ linkTargets targets rs := by
        cases link with
        | xref target => exact List.filterMap_cons_some (by simp only [hlink, Option.bind_some, Link.target?])
        | ulink url => exact List.filterMap_cons_none (by simp only [hlink, Option.bind_some, Link.target?])
      rw [linkPieces_cons hlink, htargets, List.flatMap_cons, linkends_markedLink, Link.linkends_element, ih, List.map_append]

theorem linkends_listItems (pieces : List (List Node)) :
    linkends (nodesElements (pieces.map fun p => (DocBook.listItem p).toNode))
      = pieces.flatMap fun p => linkends (nodesElements p) := by
  induction pieces with
  | nil => rfl
  | cons p ps ih =>
    have hitem : (DocBook.listItem p).toNode.elements
        = ⟨"listitem", [], [.element "para" [] p]⟩ :: ⟨"para", [], p⟩ :: (nodesElements p ++ []) := rfl
    rw [List.map_cons, nodesElements, hitem, Xml.linkends_append, ih, List.append_nil, List.flatMap_cons]
    rfl

theorem linkends_flatten (pieces : List (List Node)) :
    linkends (nodesElements pieces.flatten) = pieces.flatMap fun p => linkends (nodesElements p) := by
  induction pieces with
  | nil => rfl
  | cons p ps ih => rw [List.flatten_cons, Xml.nodesElements_append, Xml.linkends_append, ih, List.flatMap_cons]

theorem linkends_linkNodes {kind : MarkerKind} (resolved : List (MarkerId × Topic)) :
    linkends (nodesElements (linkNodes targets kind resolved))
      = (linkTargets targets (arrange kind resolved)).map Text.escape := by
  have hlist {name : String} (hname : name ≠ "xref") (pieces : List (List Node)) :
      linkends (nodesElements [Node.element name [] ((pieces.map DocBook.listItem).map Element.toNode)])
        = pieces.flatMap fun p => linkends (nodesElements p) := by
    have hown : linkends [⟨name, [], []⟩] = [] := by
      rw [linkends, List.filterMap_cons, if_neg hname]
      rfl
    rw [nodesElements, nodesElements, List.append_nil, Xml.linkends_element, hown, List.nil_append, List.map_map]
    exact linkends_listItems pieces
  rw [← linkends_linkPieces, linkNodes.eq_def]
  dsimp only
  split
  · rename_i hempty
    rw [List.isEmpty_iff.1 hempty]
    rfl
  · split
    · exact linkends_flatten _
    · exact linkends_listItems _
    · exact hlist (show "orderedlist" ≠ "xref" by decide) _
    · exact hlist (show "itemizedlist" ≠ "xref" by decide) _

/-- The nodes that take a marker's place, if any do. -/
def replacement? (targets : LinkTargets) (tolerant : Bool) (t : Topic) (m : Marker) : Option (List Node) :=
  (substitute targets tolerant t m {}).1

theorem fst_substitute {tolerant : Bool} {t : Topic} (m : Marker) (tally : Tally) :
    (substitute targets tolerant t m tally).1 = replacement? targets tolerant t m := by
  rw [replacement?, substitute, substitute]
  dsimp only
  split <;> rfl

/-- The ids that the links of a marker lead to: of each topic that it names and that is resolved, unless the marker
stays in its place. -/
def markerTargets (targets : LinkTargets) (tolerant : Bool) (t : Topic) (m : Marker) : List String :=
  if m.kind.isLink && (replacement? targets tolerant t m).isSome then
    (m.ids.filter fun id => (resolve? targets t m.kind id).isSome).filterMap fun id =>
      (targets.link? id.topicId).bind Link.target?
  else []

theorem eq_nodes_of_replacement {tolerant : Bool} {t : Topic} {m : Marker} {ms : List Node}
    (h : replacement? targets tolerant t m = some ms) : ms = nodes targets m.kind
      (m.ids.filterMap fun id => (resolve? targets t m.kind id).map fun r => (id, r)) := by
  rw [replacement?, substitute] at h
  dsimp only at h
  split at h
  · cases h
  · exact (Option.some.inj h).symm

theorem eq_linkNodes_of_replacement {tolerant : Bool} {t : Topic} {m : Marker} (hlink : m.kind.isLink = true)
    {ms : List Node} (h : replacement? targets tolerant t m = some ms) : ms = linkNodes targets m.kind
      (m.ids.filterMap fun id => (resolve? targets t m.kind id).map fun r => (id, r)) := by
  have hnodes (resolved : List (MarkerId × Topic)) :
      nodes targets m.kind resolved = linkNodes targets m.kind resolved := by
    cases hkind : m.kind <;> first | rfl | (rw [hkind] at hlink; cases hlink)
  rw [← hnodes]
  exact eq_nodes_of_replacement h

/-- **The links that a marker gives way to lead to the topics that it names.** -/
theorem mem_linkends_replacement {tolerant : Bool} {t : Topic} {m : Marker} (hlink : m.kind.isLink = true)
    {ms : List Node} (h : replacement? targets tolerant t m = some ms) {v : String} :
    v ∈ linkends (nodesElements ms) ↔ ∃ target ∈ markerTargets targets tolerant t m, Text.escape target = v := by
  have hms := eq_linkNodes_of_replacement hlink h
  have htargets (target : String) : target ∈ linkTargets targets (arrange m.kind
      (m.ids.filterMap fun id => (resolve? targets t m.kind id).map fun r => (id, r))) ↔
        target ∈ markerTargets targets tolerant t m := by
    rw [markerTargets, hlink, h, if_pos (show (true && (some ms).isSome) = true from rfl),
      linkTargets, List.mem_filterMap, List.mem_filterMap]
    constructor
    · rintro ⟨p, hp, htarget⟩
      obtain ⟨id, hid, hr⟩ := List.mem_filterMap.1 ((arrange_perm _ _).mem_iff.1 hp)
      obtain ⟨r, hresolve, rfl⟩ := Option.map_eq_some_iff.1 hr
      exact ⟨id, List.mem_filter.2 ⟨hid, by rw [hresolve]; rfl⟩, htarget⟩
    · rintro ⟨id, hid, htarget⟩
      obtain ⟨hid, hsome⟩ := List.mem_filter.1 hid
      obtain ⟨r, hr⟩ := Option.isSome_iff_exists.1 hsome
      exact ⟨(id, r), (arrange_perm _ _).mem_iff.2 (List.mem_filterMap.2 ⟨id, hid, by rw [hr]; rfl⟩), htarget⟩
  rw [hms, linkends_linkNodes, List.mem_map]
  simp only [htargets]

/-- What is no link comes with the text of a related topic. -/
theorem exists_of_linkend_of_not_isLink {tolerant : Bool} {t : Topic} {m : Marker} (hlink : m.kind.isLink = false)
    {ms : List Node} (h : replacement? targets tolerant t m = some ms) {v : String}
    (hv : v ∈ linkends (nodesElements ms)) :
    ∃ related ∈ t.outgoing, v ∈ linkends (nodesElements (bodyOf related)) := by
  rw [eq_nodes_of_replacement h, nodes.eq_def] at hv
  split at hv
  · split at hv
    · rename_i id related hhead
      obtain ⟨_, -, hr⟩ := List.mem_filterMap.1 (List.mem_of_head? hhead)
      obtain ⟨related, hresolve, he⟩ := Option.map_eq_some_iff.1 hr
      cases he
      rw [resolve?] at hresolve
      split at hresolve
      · cases hresolve
      · exact ⟨related, List.mem_of_find?_eq_some hresolve, hv⟩
    · exact absurd hv List.not_mem_nil
  · split at hv
    · exact absurd hv List.not_mem_nil
    · exact absurd hv List.not_mem_nil
  · rename_i htext htitle
    cases hkind : m.kind with
    | text => exact absurd hkind htext
    | title => exact absurd hkind htitle
    | _ => rw [hkind] at hlink; cases hlink

/-! ## Documents with their markers substituted -/

/-- What becomes of a comment when markers are substituted. -/
def atComment (targets : LinkTargets) (tolerant : Bool) (t : Topic) (body : String) (tally : Tally) :
    Option (List Node) × Tally :=
  match Marker.read? body with
  | some m => substitute targets tolerant t m tally
  | none => (none, tally)

theorem fst_atComment (tolerant : Bool) (t : Topic) (body : String) (tally : Tally) :
    (atComment targets tolerant t body tally).1 = (Marker.read? body).bind (replacement? targets tolerant t) := by
  rw [atComment]
  cases Marker.read? body with
  | some m => exact fst_substitute m tally
  | none => rfl

theorem children_process (tolerant : Bool) (t : Topic) (root : Element) : (process targets tolerant t root).1.children
    = (Xml.nodesReplaceComments (atComment targets tolerant t) root.children {}).1 := rfl

/-- The markers of a document. -/
def markers (root : Element) : List Marker :=
  root.comments.filterMap Marker.read?

/-- The markers of a document outside its titles. -/
def bodyMarkers (root : Element) : List Marker :=
  (Xml.nodesComments (root.children.filter fun n => !n.isNamed "title")).filterMap Marker.read?

theorem bodyMarkers_subset (root : Element) : bodyMarkers root ⊆ markers root := by
  intro m hm
  obtain ⟨body, hbody, hread⟩ := List.mem_filterMap.1 hm
  obtain ⟨n, hn, hcomment⟩ := Xml.mem_nodesComments_iff.1 hbody
  exact List.mem_filterMap.2 ⟨body, Xml.mem_nodesComments_iff.2 ⟨n, List.mem_of_mem_filter hn, hcomment⟩, hread⟩

/-- **The cross references of a document whose markers are substituted**: those that it had, and those of what takes the
markers' places. -/
theorem mem_linkends_process {tolerant : Bool} {t : Topic} {root : Element} {v : String} :
    v ∈ linkends (nodesElements (process targets tolerant t root).1.children) ↔
      v ∈ linkends (nodesElements root.children) ∨ ∃ m ∈ markers root, ∃ ms ∈ replacement? targets tolerant t m,
        v ∈ linkends (nodesElements ms) := by
  rw [children_process, Xml.mem_linkends_replaceComments (fst_atComment tolerant t) root.children {}]
  refine or_congr_right ?_
  constructor
  · rintro ⟨body, hbody, ms, hms, hv⟩
    obtain ⟨m, hm, hreplace⟩ := Option.bind_eq_some_iff.1 hms
    exact ⟨m, List.mem_filterMap.2 ⟨body, hbody, hm⟩, ms, hreplace, hv⟩
  · rintro ⟨m, hm, ms, hms, hv⟩
    obtain ⟨body, hbody, hread⟩ := List.mem_filterMap.1 hm
    exact ⟨body, hbody, ms, Option.bind_eq_some_iff.2 ⟨m, hread, hms⟩, hv⟩

theorem isNamed_linkNodes {kind : MarkerKind} {resolved : List (MarkerId × Topic)} :
    ∀ n ∈ linkNodes targets kind resolved, n.isNamed "title" = false := by
  intro n hn
  rw [linkNodes.eq_def] at hn
  dsimp only at hn
  split at hn
  · exact absurd hn List.not_mem_nil
  · split at hn
    · obtain ⟨p, hp, hn⟩ := List.mem_flatten.1 hn
      obtain ⟨r, -, hr⟩ := List.mem_filterMap.1 hp
      obtain ⟨link, -, rfl⟩ := Option.map_eq_some_iff.1 hr
      have hlink : (link.element r.2.title).toNode.isNamed "title" = false := by
        cases link <;> exact of_decide_eq_true rfl
      rw [DocBook.markedLink] at hn
      split at hn
      · rcases List.mem_cons.1 hn with rfl | hn
        · exact of_decide_eq_true rfl
        · exact List.mem_singleton.1 hn ▸ hlink
      · exact List.mem_singleton.1 hn ▸ hlink
    · obtain ⟨p, -, rfl⟩ := List.mem_map.1 hn
      exact of_decide_eq_true rfl
    · rw [List.mem_singleton.1 hn]
      exact of_decide_eq_true rfl
    · rw [List.mem_singleton.1 hn]
      exact of_decide_eq_true rfl

/-- **The links of a marker outside the titles stay when the title is dropped.** -/
theorem mem_linkends_of_bodyMarkers {tolerant : Bool} {t : Topic} {root : Element} {m : Marker}
    (hm : m ∈ bodyMarkers root) {target : String} (ht : target ∈ markerTargets targets tolerant t m) :
    Text.escape target ∈
      linkends (nodesElements ((process targets tolerant t root).1.dropFirstChild "title").children) := by
  obtain ⟨body, hbody, hread⟩ := List.mem_filterMap.1 hm
  have hshown : (m.kind.isLink && (replacement? targets tolerant t m).isSome) = true := by
    by_contra hnone
    rw [markerTargets, if_neg hnone] at ht
    exact absurd ht List.not_mem_nil
  rw [Bool.and_eq_true] at hshown
  obtain ⟨ms, hms⟩ := Option.isSome_iff_exists.1 hshown.2
  have hnames : ∀ n ∈ ms, n.isNamed "title" = false := by
    rw [eq_linkNodes_of_replacement hshown.1 hms]
    exact isNamed_linkNodes
  refine Xml.mem_linkends_dropFirstChild (fst_atComment tolerant t) hbody
    (Option.bind_eq_some_iff.2 ⟨m, hread, hms⟩) hnames
    ((mem_linkends_replacement hshown.1 hms).2 ⟨target, ht, rfl⟩) {}

end Injection

/-! ## Lists of links -/

namespace Template

open RelatedLink (listTags itemTags)
open Xml (linkends)

/-- The ids that links lead to. -/
def linksTargets (ls : List RelatedLink) : List String :=
  ls.filterMap (·.link.target?)

theorem linksTargets_cons (l : RelatedLink) (ls : List RelatedLink) :
    linksTargets (l :: ls) = l.link.target?.toList ++ linksTargets ls := by
  rw [linksTargets, List.filterMap_cons]
  cases l.link.target? <;> rfl

theorem linkends_tag (l : RelatedLink) : linkends [l.tag] = l.link.target?.toList.map Text.escape := by
  obtain ⟨link, title⟩ := l
  cases link <;> rfl

theorem linkends_listTags (role : String) (title : List Element) (ls : List RelatedLink) :
    linkends (listTags role title ls) = linkends title ++ (linksTargets ls).map Text.escape := by
  have hitems : linkends (ls.flatMap itemTags) = (linksTargets ls).map Text.escape := by
    induction ls with
    | nil => rfl
    | cons l ls ih =>
      have hitem : linkends l.itemTags = linkends [l.tag] := rfl
      rw [List.flatMap_cons, Xml.linkends_append, hitem, linkends_tag, ih, linksTargets_cons, List.map_append]
  have hstart : linkends [⟨"itemizedlist", [("role", role)], []⟩, ⟨"title", [], []⟩] = [] := rfl
  rw [listTags, Xml.linkends_append, Xml.linkends_append, hstart, hitems, List.nil_append]

theorem linkends_linksTags (role : String) (ls : List RelatedLink) :
    linkends (linksTags role [] ls) = (linksTargets ls).map Text.escape := by
  rw [linksTags]
  split
  · rename_i hempty
    rw [List.isEmpty_iff.1 hempty]
    rfl
  · rw [linkends_listTags]
    rfl

/-- The links of a list of steps: the process that titles it, and the steps. -/
def stepLinks (process : Option RelatedLink) (ls : List RelatedLink) : List RelatedLink :=
  match process with
  | some p => if ls.isEmpty then [] else p :: ls
  | none => []

theorem linkends_stepsTags (process : Option RelatedLink) (role : String) (ls : List RelatedLink) :
    linkends (stepsTags process role ls) = (linksTargets (stepLinks process ls)).map Text.escape := by
  cases process with
  | none => rfl
  | some p =>
    rw [stepsTags, stepLinks, linksTags]
    split
    · rfl
    · rw [linkends_listTags, linkends_tag, linksTargets_cons, List.map_append]

namespace TopicView

/-- The ids that the lists of a page lead to. -/
def targets (v : TopicView) : List String :=
  linksTargets v.links.prerequisites ++ linksTargets (stepLinks v.links.process v.links.previousSteps)
    ++ linksTargets (stepLinks v.links.process v.links.nextSteps) ++ v.related.flatMap (fun l => linksTargets l.links)
    ++ linksTargets v.links.seeAlso

/-- The cross references of a page, in their order: its content stands after the prerequisites. -/
theorem linkends_tags (v : TopicView) (content : List Element) : linkends (v.tags content) =
    (linksTargets v.links.prerequisites).map Text.escape ++ linkends content
      ++ (linksTargets (stepLinks v.links.process v.links.previousSteps)).map Text.escape
      ++ (linksTargets (stepLinks v.links.process v.links.nextSteps)).map Text.escape
      ++ (v.related.flatMap fun l => linksTargets l.links).map Text.escape
      ++ (linksTargets v.links.seeAlso).map Text.escape := by
  have hstart : linkends [⟨"section", [("id", Text.escape v.linkId)], []⟩, ⟨"title", [], []⟩] = [] := rfl
  have hrelated : linkends (v.related.flatMap relatedTags)
      = (v.related.flatMap fun l => linksTargets l.links).map Text.escape := by
    induction v.related with
    | nil => rfl
    | cons l ls ih =>
      rw [List.flatMap_cons, List.flatMap_cons, Xml.linkends_append, ih, List.map_append,
        relatedTags, linkends_listTags]
      rfl
  have hbug : linkends (bugTags (v.bugLink.getD "")) = [] := by
    rw [bugTags]
    split <;> rfl
  rw [tags]
  simp only [Xml.linkends_append, hstart, linkends_linksTags, linkends_stepsTags, hrelated, hbug, List.nil_append,
    List.append_nil]

/-- **The cross references of a page**: those of its content, and those of its lists. -/
theorem mem_linkends_tags (v : TopicView) (content : List Element) {x : String} : x ∈ linkends (v.tags content) ↔
    x ∈ linkends content ∨ ∃ target ∈ v.targets, Text.escape target = x := by
  rw [linkends_tags, targets]
  simp only [List.mem_append, List.mem_map, or_and_right, exists_or]
  grind

end TopicView
end Template
end Bookbinder
