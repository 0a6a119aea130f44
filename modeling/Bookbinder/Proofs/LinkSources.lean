import Bookbinder.Proofs.CrossReferences
/-!
# Where the cross references of a page come from

A cross reference on a topic's page was written, by the author of the topic or of one whose text is injected, or it was
made by the library for a marker, a relation or a process.  `Draft.linkSources` lists those of a page in their order,
each with what it was made for.
-/
namespace Bookbinder

open Xml (Document Element Node linkends nodesElements)

/-- What a cross reference is made for. -/
inductive LinkCause where
  /-- A topic that a marker names or that a relation of topics leads to. -/
  | topic (id : Int)
  /-- A relation that the outline declares, to what a target id names. -/
  | relation (target : String)
  /-- The process that a reference is a step of. -/
  | process
deriving DecidableEq, Repr

/-- Where a cross reference comes from. -/
inductive LinkSource where
  /-- The text of a topic. -/
  | written (linkend : String)
  /-- The library, which made it to lead to a link id. -/
  | made (cause : LinkCause) (target : String)
deriving DecidableEq, Repr

namespace LinkSource

/-- The value that the cross reference names what it leads to by, as it is first put on the page. -/
def linkend : LinkSource → String
  | .written v => v
  | .made _ target => Text.escape target

def target? : LinkSource → Option String
  | .written _ => none
  | .made _ target => some target

/-- The cross references of an author's nodes. -/
def ofNodes (ns : List Node) : List LinkSource :=
  (linkends (nodesElements ns)).map .written

theorem map_linkend_ofNodes (ns : List Node) : (ofNodes ns).map linkend = linkends (nodesElements ns) := by
  rw [ofNodes, List.map_map]
  exact List.map_id _

/-- The cross references that links give way to, each link with what it is made for. -/
def ofLinks (ls : List (LinkCause × RelatedLink)) : List LinkSource :=
  ls.filterMap fun l => l.2.link.target?.map (.made l.1)

theorem map_linkend_ofLinks (ls : List (LinkCause × RelatedLink)) :
    (ofLinks ls).map linkend = (Template.linksTargets (ls.map (·.2))).map Text.escape := by
  rw [ofLinks, Template.linksTargets, List.map_filterMap, List.filterMap_map, List.map_filterMap]
  refine List.filterMap_congr fun l _ => ?_
  rw [Option.map_map]
  rfl

theorem mem_ofLinks {ls : List (LinkCause × RelatedLink)} {cause : LinkCause} {target : String}
    (h : .made cause target ∈ ofLinks ls) : ∃ l ∈ ls, l.1 = cause ∧ l.2.link = .xref target := by
  obtain ⟨⟨c, l⟩, hl, hmade⟩ := List.mem_filterMap.1 h
  obtain ⟨x, hx, he⟩ := Option.map_eq_some_iff.1 hmade
  cases he
  refine ⟨(c, l), hl, rfl, ?_⟩
  cases hlink : l.link with
  | xref y =>
    rw [hlink] at hx
    cases hx
    rfl
  | ulink url =>
    rw [hlink] at hx
    cases hx

theorem made_notMem_ofNodes {ns : List Node} {cause : LinkCause} {target : String} :
    .made cause target ∉ ofNodes ns := by
  intro h
  obtain ⟨v, -, he⟩ := List.mem_map.1 h
  cases he

end LinkSource

namespace Xml

/-! ## Trees whose comments are replaced -/

section Replacing

variable (label : String → List LinkSource)

mutual

/-- The cross references of a node once its comments are replaced, given those of what takes each comment's place. -/
def Node.sources : Node → List LinkSource
  | .element name as cs => (linkends [⟨name, as, []⟩]).map .written ++ nodesSources cs
  | .comment content => label content
  | .text _ | .cdata _ | .instruction _ => []

def nodesSources : List Node → List LinkSource
  | [] => []
  | n :: ns => n.sources ++ nodesSources ns

end

/-- The nodes that stand in a node's place: for a comment those that replace it, if there are any. -/
def Node.stead (g : String → Option (List Node)) : Node → List Node
  | .comment content => (g content).getD [.comment content]
  | n => [n]

/-- The cross references of nodes once their comments are replaced and the first of a name is dropped. -/
def bodySources (g : String → Option (List Node)) (name : String) : List Node → List LinkSource
  | [] => []
  | n :: ns =>
    if (n.stead g).any (·.isNamed name) then
      LinkSource.ofNodes ((n.stead g).eraseP (·.isNamed name)) ++ nodesSources label ns
    else n.sources label ++ bodySources g name ns

/-- A replacement of comments: what takes the place of each, and where the cross references of that come from. -/
structure Labelled {σ : Type} (f : String → σ → Option (List Node) × σ) (g : String → Option (List Node))
    (label : String → List LinkSource) : Prop where
  replaces : ∀ body s, (f body s).1 = g body
  shown : ∀ body, ∀ ms ∈ g body, (label body).map LinkSource.linkend = linkends (nodesElements ms)
  kept : ∀ body, g body = none → label body = []

variable {label} {σ : Type} {f : String → σ → Option (List Node) × σ} {g : String → Option (List Node)}

theorem fst_replaceComments_comment (h : Labelled f g label) (body : String) (s : σ) :
    ((Node.comment body).replaceComments f s).1 = (Node.comment body).stead g := by
  rw [Node.replaceComments, Node.stead, ← h.replaces body s]
  split
  · rename_i ms s' hreplace
    rw [hreplace]
    rfl
  · rename_i s' hreplace
    rw [hreplace]
    rfl

theorem linkends_stead_comment (h : Labelled f g label) (body : String) :
    linkends (nodesElements ((Node.comment body).stead g)) = (label body).map LinkSource.linkend := by
  rw [Node.stead]
  cases hg : g body with
  | some ms => exact (h.shown body ms hg).symm
  | none =>
    rw [h.kept body hg]
    rfl

mutual

theorem Node.linkends_replaceComments (h : Labelled f g label) : ∀ (n : Node) (s : σ),
    linkends (nodesElements (n.replaceComments f s).1) = (n.sources label).map LinkSource.linkend
  | .comment body, s => by
    rw [fst_replaceComments_comment h, linkends_stead_comment h, Node.sources]
  | .element name as cs, s => by
    have hsingle : (Node.replaceComments f (.element name as cs) s).1
        = [.element name as (nodesReplaceComments f cs s).1] := rfl
    have hown : (linkends [⟨name, as, []⟩]).map (LinkSource.linkend ∘ LinkSource.written) = linkends [⟨name, as, []⟩] :=
      List.map_id _
    rw [hsingle, nodesElements, nodesElements, List.append_nil, linkends_element,
      linkends_replaceComments h cs s, Node.sources, List.map_append, List.map_map, hown]
  | .text _, _ | .cdata _, _ | .instruction _, _ => rfl

/-- **Where the cross references of a tree come from whose comments are replaced.** -/
theorem linkends_replaceComments (h : Labelled f g label) : ∀ (ns : List Node) (s : σ),
    linkends (nodesElements (nodesReplaceComments f ns s).1) = (nodesSources label ns).map LinkSource.linkend
  | [], _ => rfl
  | n :: ns, s => by
    have hsplit : (nodesReplaceComments f (n :: ns) s).1
        = (n.replaceComments f s).1 ++ (nodesReplaceComments f ns (n.replaceComments f s).2).1 := rfl
    rw [hsplit, nodesElements_append, linkends_append, Node.linkends_replaceComments h n s,
      linkends_replaceComments h ns _, nodesSources, List.map_append]

end

/-- What takes a node's place has a name where what stands in its place has it, and is the same without it. -/
theorem eraseP_replaceComments (h : Labelled f g label) (name : String) (n : Node) (s : σ) :
    (n.replaceComments f s).1.any (·.isNamed name) = (n.stead g).any (·.isNamed name) ∧
      ((n.stead g).any (·.isNamed name) = true →
        (n.replaceComments f s).1.eraseP (·.isNamed name) = (n.stead g).eraseP (·.isNamed name)) := by
  cases n with
  | comment body =>
    rw [fst_replaceComments_comment h]
    exact ⟨rfl, fun _ => rfl⟩
  | element name' as cs =>
    have hreplaced : (Node.replaceComments f (.element name' as cs) s).1
        = [.element name' as (nodesReplaceComments f cs s).1] := rfl
    have hstead : (Node.element name' as cs).stead g = [.element name' as cs] := rfl
    rw [hreplaced, hstead]
    refine ⟨rfl, fun hnamed => ?_⟩
    have hname : (name' == name) = true := by simpa [Node.isNamed] using hnamed
    have hdropped (cs : List Node) : [Node.element name' as cs].eraseP (·.isNamed name) = [] :=
      List.eraseP_cons_of_pos hname
    rw [hdropped, hdropped]
  | text raw => exact ⟨rfl, fun _ => rfl⟩
  | cdata content => exact ⟨rfl, fun _ => rfl⟩
  | instruction content => exact ⟨rfl, fun _ => rfl⟩

/-- **Where they come from when the first child of a name is dropped.** -/
theorem linkends_dropFirstChild (h : Labelled f g label) (name : String) : ∀ (ns : List Node) (s : σ),
    linkends (nodesElements ((nodesReplaceComments f ns s).1.eraseP (·.isNamed name)))
      = (bodySources label g name ns).map LinkSource.linkend
  | [], _ => rfl
  | n :: ns, s => by
    have hsplit : (nodesReplaceComments f (n :: ns) s).1
        = (n.replaceComments f s).1 ++ (nodesReplaceComments f ns (n.replaceComments f s).2).1 := rfl
    obtain ⟨hany, herase⟩ := eraseP_replaceComments h name n s
    rw [hsplit, List.eraseP_append, hany, bodySources]
    split
    · rename_i hnamed
      rw [herase hnamed, nodesElements_append, linkends_append, linkends_replaceComments h ns,
        List.map_append, LinkSource.map_linkend_ofNodes]
    · rw [nodesElements_append, linkends_append, Node.linkends_replaceComments h n s,
        linkends_dropFirstChild h name ns, List.map_append]

mutual

theorem Node.exists_of_made {cause : LinkCause} {target : String} : ∀ n : Node, .made cause target ∈ n.sources label →
    ∃ body ∈ n.comments, .made cause target ∈ label body
  | .comment body, h => ⟨body, List.mem_singleton_self body, h⟩
  | .element name as cs, h => by
    rw [Node.sources] at h
    rcases List.mem_append.1 h with h | h
    · obtain ⟨v, -, he⟩ := List.mem_map.1 h
      cases he
    · exact exists_of_made cs h
  | .text _, h | .cdata _, h | .instruction _, h => absurd h List.not_mem_nil

theorem exists_of_made {cause : LinkCause} {target : String} : ∀ ns : List Node,
    .made cause target ∈ nodesSources label ns → ∃ body ∈ nodesComments ns, .made cause target ∈ label body
  | [], h => absurd h List.not_mem_nil
  | n :: ns, h => by
    rw [nodesSources] at h
    rcases List.mem_append.1 h with h | h
    · obtain ⟨body, hbody, hmade⟩ := Node.exists_of_made n h
      exact ⟨body, List.mem_append_left _ hbody, hmade⟩
    · obtain ⟨body, hbody, hmade⟩ := exists_of_made ns h
      exact ⟨body, List.mem_append_right _ hbody, hmade⟩

end

theorem exists_of_made_body {cause : LinkCause} {target name : String} : ∀ {ns : List Node},
    .made cause target ∈ bodySources label g name ns → ∃ body ∈ nodesComments ns, .made cause target ∈ label body
  | [], h => absurd h List.not_mem_nil
  | n :: ns, h => by
    rw [bodySources] at h
    split at h
    · rcases List.mem_append.1 h with h | h
      · exact absurd h LinkSource.made_notMem_ofNodes
      · obtain ⟨body, hbody, hmade⟩ := exists_of_made ns h
        exact ⟨body, List.mem_append_right _ hbody, hmade⟩
    · rcases List.mem_append.1 h with h | h
      · obtain ⟨body, hbody, hmade⟩ := Node.exists_of_made n h
        exact ⟨body, List.mem_append_left _ hbody, hmade⟩
      · obtain ⟨body, hbody, hmade⟩ := exists_of_made_body h
        exact ⟨body, List.mem_append_right _ hbody, hmade⟩

end Replacing

end Xml

/-! ## Markers -/

namespace Injection

variable (targets : LinkTargets) (tolerant : Bool) (t : Topic)

/-- The ids of a marker that are resolved, with the topics that they name. -/
def resolved (m : Marker) : List (MarkerId × Topic) :=
  m.ids.filterMap fun id => (resolve? targets t m.kind id).map fun r => (id, r)

/-- The cross references that links to resolved topics give way to. -/
def topicSources (rs : List (MarkerId × Topic)) : List LinkSource :=
  rs.filterMap fun r => ((targets.link? r.1.topicId).bind Link.target?).map (.made (.topic r.1.topicId))

/-- The cross references of what takes a marker's place. -/
def markerSources (m : Marker) : List LinkSource :=
  match replacement? targets tolerant t m with
  | some ms =>
    if m.kind.isLink then topicSources targets (arrange m.kind (resolved targets t m)) else LinkSource.ofNodes ms
  | none => []

def commentSources (body : String) : List LinkSource :=
  match Marker.read? body with
  | some m => markerSources targets tolerant t m
  | none => []

def atMarker (body : String) : Option (List Node) :=
  (Marker.read? body).bind (replacement? targets tolerant t)

variable {targets tolerant t}

theorem map_linkend_topicSources (rs : List (MarkerId × Topic)) :
    (topicSources targets rs).map LinkSource.linkend = (linkTargets targets rs).map Text.escape := by
  rw [topicSources, linkTargets, List.map_filterMap, List.map_filterMap]
  refine List.filterMap_congr fun r _ => ?_
  rw [Option.map_map]
  rfl

theorem map_linkend_commentSources {body : String} {ms : List Node} (h : ms ∈ atMarker targets tolerant t body) :
    (commentSources targets tolerant t body).map LinkSource.linkend = linkends (nodesElements ms) := by
  obtain ⟨m, hm, hms⟩ := Option.bind_eq_some_iff.1 h
  simp only [commentSources, hm, markerSources, hms]
  split
  · rename_i hlink
    rw [map_linkend_topicSources, eq_linkNodes_of_replacement hlink hms, linkends_linkNodes]
    rfl
  · exact LinkSource.map_linkend_ofNodes ms

theorem commentSources_eq_nil {body : String} (h : atMarker targets tolerant t body = none) :
    commentSources targets tolerant t body = [] := by
  rw [commentSources]
  cases hm : Marker.read? body with
  | some m =>
    have hstays : replacement? targets tolerant t m = none := by rw [atMarker, hm] at h; exact h
    simp only [markerSources, hstays]
  | none => rfl

theorem labelled_atComment : Xml.Labelled (atComment targets tolerant t) (atMarker targets tolerant t)
    (commentSources targets tolerant t) where
  replaces := fst_atComment tolerant t
  shown _ _ := map_linkend_commentSources
  kept _ := commentSources_eq_nil

theorem linkends_process (root : Element) :
    linkends (nodesElements ((process targets tolerant t root).1.dropFirstChild "title").children)
      = (Xml.bodySources (commentSources targets tolerant t) (atMarker targets tolerant t) "title" root.children).map
          LinkSource.linkend :=
  Xml.linkends_dropFirstChild labelled_atComment "title" root.children {}

/-- **What a comment has made is made for a topic that its marker names.** -/
theorem exists_of_made_comment {body target : String} {cause : LinkCause}
    (h : .made cause target ∈ commentSources targets tolerant t body) : ∃ m, Marker.read? body = some m ∧
      m.kind.isLink = true ∧
        ∃ id ∈ m.ids, cause = .topic id.topicId ∧ targets.link? id.topicId = some (.xref target) := by
  rw [commentSources] at h
  split at h
  · rename_i m hm
    rw [markerSources] at h
    split at h
    · split at h
      · rename_i hlink
        obtain ⟨r, hr, hmade⟩ := List.mem_filterMap.1 h
        obtain ⟨id, hid, hresolved⟩ := List.mem_filterMap.1 ((arrange_perm _ _).mem_iff.1 hr)
        obtain ⟨related, -, rfl⟩ := Option.map_eq_some_iff.1 hresolved
        obtain ⟨x, hx, he⟩ := Option.map_eq_some_iff.1 hmade
        obtain ⟨link, htarget, hlinkx⟩ := Option.bind_eq_some_iff.1 hx
        cases he
        refine ⟨m, hm, hlink, id, hid, rfl, ?_⟩
        cases link with
        | xref y =>
          cases hlinkx
          exact htarget
        | ulink url => cases hlinkx
      · exact absurd h LinkSource.made_notMem_ofNodes
    · exact absurd h List.not_mem_nil
  · exact absurd h List.not_mem_nil

end Injection

namespace Draft

open Template (TopicView linksTargets stepLinks)
open Injection (commentSources atMarker)

/-! ## Pages -/

/-- The links that the outline declares for a reference, of one kind. -/
def declaredLinks (d : Draft) (e : TopicEntry) (kind : RelationKind) : List (LinkCause × RelatedLink) :=
  (e.ref.relations.filter fun rel => rel.kind == kind).filterMap fun rel =>
    (OutlineLinks.resolve? d.registry d.stable rel.target).map fun l => (.relation rel.target, l)

/-- The link to the process that a reference is a step of, if it is one. -/
def processLink (d : Draft) (e : TopicEntry) : Option (LinkCause × RelatedLink) :=
  if (d.declaredLinks e .previous).isEmpty && (d.declaredLinks e .next).isEmpty then none
  else (d.registry.level? e.parent).map fun l => (.process, ⟨.xref (l.linkId d.stable), l.heading.title⟩)

/-- The links of a list of steps: the process that titles it, and the steps. -/
def titledSteps (process : Option (LinkCause × RelatedLink)) (ls : List (LinkCause × RelatedLink)) :
    List (LinkCause × RelatedLink) :=
  match process with
  | some p => if ls.isEmpty then [] else p :: ls
  | none => []

/-- The links to the related topics of one type that no marker claims. -/
def relatedLinks (targets : LinkTargets) (claimed : List Int) (t : Topic) (type : TopicType) :
    List (LinkCause × RelatedLink) :=
  (t.outgoing.filterMap fun r => match RelatedTopics.filing targets claimed r with
    | .filed type' link => if type' = type then some (.topic r.sourceId, link) else none
    | _ => none).mergeSort fun a b => decide (a.2.title ≤ b.2.title)

/-- The cross references of what a topic's document holds once all is injected, less the title. -/
def contentSources (d : Draft) (e : TopicEntry) (t : Topic) (doc : Document) : List LinkSource :=
  let targets := LinkTargets.book d.registry d.stable e.ref.step
  if d.policy.allowedFor t then
    Xml.bodySources (commentSources targets d.settings.ignoreMissingInjections t)
      (atMarker targets d.settings.ignoreMissingInjections t) "title" (d.occurrence e t doc).children
  else LinkSource.ofNodes ((d.occurrence e t doc).dropFirstChild "title").children

def pageSources (d : Draft) (e : TopicEntry) (t : Topic) (doc : Document) : List LinkSource :=
  if d.policy.allowed then
    match d.spec.outputStyle with
    | .skynet => d.contentSources e t doc ++ TopicType.listOrder.flatMap fun type => LinkSource.ofLinks
        (relatedLinks (.book d.registry d.stable e.ref.step) (d.substitution e t doc).2.claimed t type)
    | .outlined => LinkSource.ofLinks (d.declaredLinks e .prerequisite) ++ d.contentSources e t doc
        ++ LinkSource.ofLinks (titledSteps (d.processLink e) (d.declaredLinks e .previous))
        ++ LinkSource.ofLinks (titledSteps (d.processLink e) (d.declaredLinks e .next))
        ++ LinkSource.ofLinks (d.declaredLinks e .related)
  else d.contentSources e t doc

/-- **The cross references of a reference's page**, in their order. -/
def linkSources (d : Draft) (e : TopicEntry) : List LinkSource :=
  match e.topic with
  | some t => match (Manuscript.of t).document? with
    | some doc => d.pageSources e t doc
    | none => []
  | none => []

variable {d : Draft} {e : TopicEntry} {t : Topic} {doc : Document}

theorem linkSources_eq (htopic : e.topic = some t) (hmanuscript : (Manuscript.of t).document? = some doc) :
    d.linkSources e = d.pageSources e t doc := by
  rw [linkSources, htopic]
  simp only [hmanuscript]

theorem map_snd_declaredLinks (kind : RelationKind) : (d.declaredLinks e kind).map (·.2)
    = OutlineLinks.linksOf d.registry d.stable kind e.ref.relations := by
  rw [declaredLinks, OutlineLinks.linksOf, List.map_filterMap]
  refine List.filterMap_congr fun rel _ => ?_
  rw [Option.map_map]
  exact Option.map_id_apply

theorem map_snd_titledSteps (process : Option (LinkCause × RelatedLink)) (ls : List (LinkCause × RelatedLink)) :
    (titledSteps process ls).map (·.2) = stepLinks (process.map (·.2)) (ls.map (·.2)) := by
  cases process with
  | none => rfl
  | some p =>
    rw [titledSteps, Option.map_some, stepLinks, List.isEmpty_map]
    split <;> rfl

theorem entry?_of_mem (hsteps : d.registry.steps.Nodup) (he : e ∈ d.registry.entries) :
    d.registry.entry? e.ref.step = some e := by
  cases hentry : d.registry.entry? e.ref.step with
  | none => exact absurd (List.find?_eq_none.1 hentry e he) (by simp)
  | some c =>
    have hstep : c.ref.step = e.ref.step := by simpa using List.find?_some hentry
    rw [eq_of_step hsteps (Registry.mem_of_entry? hentry) he hstep]

theorem collect_eq (hsteps : d.registry.steps.Nodup) (he : e ∈ d.registry.entries) :
    OutlineLinks.collect d.registry d.stable e.ref.step = {
      prerequisites := (d.declaredLinks e .prerequisite).map (·.2)
      seeAlso := (d.declaredLinks e .related).map (·.2)
      previousSteps := (d.declaredLinks e .previous).map (·.2)
      nextSteps := (d.declaredLinks e .next).map (·.2)
      process := (d.processLink e).map (·.2) } := by
  have hprocess : (d.processLink e).map (·.2) =
      if (OutlineLinks.linksOf d.registry d.stable .previous e.ref.relations).isEmpty &&
        (OutlineLinks.linksOf d.registry d.stable .next e.ref.relations).isEmpty then none
      else (d.registry.level? e.parent).map fun l => ⟨.xref (l.linkId d.stable), l.heading.title⟩ := by
    rw [processLink, ← map_snd_declaredLinks, ← map_snd_declaredLinks, List.isEmpty_map, List.isEmpty_map]
    split
    · rfl
    · rw [Option.map_map]
      rfl
  rw [OutlineLinks.collect, entry?_of_mem hsteps he, hprocess]
  simp only [map_snd_declaredLinks]

theorem flatMap_links_related (targets : LinkTargets) (claimed : List Int) (tolerant : Bool) (t : Topic) :
    ((RelatedTopics.of targets claimed tolerant t).lists.flatMap fun l => linksTargets l.links)
      = TopicType.listOrder.flatMap fun type => linksTargets ((relatedLinks targets claimed t type).map (·.2)) := by
  have hsorted (ls : List (LinkCause × RelatedLink)) :
      (ls.mergeSort fun a b => decide (a.2.title ≤ b.2.title)).map (·.2)
        = (ls.map (·.2)).mergeSort fun a b => decide (a.title ≤ b.title) := List.map_mergeSort fun _ _ _ _ => rfl
  have hlinks (type : TopicType) : (relatedLinks targets claimed t type).map (·.2) =
      (RelatedTopics.filedUnder type (t.outgoing.map (RelatedTopics.filing targets claimed))).mergeSort
        fun a b => decide (a.title ≤ b.title) := by
    rw [relatedLinks, hsorted,
      RelatedTopics.filedUnder, List.map_filterMap, List.filterMap_map]
    congr 1
    refine List.filterMap_congr fun r _ => ?_
    dsimp only [Function.comp]
    cases RelatedTopics.filing targets claimed r with
    | filed type' link =>
      dsimp only
      split <;> rfl
    | _ => rfl
  have hlist (type : TopicType) :
      ((RelatedTopics.list? type (t.outgoing.map (RelatedTopics.filing targets claimed))).toList.flatMap fun l =>
        linksTargets l.links) = linksTargets ((relatedLinks targets claimed t type).map (·.2)) := by
    rw [hlinks, RelatedTopics.list?]
    split
    · rename_i hempty
      rw [List.isEmpty_iff.1 hempty, List.mergeSort_nil]
      rfl
    · exact List.append_nil _
  rw [RelatedTopics.of, List.filterMap_eq_flatMap_toList, List.flatMap_assoc]
  exact List.flatMap_congr fun type _ => hlist type

theorem linkends_injectedBody : linkends (nodesElements (d.injectedBody e t doc).children)
    = (d.contentSources e t doc).map LinkSource.linkend := by
  rw [injectedBody, root_injection, substitution, contentSources]
  split
  · exact Injection.linkends_process (d.occurrence e t doc)
  · exact (LinkSource.map_linkend_ofNodes _).symm

/-- **Where the cross references of a page come from.** -/
theorem linkends_pageSources (hsteps : d.registry.steps.Nodup) (he : e ∈ d.registry.entries) :
    linkends ((d.pageView e t doc).tags (Xml.nodesTags (d.injectedBody e t doc).children))
      = (d.pageSources e t doc).map LinkSource.linkend := by
  have hbody : linkends (Xml.nodesTags (d.injectedBody e t doc).children)
      = (d.contentSources e t doc).map LinkSource.linkend := by
    rw [Xml.nodesTags, Xml.linkends_map_tag, linkends_injectedBody]
  have hmap (ls : List (LinkCause × RelatedLink)) : (LinkSource.ofLinks ls).map LinkSource.linkend
      = (linksTargets (ls.map (·.2))).map Text.escape := LinkSource.map_linkend_ofLinks ls
  have hno : linksTargets [] = [] := rfl
  have hnoSteps : stepLinks none [] = [] := rfl
  rw [TopicView.linkends_tags, hbody, pageView, injectionView, pageSources]
  split
  · cases d.spec.outputStyle with
    | skynet =>
      simp only [List.map_append, List.map_flatMap, hmap, flatMap_links_related, hno, hnoSteps, List.map_nil,
        List.nil_append, List.append_nil]
    | outlined =>
      simp only [collect_eq hsteps he, List.map_append, hmap, map_snd_titledSteps, List.flatMap_nil, List.map_nil,
        List.append_nil]
  · simp only [hno, hnoSteps, List.flatMap_nil, List.map_nil, List.nil_append, List.append_nil]

end Draft
end Bookbinder
