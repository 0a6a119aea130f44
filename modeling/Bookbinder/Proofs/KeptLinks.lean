import Bookbinder.Proofs.CrossReferences
import Bookbinder.Proofs.LinkSources
/-!
# Cross references that keep their targets

Once a page is rendered the ids within it are made unique, and every attribute that names one of them is renamed too.
A cross reference that was made for a link id of the book is renamed as well if the topic has an id of that name
(`Bindery.madeLinks_kept_iff`): it then leads to an element of the topic's own.
-/
namespace Bookbinder

open Xml (Document Element Node linkends nodesElements)

namespace Registry

/-- The reference to a topic that is nearest to a step, of two that are equally near the earlier one. -/
structure IsNearest (r : Registry) (id : Int) (start : Nat) (c : TopicEntry) : Prop where
  mem : c ∈ r.entriesFor id
  nearest : ∀ e ∈ r.entriesFor id, distance c.ref.step start < distance e.ref.step start ∨
    distance c.ref.step start = distance e.ref.step start ∧ c.ref.step ≤ e.ref.step

theorem nearest_eq_none_iff {start : Nat} {es : List TopicEntry} : nearest start es = none ↔ es = [] := by
  refine ⟨fun h => ?_, fun h => by rw [h, nearest]⟩
  cases es with
  | nil => rfl
  | cons e es =>
    rw [nearest] at h
    split at h
    · cases h
    · dsimp only at h
      split at h <;> cases h

theorem le_of_nearest {start : Nat} : ∀ {es : List TopicEntry} {c : TopicEntry}, nearest start es = some c →
    ∀ e ∈ es, distance c.ref.step start < distance e.ref.step start ∨
      distance c.ref.step start = distance e.ref.step start ∧ c.ref.step ≤ e.ref.step
  | [], _, h => by cases h
  | e :: es, c, h => by
    rw [nearest] at h
    cases hrest : nearest start es with
    | none =>
      rw [hrest] at h
      cases h
      intro x hx
      rw [nearest_eq_none_iff.1 hrest, List.mem_singleton] at hx
      exact hx ▸ .inr ⟨rfl, Nat.le_refl _⟩
    | some e' =>
      rw [hrest] at h
      have hle := le_of_nearest hrest
      dsimp only at h
      intro x hx
      rcases List.mem_cons.1 hx with rfl | hx
      · split at h <;> cases h <;> omega
      · have hx' := hle x hx
        split at h <;> cases h <;> omega

theorem isNearest_of_closest? {r : Registry} {id : Int} {start : Nat} {c : TopicEntry}
    (h : r.closest? id start = some c) : r.IsNearest id start c :=
  ⟨mem_of_nearest h, le_of_nearest h⟩

end Registry

namespace Draft

/-! ## Where they are meant to lead -/

/-- Where a cross reference of a reference is meant to lead, by what it is made for. -/
inductive Intended (d : Draft) (e : TopicEntry) : LinkCause → String → Prop
  | topic (id : Int) (c : TopicEntry) (nearest : d.registry.IsNearest id e.ref.step c) :
    d.Intended e (.topic id) (c.linkId d.stable)
  | reference (name : String) (step : Nat) (c : TopicEntry) (names : d.registry.resolve? name = some (.topic step))
    (entry : d.registry.entry? step = some c) : d.Intended e (.relation name) (c.linkId d.stable)
  | level (name : String) (index : Nat) (l : LevelEntry) (names : d.registry.resolve? name = some (.level index))
    (level : d.registry.level? index = some l) : d.Intended e (.relation name) (l.linkId d.stable)
  | process (l : LevelEntry) (parent : d.registry.level? e.parent = some l) :
    d.Intended e .process (l.linkId d.stable)

variable {d : Draft} {e : TopicEntry} {t : Topic} {doc : Document} {cause : LinkCause} {target : String}

theorem Intended.mem_linkIds (h : d.Intended e cause target) : target ∈ d.linkIds := by
  cases h with
  | topic id c nearest => exact linkId_mem (List.mem_of_mem_filter nearest.mem)
  | reference name step c names entry => exact linkId_mem (Registry.mem_of_entry? entry)
  | level name index l names level => exact levelId_mem (Registry.mem_of_level? level)
  | process l parent => exact levelId_mem (Registry.mem_of_level? parent)

theorem intended_of_link? {id : Int}
    (h : (LinkTargets.book d.registry d.stable e.ref.step).link? id = some (.xref target)) :
    d.Intended e (.topic id) target := by
  obtain ⟨c, hc, hlink⟩ := Option.map_eq_some_iff.1 h
  cases hlink
  exact .topic id c (Registry.isNearest_of_closest? hc)

theorem intended_of_content (h : .made cause target ∈ d.contentSources e t doc) : d.Intended e cause target := by
  rw [contentSources] at h
  split at h
  · obtain ⟨body, -, hbody⟩ := Xml.exists_of_made_body h
    obtain ⟨m, -, -, id, -, rfl, hlink⟩ := Injection.exists_of_made_comment hbody
    exact intended_of_link? hlink
  · exact absurd h LinkSource.made_notMem_ofNodes

theorem intended_of_declared {kind : RelationKind} {l : RelatedLink} (hl : (cause, l) ∈ d.declaredLinks e kind)
    (hlink : l.link = .xref target) : d.Intended e cause target := by
  obtain ⟨rel, -, hrel⟩ := List.mem_filterMap.1 hl
  obtain ⟨l', hresolve, he⟩ := Option.map_eq_some_iff.1 hrel
  cases he
  rw [OutlineLinks.resolve?] at hresolve
  split at hresolve
  · rename_i step hnames
    obtain ⟨c, hc, rfl⟩ := Option.map_eq_some_iff.1 hresolve
    cases hlink
    exact .reference rel.target step c hnames hc
  · rename_i index hnames
    obtain ⟨c, hc, rfl⟩ := Option.map_eq_some_iff.1 hresolve
    cases hlink
    exact .level rel.target index c hnames hc
  · cases hresolve

theorem intended_of_process {l : RelatedLink} (hl : (cause, l) ∈ d.processLink e) (hlink : l.link = .xref target) :
    d.Intended e cause target := by
  rw [processLink] at hl
  split at hl
  · cases hl
  · obtain ⟨level, hlevel, he⟩ := Option.map_eq_some_iff.1 hl
    cases he
    cases hlink
    exact .process level hlevel

theorem intended_of_titledSteps {kind : RelationKind} {l : RelatedLink}
    (hl : (cause, l) ∈ titledSteps (d.processLink e) (d.declaredLinks e kind)) (hlink : l.link = .xref target) :
    d.Intended e cause target := by
  unfold titledSteps at hl
  split at hl
  · rename_i p hp
    split at hl
    · exact absurd hl List.not_mem_nil
    · rcases List.mem_cons.1 hl with rfl | hl
      · exact intended_of_process hp hlink
      · exact intended_of_declared hl hlink
  · exact absurd hl List.not_mem_nil

theorem intended_of_related {claimed : List Int} {type : TopicType} {l : RelatedLink}
    (hl : (cause, l) ∈ relatedLinks (.book d.registry d.stable e.ref.step) claimed t type)
    (hlink : l.link = .xref target) : d.Intended e cause target := by
  obtain ⟨r, -, hr⟩ := List.mem_filterMap.1 (List.mem_mergeSort.1 hl)
  cases hfiling : RelatedTopics.filing (.book d.registry d.stable e.ref.step) claimed r with
  | filed type' link =>
    rw [hfiling] at hr
    dsimp only at hr
    split at hr
    · cases hr
      exact intended_of_link? (hlink ▸ RelatedTopics.link?_of_filing hfiling)
    · cases hr
  | _ =>
    rw [hfiling] at hr
    cases hr

theorem intended_of_ofLinks {ls : List (LinkCause × RelatedLink)} (h : .made cause target ∈ LinkSource.ofLinks ls)
    (hls : ∀ l : RelatedLink, (cause, l) ∈ ls → l.link = .xref target → d.Intended e cause target) :
    d.Intended e cause target := by
  obtain ⟨⟨_, l⟩, hl, rfl, hlink⟩ := LinkSource.mem_ofLinks h
  exact hls l hl hlink

/-- **Every cross reference that is made for a page is put on it to lead where it is meant to.** -/
theorem intended_of_made (h : .made cause target ∈ d.linkSources e) : d.Intended e cause target := by
  rw [linkSources] at h
  split at h
  · split at h
    · rw [pageSources] at h
      split at h
      · split at h
        · rcases List.mem_append.1 h with h | h
          · exact intended_of_content h
          · obtain ⟨type, -, h⟩ := List.mem_flatMap.1 h
            exact intended_of_ofLinks h fun _ => intended_of_related
        · simp only [List.mem_append] at h
          rcases h with (((h | h) | h) | h) | h
          · exact intended_of_ofLinks h fun _ => intended_of_declared
          · exact intended_of_content h
          · exact intended_of_ofLinks h fun _ => intended_of_titledSteps
          · exact intended_of_ofLinks h fun _ => intended_of_titledSteps
          · exact intended_of_ofLinks h fun _ => intended_of_declared
      · exact intended_of_content h
    · exact absurd h List.not_mem_nil
  · exact absurd h List.not_mem_nil

/-! ## Renaming -/

/-- How a cross reference of a document comes from its source. -/
inductive Traces (d : Draft) (e : TopicEntry) : LinkSource → String → Prop
  | written (u v : String) (renamed : d.Renamed e u v) : d.Traces e (.written u) v
  | made (cause : LinkCause) (target v : String) (intended : d.Intended e cause target)
    (renamed : d.Renamed e (Text.escape target) v) : d.Traces e (.made cause target) v

/-- **Each cross reference of a valid document comes from one of its page**: one that was made for a link id still names
it, unless the topic has an id of that name. -/
theorem exists_traced (h : d.Prepared) (hplain : d.PlainSources) (he : e ∈ d.registry.entries)
    (hvalid : e.outcome = .valid) : ∃ final, e.document = some final ∧
      List.Forall₂ (d.Traces e) (d.linkSources e) (linkends final.root.elements) := by
  obtain ⟨final, t, doc, rename, hdocument, htopic, hmanuscript, hlinkends, hrename⟩ :=
    exists_linkends_of_valid h hplain he hvalid
  refine ⟨final, hdocument, ?_⟩
  rw [hlinkends, linkends_pageSources h.steps he, ← linkSources_eq htopic hmanuscript, List.map_map,
    List.forall₂_map_right_iff, List.forall₂_same]
  intro source hsource
  cases source with
  | written u => exact .written u _ (hrename u)
  | made cause target => exact .made cause target _ (intended_of_made hsource) (hrename _)

/-! ## Cross references that stay -/

/-- The link ids that cross references of a reference's page are made for. -/
def madeTargets (d : Draft) (e : TopicEntry) : List String :=
  (d.linkSources e).filterMap LinkSource.target?

/-- A cross reference that was made for a link id names it still, and that is no id of the topic's own. -/
def KeepsTarget (e : TopicEntry) : LinkSource → String → Prop
  | .written _, _ => True
  | .made _ target, v => v = Text.escape target ∧ v ∉ e.ownIds

/-- Whether a cross reference keeps its target depends on the ids of the topic alone. -/
theorem Traces.keepsTarget_iff {source : LinkSource} {v : String} (h : d.Traces e source v)
    (hslugs : ∀ id ∈ d.linkIds, id.toList.all Slug.isSlugChar = true) (hforeign : e.ownIds.Disjoint d.linkIds) :
    KeepsTarget e source v ↔ ∀ target ∈ source.target?, target ∉ d.injectedIds e := by
  cases h with
  | written u v renamed => exact iff_of_true trivial fun target ht => absurd ht (Option.not_mem_none target)
  | made cause target v intended renamed =>
    have hlink := intended.mem_linkIds
    rw [escape_of_slug (hslugs target hlink)] at renamed
    simp only [LinkSource.target?, Option.mem_some_iff, forall_eq']
    rw [KeepsTarget, escape_of_slug (hslugs target hlink)]
    constructor
    · exact fun hkeeps hinjected => hkeeps.2 (renamed.own hinjected)
    · intro hfree
      rw [renamed.kept hfree]
      exact ⟨rfl, fun hown => hforeign hown hlink⟩

/-- **The cross references that are made for a page keep their targets if and only if the topic has no id of such a
name.** -/
theorem forall₂_keepsTarget_iff {sources : List LinkSource} {vs : List String}
    (h : List.Forall₂ (d.Traces e) sources vs) (hslugs : ∀ id ∈ d.linkIds, id.toList.all Slug.isSlugChar = true)
    (hforeign : e.ownIds.Disjoint d.linkIds) : List.Forall₂ (KeepsTarget e) sources vs ↔
      ∀ target ∈ sources.filterMap LinkSource.target?, target ∉ d.injectedIds e := by
  induction h with
  | nil => exact iff_of_true .nil fun _ ht => absurd ht List.not_mem_nil
  | @cons source v sources vs hsource _ ih =>
    rw [List.forall₂_cons, hsource.keepsTarget_iff hslugs hforeign, ih]
    cases htarget : source.target? with
    | none =>
      rw [List.filterMap_cons_none htarget]
      exact and_iff_right fun target ht => absurd ht (Option.not_mem_none target)
    | some target =>
      simp only [List.filterMap_cons_some htarget, List.forall_mem_cons, Option.mem_some_iff, forall_eq']

end Draft

namespace Bindery

variable {σ : Type} {b : Bindery σ}

/-- **Where the cross references of a book's topics come from, and when those that were made keep their targets.**  The
cross references of each valid document are those of its page, one by one, and so are those of its file.  Where link ids
are slugs, each that was made for a link id still names it, and no element of the topic's own, if and only if no topic
has an id, once all is injected, that is a link id to which its page refers. -/
theorem madeLinks_kept_iff (hb : b.renderer = Renderer.pages) {spec : ContentSpec} {settings : Settings}
    {requester : Option String} {book : Book} {d : Draft} {images : List Image} {s s' t : Session σ}
    (hbind : (b.bind spec settings requester).Gives s book s')
    (hprepare : (b.prepare spec settings requester).Gives s (d, images) t) (hplain : d.PlainSources) :
    (∀ e ∈ d.registry.entries, e.outcome = .valid → ∃ doc, e.document = some doc ∧
      List.Forall₂ (d.Traces e) (d.linkSources e) (linkends doc.root.elements)) ∧
    (∀ f ∈ book.archive.files, d.isTopicPath f.path = true → ∃ e ∈ d.published, d.IsFileOf e f ∧
      (e.outcome = .valid → List.Forall₂ (d.Traces e) (d.linkSources e) (linkends f.tags))) ∧
    ((∀ id ∈ d.linkIds, id.toList.all Slug.isSlugChar = true) →
      ((∀ e ∈ d.registry.entries, e.outcome = .valid → ∀ doc ∈ e.document,
        List.Forall₂ (Draft.KeepsTarget e) (d.linkSources e) (linkends doc.root.elements)) ↔
      ∀ e ∈ d.registry.entries, e.outcome = .valid → ∀ target ∈ d.madeTargets e, target ∉ d.injectedIds e)) := by
  have hd : d.Prepared := prepared_prepare hb hprepare
  refine ⟨fun e he hvalid => Draft.exists_traced hd hplain he hvalid, fun f hf hpath => ?_, fun hslugs => ?_⟩
  · obtain ⟨fs, harchive, hfs⟩ := written_of_bind hbind hprepare
    obtain ⟨topics, hall, hperm⟩ := Draft.perm_topicFiles hb hd hfs
    rw [harchive] at hf
    have hmem : f ∈ topics := latestBy_subset File.path topics (hperm.mem_iff.1 (List.mem_filter.2 ⟨hf, hpath⟩))
    obtain ⟨e, he, hef⟩ := exists_of_forall₂_right hall hmem
    refine ⟨e, he, hef, fun hvalid => ?_⟩
    obtain ⟨doc, hdocument, htraced⟩ := Draft.exists_traced hd hplain (Draft.mem_published he).1 hvalid
    rw [Draft.tags_of_valid hd hplain he hvalid hef hdocument, Xml.linkends_map_tag]
    exact htraced
  · refine forall₂_congr fun e he => forall_congr' fun hvalid => ?_
    obtain ⟨doc, hdocument, htraced⟩ := Draft.exists_traced hd hplain he hvalid
    have hkept := Draft.forall₂_keepsTarget_iff htraced hslugs (hd.foreign e he)
    refine ⟨fun hall => hkept.1 (hall doc hdocument), fun hfree doc' hdoc' => ?_⟩
    cases hdocument.symm.trans hdoc'
    exact hkept.2 hfree

/-- A link from a topic without ids keeps its target. -/
theorem madeLinks_kept_of_chapter : ∃ book d images s' t,
    (sample.bind (chapterSpec [.topic (.ofTopic 1 "A"), .topic (.ofTopic 2 "B")] []) sampleSettings none).Gives
      linkingSession book s' ∧
    (sample.prepare (chapterSpec [.topic (.ofTopic 1 "A"), .topic (.ofTopic 2 "B")] []) sampleSettings none).Gives
      linkingSession (d, images) t ∧
    (d.PlainSources ∧ (∀ id ∈ d.linkIds, id.toList.all Slug.isSlugChar = true) ∧
      ∃ e ∈ d.published, e.outcome = .valid ∧ d.linkSources e = [.made (.topic 2) "B"]) ∧
    ∀ e ∈ d.registry.entries, e.outcome = .valid → ∀ doc ∈ e.document,
      List.Forall₂ (Draft.KeepsTarget e) (d.linkSources e) (linkends doc.root.elements) := by
  have hruns : ∃ book d images s' t,
      (sample.bind (chapterSpec [.topic (.ofTopic 1 "A"), .topic (.ofTopic 2 "B")] []) sampleSettings none).Gives
        linkingSession book s' ∧
      (sample.prepare (chapterSpec [.topic (.ofTopic 1 "A"), .topic (.ofTopic 2 "B")] []) sampleSettings none).Gives
        linkingSession (d, images) t ∧
      (d.PlainSources ∧ (∀ id ∈ d.linkIds, id.toList.all Slug.isSlugChar = true) ∧
        ∃ e ∈ d.published, e.outcome = .valid ∧ d.linkSources e = [.made (.topic 2) "B"]) ∧
      ∀ e ∈ d.registry.entries, e.outcome = .valid → ∀ target ∈ d.madeTargets e, target ∉ d.injectedIds e :=
    exists_bound (Q := fun d _ => ∀ e ∈ d.registry.entries, e.outcome = .valid → ∀ target ∈ d.madeTargets e,
      target ∉ d.injectedIds e) (by decide +kernel)
  obtain ⟨book, d, images, s', t, hbind, hprepare, ⟨hplain, hslugs, hlink⟩, hfree⟩ := hruns
  exact ⟨book, d, images, s', t, hbind, hprepare, ⟨hplain, hslugs, hlink⟩,
    ((madeLinks_kept_iff rfl hbind hprepare hplain).2.2 hslugs).2 hfree⟩

/-- A topic with a link to another whose link id is an id of its own. -/
def shadowingSession : Session MemoryStore :=
  sampleSession "<section><para id=\"B\">x</para><para><!-- Inject: 2 --></para></section>"
    "<section><para>b</para></section>"

/-- A link to the topic `B` leads, in the end, to a paragraph of the topic that it stands in. -/
theorem madeLink_redirected : ∃ book d images s' t,
    (sample.bind (chapterSpec [.topic (.ofTopic 1 "A"), .topic (.ofTopic 2 "B")] []) sampleSettings none).Gives
      shadowingSession book s' ∧
    (sample.prepare (chapterSpec [.topic (.ofTopic 1 "A"), .topic (.ofTopic 2 "B")] []) sampleSettings none).Gives
      shadowingSession (d, images) t ∧
    ∃ e ∈ d.registry.entries, e.outcome = .valid ∧ d.linkSources e = [.made (.topic 2) "B"] ∧
      d.Intended e (.topic 2) "B" ∧ (∃ doc ∈ e.document, linkends doc.root.elements = ["B-3"]) ∧
      (∃ f ∈ book.archive.files, d.IsFileOf e f ∧ linkends f.tags = ["B-3"]) ∧ "B-3" ∈ e.ownIds := by
  have hruns : ∃ book d images s' t,
      (sample.bind (chapterSpec [.topic (.ofTopic 1 "A"), .topic (.ofTopic 2 "B")] []) sampleSettings none).Gives
        shadowingSession book s' ∧
      (sample.prepare (chapterSpec [.topic (.ofTopic 1 "A"), .topic (.ofTopic 2 "B")] []) sampleSettings none).Gives
        shadowingSession (d, images) t ∧
      (d.DistinctLinks ∧ d.PlainSources) ∧ ∃ e ∈ d.published, e.outcome = .valid ∧
        d.linkSources e = [.made (.topic 2) "B"] ∧ (∃ doc ∈ e.document, linkends doc.root.elements = ["B-3"]) ∧
          "B-3" ∈ e.ownIds :=
    exists_bound (Q := fun d _ => ∃ e ∈ d.published, e.outcome = .valid ∧ d.linkSources e = [.made (.topic 2) "B"] ∧
      (∃ doc ∈ e.document, linkends doc.root.elements = ["B-3"]) ∧ "B-3" ∈ e.ownIds) (by decide +kernel)
  obtain ⟨book, d, images, s', t, hbind, hprepare, ⟨hlinks, hplain⟩, e, he, hvalid, hsources, ⟨doc, hdoc, hvalues⟩,
    hown⟩ := hruns
  have hd : d.Prepared := prepared_prepare rfl hprepare
  obtain ⟨fs, harchive, hfs⟩ := written_of_bind hbind hprepare
  obtain ⟨topics, hall, hperm⟩ := Draft.perm_topicFiles_of_nodup rfl hd hlinks.nodup hfs
  obtain ⟨f, hf, hef⟩ := exists_of_forall₂_left hall he
  refine ⟨book, d, images, s', t, hbind, hprepare, e, (Draft.mem_published he).1, hvalid, hsources,
    Draft.intended_of_made (hsources ▸ List.mem_singleton_self _), ⟨doc, hdoc, hvalues⟩, ⟨f, ?_, hef, ?_⟩, hown⟩
  · rw [harchive]
    exact List.mem_of_mem_filter (hperm.mem_iff.2 hf)
  · rw [Draft.tags_of_valid hd hplain he hvalid hef hdoc, Xml.linkends_map_tag, hvalues]

end Bindery
end Bookbinder
