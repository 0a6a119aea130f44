import Bookbinder.Proofs.BookFiles
import Bookbinder.Proofs.PlainDocuments
/-!
# Ids across the files of topics

Every topic is renamed against all that was handed out before, so no two of a book's topics share an id.  Within one
topic an id stays as often as it stands in the document that is renamed, so an id repeats in a book exactly where one
topic's document repeats it once all is injected (`Bindery.topicIds_nodup_iff`).
-/
namespace Bookbinder

open Xml (Document Element Node Writes)

namespace Xml

theorem attribute?_tag (e : Element) (name : String) : e.tag.attribute? name = e.attribute? name := rfl

theorem ids_map_tag (es : List Element) : ids (es.map Element.tag) = ids es := by
  rw [ids, List.filterMap_map]
  rfl

theorem ids_elements {root : Element} {id : String} (h : root.attribute? "id" = some id) :
    ids root.elements = id :: IdLedger.innerIds root := by
  rw [ids, Element.elements, List.filterMap_cons, h]
  rfl

end Xml

namespace Draft

open Template (TopicView Context)

variable {d : Draft} {e : TopicEntry} {t : Topic} {doc : Document}

/-- The topics of a book's references, and the topics that they are related to, are written in plain values. -/
def PlainSources (d : Draft) : Prop :=
  ∀ e ∈ d.registry.entries, ∀ t ∈ e.topic, Xml.isPlainText t.xml = true ∧ ∀ r ∈ t.outgoing, Xml.isPlainText r.xml = true

instance (d : Draft) : Decidable d.PlainSources :=
  inferInstanceAs (Decidable (∀ e ∈ d.registry.entries, ∀ t ∈ e.topic,
    Xml.isPlainText t.xml = true ∧ ∀ r ∈ t.outgoing, Xml.isPlainText r.xml = true))

/-- What a topic's document holds once all is injected, less the title that its page supplies. -/
def injectedBody (d : Draft) (e : TopicEntry) (t : Topic) (doc : Document) : Element :=
  (d.injection e t doc).root.dropFirstChild "title"

/-- The ids in what a reference's document holds once all is injected. -/
def injectedIds (d : Draft) (e : TopicEntry) : List String :=
  match e.topic with
  | some t => match (Manuscript.of t).document? with
    | some doc => IdLedger.innerIds (d.injectedBody e t doc)
    | none => []
  | none => []

theorem read_of_manuscript (h : (Manuscript.of t).document? = some doc) : Document.read t.xml = .ok doc := by
  rw [Manuscript.of] at h
  split at h
  · cases h
  · split at h
    · rename_i hread
      cases h
      exact hread
    · cases h

/-! ## One file -/

theorem plain_injectedBody (hmanuscript : (Manuscript.of t).document? = some doc)
    (hplain : Xml.isPlainText t.xml = true) (hrelated : ∀ r ∈ t.outgoing, Xml.isPlainText r.xml = true) :
    ∀ n ∈ (d.injectedBody e t doc).children, n.Plain := by
  have hroot : doc.root.toNode.Plain := Xml.plain_of_read hplain (read_of_manuscript hmanuscript)
  have hoccurrence : (d.occurrence e t doc).toNode.Plain :=
    (hroot.withAttribute (by decide) _).withAttribute (by decide) _
  have hinjection : (d.injection e t doc).root.toNode.Plain := by
    rw [root_injection, substitution]
    split
    · exact Injection.plain_process _ _ hoccurrence hrelated
    · exact hoccurrence
  exact fun n hn => (Xml.plain_element_iff.1 hinjection).2 n (List.mem_of_mem_eraseP hn)

theorem tags_pageText (h : ∀ n ∈ (d.injectedBody e t doc).children, n.Plain) : Xml.tags (d.pageText e t doc).toList
    = (d.pageView e t doc).tags (Xml.nodesTags (d.injectedBody e t doc).children) := by
  obtain ⟨hsound, hplain⟩ := Xml.nodesSound_of_plain h
  have hroles : ∀ l ∈ (d.pageView e t doc).related, '"' ∉ l.role.toList := quote_notMem_injectionView
  exact (Template.writes_topicPage hroles (show Writes "".toList [] from Writes.nil)
    (Xml.writes_nodes hsound hplain)).tags_eq

theorem isPlain_tag (x : Element) : x.tag.isPlain = x.isPlain := rfl

theorem plain_nodesTags {ns : List Node} (h : ∀ n ∈ ns, n.Plain) : ∀ x ∈ Xml.nodesTags ns, x.isPlain = true := by
  intro x hx
  obtain ⟨y, hy, rfl⟩ := List.mem_map.1 hx
  exact (Xml.nodesSound_of_plain h).2 y hy

theorem plain_of_read_page {read : Document} (h : ∀ n ∈ (d.injectedBody e t doc).children, n.Plain)
    (hread : Document.read (d.pageText e t doc) = .ok read) :
    read.root.toNode.Plain ∧ IdLedger.innerIds read.root = IdLedger.innerIds (d.injectedBody e t doc) := by
  have hroles : ∀ l ∈ (d.pageView e t doc).related, '"' ∉ l.role.toList := quote_notMem_injectionView
  have htags := tags_of_read_page hread
  rw [← pageText, tags_pageText h] at htags
  refine ⟨⟨Xml.sound_of_read hread, fun x hx => ?_⟩, ?_⟩
  · rw [← isPlain_tag]
    refine TopicView.isPlain_tags hroles (plain_nodesTags h) x.tag ?_
    rw [← htags]
    exact List.mem_map.2 ⟨x, hx, rfl⟩
  · have hids := congrArg Xml.ids htags
    have hroot : read.root.attribute? "id" = some (Text.escape (d.pageView e t doc).linkId) := by
      rw [← Xml.attribute?_tag, tag_root_of_read_page hread]
      rfl
    rw [Xml.ids_map_tag, TopicView.ids_tags hroles, Xml.ids_elements hroot, List.cons.injEq, Xml.nodesTags,
      Xml.ids_map_tag] at hids
    exact hids.2

/-- What a valid document is made from: a page that is read and renamed.  Its ids before are those of what was injected,
and its ids after are its own. -/
theorem exists_page_of_valid (h : d.Prepared) (hplain : d.PlainSources) (he : e ∈ d.published)
    (hvalid : e.outcome = .valid) : ∃ t doc read l, e.topic = some t ∧ (Manuscript.of t).document? = some doc ∧
      Document.read (d.pageText e t doc) = .ok read ∧
      e.document = some (ImageRef.relocateAll t (renamed l e t read)).1 ∧
      (ImageRef.relocateAll t (renamed l e t read)).1.root.toNode.Plain ∧
      (∀ n ∈ (d.injectedBody e t doc).children, n.Plain) ∧ d.injectedIds e = IdLedger.innerIds read.root ∧
      e.ownIds = IdLedger.innerIds (renamed l e t read).root := by
  obtain ⟨hmem, houtlined⟩ := mem_published he
  obtain ⟨t, doc, read, l, htopic, hmanuscript, hread, hdocument⟩ := exists_of_valid h hmem houtlined hvalid
  obtain ⟨htext, hrelated⟩ := hplain e hmem t htopic
  have hbody := plain_injectedBody (d := d) (e := e) hmanuscript htext hrelated
  obtain ⟨⟨hsound, hpage⟩, hids⟩ := plain_of_read_page hbody hread
  have hrenamed : ∀ x ∈ (renamed l e t read).root.elements, x.isPlain = true :=
    IdLedger.plain_rewritten l t.sourceId e.ref.duplicate e.ref.step hpage
  refine ⟨t, doc, read, l, htopic, hmanuscript, hread, hdocument,
    ⟨ImageRef.sound_relocateAll (IdLedger.sound_rewritten l _ _ _ hsound), ImageRef.plain_relocateAll hrenamed⟩, hbody,
    ?_, ?_⟩
  · rw [injectedIds, htopic]
    simp only [hmanuscript]
    exact hids.symm
  · rw [TopicEntry.ownIds, hvalid, hdocument]
    exact ImageRef.innerIds_relocateAll

/-- Making a document's ids unique brings no two of them together. -/
theorem nodup_ownIds_iff (h : d.Prepared) (hplain : d.PlainSources) (he : e ∈ d.published)
    (hvalid : e.outcome = .valid) : e.ownIds.Nodup ↔ (d.injectedIds e).Nodup := by
  obtain ⟨t, doc, read, l, -, -, -, -, -, -, hinjected, hown⟩ := exists_page_of_valid h hplain he hvalid
  have hrenamed : IdLedger.innerIds (renamed l e t read).root
      = (IdLedger.innerIds read.root).map (l.finalId t.sourceId e.ref.duplicate e.ref.step read.root) :=
    IdLedger.innerIds_rewritten l _ _ _ read.root
  rw [hown, hrenamed, hinjected]
  exact ⟨List.Nodup.of_map _, fun hnd => hnd.map_on fun a ha c hc => IdLedger.finalId_inj l _ _ _ read.root ha hc⟩

theorem tags_of_valid (h : d.Prepared) (hplain : d.PlainSources) (he : e ∈ d.published) (hvalid : e.outcome = .valid)
    {f : File} (hf : d.IsFileOf e f) {doc : Document} (hdoc : e.document = some doc) :
    f.tags = doc.root.elements.map Element.tag := by
  obtain ⟨t, _, read, l, -, -, -, hdocument, ⟨hsound, hp⟩, -⟩ := exists_page_of_valid h hplain he hvalid
  cases hdoc.symm.trans hdocument
  obtain ⟨text, rfl, htext⟩ := hf
  cases htext with
  | document doc outcome document tags =>
    cases document.symm.trans hdocument
    rw [File.tags_ofText, tags, (Xml.writes_root hsound hp).tags_eq]
  | standIn content bugLink es outcome => exact absurd (hvalid.symm.trans outcome) Outcome.noConfusion

/-- **The ids of a reference's file are its link id and those of its document.** -/
theorem ids_of_isFileOf (h : d.Prepared) (hplain : d.PlainSources) (he : e ∈ d.published)
    {f : File} (hf : d.IsFileOf e f) :
    f.ids = Text.escape (e.linkId d.stable) :: e.ownIds := by
  by_cases hvalid : e.outcome = .valid
  · obtain ⟨hmem, houtlined⟩ := mem_published he
    obtain ⟨doc, hdoc, htag⟩ := tag_root_of_valid h hmem houtlined hvalid
    have hroot : doc.root.attribute? "id" = some (Text.escape (e.linkId d.stable)) := by
      rw [← Xml.attribute?_tag, htag]
      rfl
    rw [File.ids, tags_of_valid h hplain he hvalid hf hdoc, Xml.ids_map_tag, Xml.ids_elements hroot, TopicEntry.ownIds,
      hvalid, hdoc]
  · obtain ⟨text, rfl, htext⟩ := hf
    cases htext with
    | document doc outcome => exact absurd outcome hvalid
    | standIn content bugLink es outcome tags anonymous =>
      have hroles : ∀ l ∈ TopicView.related { d.view e with bugLink }, '"' ∉ l.role.toList := quote_notMem_view
      rw [File.ids, File.tags_ofText, tags, TopicView.ids_tags hroles, Xml.ids_eq_nil_of_anonymous anonymous,
        TopicEntry.ownIds_eq_nil hvalid]
      exact congrArg (fun id => [Text.escape id]) linkId_view

/-! ## All files -/

/-- The ids in an archive's files of topics. -/
def topicIds (d : Draft) (a : Archive) : List String :=
  (a.files.filter fun f => d.isTopicPath f.path).flatMap File.ids

/-- A book whose link ids are slugs, no two of them alike. -/
structure DistinctLinks (d : Draft) : Prop where
  nodup : d.linkIds.Nodup
  slugs : ∀ id ∈ d.linkIds, id.toList.all Slug.isSlugChar = true

instance (d : Draft) : Decidable d.DistinctLinks :=
  decidable_of_iff (d.linkIds.Nodup ∧ ∀ id ∈ d.linkIds, id.toList.all Slug.isSlugChar = true)
    ⟨fun h => ⟨h.1, h.2⟩, fun h => ⟨h.nodup, h.slugs⟩⟩

theorem escape_of_slug {id : String} (h : id.toList.all Slug.isSlugChar = true) : Text.escape id = id := by
  have hchar : ∀ c, Slug.isSlugChar c = true → Text.escapeChar c = [c] := by
    intro c hc
    unfold Text.escapeChar
    split
    · exact absurd hc (by decide)
    · exact absurd hc (by decide)
    · exact absurd hc (by decide)
    · exact absurd hc (by decide)
    · exact absurd hc (by decide)
    · rfl
  have hchars : ∀ cs : List Char, cs.all Slug.isSlugChar = true → Text.escapeChars cs = cs := by
    intro cs
    induction cs with
    | nil => exact fun _ => rfl
    | cons c cs ih =>
      intro hcs
      rw [List.all_cons, Bool.and_eq_true] at hcs
      rw [Text.escapeChars, List.flatMap_cons, hchar c hcs.1]
      exact congrArg (c :: ·) (ih hcs.2)
  rw [Text.escape, hchars _ h, String.ofList_toList]

/-- The published references, each against each: their link ids differ, and their documents share no id. -/
theorem pairwise_published (h : d.Prepared) (hlinks : d.linkIds.Nodup) : d.published.Pairwise fun a c =>
    a.linkId d.stable ≠ c.linkId d.stable ∧ a.ownIds.Disjoint c.ownIds := by
  have hnodup : (d.registry.entries.map (·.linkId d.stable)).Nodup := (List.nodup_append.1 hlinks).1
  exact (((List.pairwise_map.1 hnodup).and h.disjoint).filter _).filter _

theorem flatMap_ids (h : d.Prepared) (hplain : d.PlainSources) (hlinks : d.DistinctLinks) : ∀ {es : List TopicEntry}
    {fs : List File}, es ⊆ d.published → List.Forall₂ d.IsFileOf es fs →
      fs.flatMap File.ids = es.flatMap fun e => e.linkId d.stable :: e.ownIds
  | _, _, _, .nil => rfl
  | e :: es, f :: fs, hes, .cons hf hfs => by
    have he : e ∈ d.published := hes List.mem_cons_self
    rw [List.flatMap_cons, List.flatMap_cons, ids_of_isFileOf h hplain he hf,
      escape_of_slug (hlinks.slugs _ (linkId_mem (mem_published he).1)),
      flatMap_ids h hplain hlinks (List.Subset.trans (List.subset_cons_self e es) hes) hfs]

variable {σ : Type} {b : Bindery σ}

/-- Where no link ids are alike every published reference keeps its file. -/
theorem perm_topicFiles_of_nodup (hb : b.renderer = Renderer.pages) (h : d.Prepared) (hlinks : d.linkIds.Nodup)
    {images : List Image} {fs : List File} (hfs : Written b d images fs) : ∃ topics,
      List.Forall₂ d.IsFileOf d.published topics ∧
        ((Archive.ofFiles fs).files.filter fun f => d.isTopicPath f.path).Perm topics := by
  obtain ⟨topics, hall, hperm⟩ := perm_topicFiles hb h hfs
  have hpaths : (topics.map (·.path)).Nodup := by
    rw [map_path_of_forall₂ hall]
    exact List.pairwise_map.2 ((pairwise_published h hlinks).imp fun hac he => hac.1 (topicPath_inj he))
  rw [latestBy_eq_self hpaths] at hperm
  exact ⟨topics, hall, hperm⟩

/-- **The ids of a book's topics are the link ids of the published references and the ids in their documents.** -/
theorem perm_topicIds (hb : b.renderer = Renderer.pages) (h : d.Prepared) (hplain : d.PlainSources)
    (hlinks : d.DistinctLinks) {images : List Image} {fs : List File} (hfs : Written b d images fs) :
    (d.topicIds (.ofFiles fs)).Perm (d.published.flatMap fun e => e.linkId d.stable :: e.ownIds) := by
  obtain ⟨topics, hall, hperm⟩ := perm_topicFiles_of_nodup hb h hlinks.nodup hfs
  rw [← flatMap_ids h hplain hlinks (List.Subset.refl _) hall]
  exact hperm.flatMap_right _

/-- **The ids of a book's topics all differ if no document repeats one of its own.** -/
theorem nodup_topicIds_iff (hb : b.renderer = Renderer.pages) (h : d.Prepared) (hplain : d.PlainSources)
    (hlinks : d.DistinctLinks) {images : List Image} {fs : List File} (hfs : Written b d images fs) :
    (d.topicIds (.ofFiles fs)).Nodup ↔ ∀ e ∈ d.published, e.outcome = .valid → (d.injectedIds e).Nodup := by
  have hforeign : ∀ a ∈ d.published, ∀ c ∈ d.published, a.linkId d.stable ∉ c.ownIds := fun a ha c hc hm =>
    h.foreign c (mem_published hc).1 hm (linkId_mem (mem_published ha).1)
  have hpairwise : d.published.Pairwise
      (Function.onFun List.Disjoint fun e : TopicEntry => e.linkId d.stable :: e.ownIds) := by
    refine (pairwise_published h hlinks.nodup).imp_of_mem fun {a c} ha hc hac => ?_
    show (a.linkId d.stable :: a.ownIds).Disjoint (c.linkId d.stable :: c.ownIds)
    rw [List.disjoint_cons_left, List.disjoint_cons_right, List.mem_cons, not_or]
    exact ⟨⟨hac.1, hforeign a ha c hc⟩, hforeign c hc a ha, hac.2⟩
  -- Across files all differ anyway, so what is left is one file at a time.
  have hfile : ∀ e ∈ d.published,
      ((e.linkId d.stable :: e.ownIds).Nodup ↔ (e.outcome = .valid → (d.injectedIds e).Nodup)) := by
    intro e he
    rw [List.nodup_cons, and_iff_right (hforeign e he e he)]
    by_cases hvalid : e.outcome = .valid
    · exact (nodup_ownIds_iff h hplain he hvalid).trans ⟨fun hn _ => hn, fun hn => hn hvalid⟩
    · rw [TopicEntry.ownIds_eq_nil hvalid]
      exact ⟨fun _ hv => absurd hv hvalid, fun _ => List.nodup_nil⟩
  rw [(perm_topicIds hb h hplain hlinks hfs).nodup_iff, List.nodup_flatMap, and_iff_left hpairwise]
  exact forall₂_congr hfile

end Draft

namespace Bindery

variable {σ : Type} {b : Bindery σ}

/-- The ids that a text writes. -/
def sourceIds (xml : String) : List String :=
  Xml.ids (Xml.tags xml.toList)

/-- A bound book is printed from the draft that was prepared for it. -/
theorem written_of_bind {spec : ContentSpec} {settings : Settings} {requester : Option String} {book : Book} {d : Draft}
    {images : List Image} {s s' t : Session σ} (hbind : (b.bind spec settings requester).Gives s book s')
    (hprepare : (b.prepare spec settings requester).Gives s (d, images) t) :
    ∃ fs, book.archive = .ofFiles fs ∧ Draft.Written b d images fs := by
  rw [bind_eq] at hbind
  obtain ⟨p, t', hp, hprint⟩ := hbind.bind
  obtain ⟨rfl, rfl⟩ := hp.unique hprepare
  rw [print] at hprint
  obtain ⟨fs, _, hfiles, hprint⟩ := hprint.bind
  obtain ⟨_, -, rfl⟩ := hprint.map
  exact ⟨fs, rfl, Draft.written_files hfiles⟩

/-- **When the ids in a book's topics are unique.**  In a bound book whose link ids are slugs, no two of them alike, and
whose topics hold no quotation mark within a value, the ids in the files of topics all differ, within one file and
across files, if and only if none of the documents that are shown repeats an id once all is injected into it. -/
theorem topicIds_nodup_iff (hb : b.renderer = Renderer.pages) {spec : ContentSpec} {settings : Settings}
    {requester : Option String} {book : Book} {d : Draft} {images : List Image} {s s' t : Session σ}
    (hbind : (b.bind spec settings requester).Gives s book s')
    (hprepare : (b.prepare spec settings requester).Gives s (d, images) t) (hlinks : d.DistinctLinks)
    (hplain : d.PlainSources) :
    (d.topicIds book.archive).Nodup ↔ ∀ e ∈ d.published, e.outcome = .valid → (d.injectedIds e).Nodup := by
  obtain ⟨fs, harchive, hfs⟩ := written_of_bind hbind hprepare
  rw [harchive]
  exact Draft.nodup_topicIds_iff hb (prepared_prepare hb hprepare) hplain hlinks hfs

/-! ## A book with an injected text -/

/-- A chapter with the first topic of the sample. -/
def guide : List Item :=
  [.level { kind := .chapter, title := "Guide" } [.topic (.ofTopic 1 "A")]]

/-- A topic of markers, and one with an id for them to inject. -/
def injecting (markers : String) : Session MemoryStore :=
  sampleSession ("<section>" ++ markers ++ "</section>") "<section><para id=\"x\">b</para></section>"

/-- A text that is injected once does no harm. -/
theorem topicIds_nodup_of_injection : ∃ book d images s' t,
    (sample.bind (sampleSpec guide) sampleSettings none).Gives (injecting "<!-- InjectText: 2 -->") book s' ∧
    (sample.prepare (sampleSpec guide) sampleSettings none).Gives (injecting "<!-- InjectText: 2 -->") (d, images) t ∧
    (d.DistinctLinks ∧ d.PlainSources ∧ ∀ e ∈ d.published, e.outcome = .valid → (d.injectedIds e).Nodup) ∧
    (d.topicIds book.archive).Nodup := by
  have hruns : ∃ book d images s' t,
      (sample.bind (sampleSpec guide) sampleSettings none).Gives (injecting "<!-- InjectText: 2 -->") book s' ∧
      (sample.prepare (sampleSpec guide) sampleSettings none).Gives (injecting "<!-- InjectText: 2 -->") (d, images) t ∧
      (d.DistinctLinks ∧ d.PlainSources) ∧ ∀ e ∈ d.published, e.outcome = .valid → (d.injectedIds e).Nodup :=
    exists_bound (by decide +kernel)
  obtain ⟨book, d, images, s', t, hbind, hprepare, ⟨hlinks, hplain⟩, hids⟩ := hruns
  exact ⟨book, d, images, s', t, hbind, hprepare, ⟨hlinks, hplain, hids⟩,
    (topicIds_nodup_iff rfl hbind hprepare hlinks hplain).2 hids⟩

/-- A text that is injected twice brings its ids twice, though no topic repeats an id of its own. -/
theorem topicIds_repeat : ∃ book d images s' t,
    (sample.bind (sampleSpec guide) sampleSettings none).Gives
      (injecting "<!-- InjectText: 2 --><!-- InjectText: 2 -->")
      book s' ∧
    (sample.prepare (sampleSpec guide) sampleSettings none).Gives
      (injecting "<!-- InjectText: 2 --><!-- InjectText: 2 -->")
      (d, images) t ∧
    (d.DistinctLinks ∧ d.PlainSources ∧ ∀ e ∈ d.registry.entries, ∀ u ∈ e.topic, (sourceIds u.xml).Nodup ∧
      ∀ r ∈ u.outgoing, (sourceIds r.xml).Nodup) ∧
    ¬ (d.topicIds book.archive).Nodup := by
  have hruns : ∃ book d images s' t,
      (sample.bind (sampleSpec guide) sampleSettings none).Gives
        (injecting "<!-- InjectText: 2 --><!-- InjectText: 2 -->")
        book s' ∧
      (sample.prepare (sampleSpec guide) sampleSettings none).Gives
        (injecting "<!-- InjectText: 2 --><!-- InjectText: 2 -->")
        (d, images) t ∧
      (d.DistinctLinks ∧ d.PlainSources ∧ ∀ e ∈ d.registry.entries, ∀ u ∈ e.topic, (sourceIds u.xml).Nodup ∧
        ∀ r ∈ u.outgoing, (sourceIds r.xml).Nodup) ∧
      ∃ e ∈ d.published, e.outcome = .valid ∧ ¬ (d.injectedIds e).Nodup :=
    exists_bound (Q := fun d _ => ∃ e ∈ d.published, e.outcome = .valid ∧ ¬ (d.injectedIds e).Nodup) (by decide +kernel)
  obtain ⟨book, d, images, s', t, hbind, hprepare, hsources, e, he, hvalid, hrepeat⟩ := hruns
  obtain ⟨fs, harchive, hfs⟩ := written_of_bind hbind hprepare
  refine ⟨book, d, images, s', t, hbind, hprepare, hsources, fun hnodup => hrepeat ?_⟩
  rw [harchive] at hnodup
  exact (Draft.nodup_topicIds_iff rfl (prepared_prepare rfl hprepare) hsources.2.1 hsources.1 hfs).1 hnodup e he hvalid

end Bindery
end Bookbinder
