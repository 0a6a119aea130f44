import Bookbinder.Proofs.BookIds
import Bookbinder.Proofs.TitledPages
/-!
# Files of topics that are read

A published reference has a file that is written from a document or from a body that stands in for one.  Either way the
file is read to a section under the reference's link id that begins with its topic's title, if what topics are written in
is plain (`Bindery.topicFiles_read`).
-/
namespace Bookbinder

open Xml (Attributes Balanced Document Element Node)

namespace Xml

/-! ## Elements that begin with a title -/

/-- An element that begins with a title, and that can have been read. -/
structure Element.Titled (e : Element) (raws : List String) : Prop where
  begins : ∃ after, e.children = .text "\n\t" :: (textual "title" raws).toNode :: after
  legible : nodesLegible e.children

theorem nodesMapAttributes_texts {σ : Type} (f : String → Attributes → σ → Attributes × σ) (raws : List String) (s : σ) :
    nodesMapAttributes f (raws.map .text) s = (raws.map .text, s) := by
  induction raws with
  | nil => rfl
  | cons raw raws ih => simp only [List.map_cons, nodesMapAttributes, Node.mapAttributes, ih]

/-- Changing the values of attributes leaves the title in its place. -/
theorem Element.Titled.mapped {e e' : Element} {raws : List String} (h : e.Titled raws) {σ : Type}
    {f : String → Attributes → σ → Attributes × σ} (hf : ∀ name as s, (f name as s).1.map (·.1) = as.map (·.1)) {s : σ}
    (he : e'.children = (nodesMapAttributes f e.children s).1) : e'.Titled raws := by
  refine ⟨?_, he ▸ nodesLegible_mapAttributes f s h.legible⟩
  obtain ⟨after, hafter⟩ := h.begins
  have htitle : (f "title" [] s).1 = [] := List.map_eq_nil_iff.1 (hf "title" [] s)
  rw [he, hafter]
  refine ⟨(nodesMapAttributes f after (f "title" [] s).2).1, ?_⟩
  simp only [nodesMapAttributes, textual, Element.toNode, Node.mapAttributes, nodesMapAttributes_texts, htitle]

theorem titled_of_read {d : Document} {s linkId : String} {raws : List String} {after : List Node}
    (hread : Document.read s = .ok d) (hroot : d.root = titledSection linkId raws after) : d.root.Titled raws :=
  ⟨⟨after, by rw [hroot]; rfl⟩, (spreads_legible.read hread).2.2⟩

/-- A section with a title, written out. -/
theorem toXml_titledSection (lead linkId : String) (raws : List String) (after : List Node) :
    lead ++ (titledSection linkId raws after).toXml
      = sectionText lead linkId (textual "title" raws).toXml (nodesXml after ++ "</section>") := by
  rw [← String.toList_inj]
  simp [titledSection, sectionText, Element.toXml, Element.toNode, Node.toXml, nodesXml, attributesXml]

end Xml

open IdLedger ImageRef

theorem IdLedger.titled_rewritten (l : IdLedger) (topicId : Int) (duplicate : Option Nat) (step : Nat) {root : Element}
    {raws : List String} (h : root.Titled raws) : (l.rewritten topicId duplicate step root).Titled raws := by
  rw [rewritten, enforce]
  dsimp only
  split
  · exact h
  · exact h.mapped (fun _ as _ => map_fst_renameAll _ as) rfl

theorem ImageRef.titled_relocateAll (t : Topic) {doc : Document} {raws : List String} (h : doc.root.Titled raws) :
    (relocateAll t doc).1.root.Titled raws :=
  h.mapped (map_fst_relocate t) rfl

namespace Draft

open Template (TopicView)

variable {d : Draft} {e : TopicEntry} {t : Topic} {doc : Document}

/-! ## Titles of views -/

theorem title_injectionView : (d.injectionView e t doc).title = t.title := by
  rw [injectionView]
  split
  · split <;> rfl
  · rfl

theorem title_view (htopic : e.topic = some t) : (d.view e).title = t.title := by
  rw [view, htopic]
  dsimp only
  split
  · exact title_injectionView
  · rfl

theorem exists_topic_of_outcome (h : d.Prepared) (he : e ∈ d.registry.entries) (houtcome : e.outcome ≠ .pending) :
    ∃ t, e.topic = some t := by
  obtain ⟨e₀, hworked, rfl⟩ := h.entries e he
  rw [outcome_relocateEntry] at houtcome
  have htopic : (relocateEntry d.outline e₀).1.topic = e₀.topic :=
    show (relocateEntry d.outline e₀).1.bare.topic = e₀.bare.topic by rw [bare_relocateEntry]
  rw [htopic]
  cases hworked with
  | absent outcome => exact absurd outcome houtcome
  | bodiless t content topic => exact ⟨t, topic⟩
  | refused t doc content topic => exact ⟨t, topic⟩
  | valid t doc read page l topic => exact ⟨t, topic⟩

/-! ## Documents -/

/-- **The document of a valid reference is a section that begins with the topic's title**, and what follows the title is
written in tags that match. -/
theorem exists_titled_of_valid (h : d.Prepared) (hplain : d.PlainSources) (he : e ∈ d.published)
    (hvalid : e.outcome = .valid) : ∃ (t : Topic) (doc : Document) (raws : List String) (after : List Node),
      e.topic = some t ∧ e.document = some doc ∧ String.join raws = Text.escape t.title ∧
        doc.root = Xml.titledSection (e.linkId d.stable) raws after ∧ Balanced (Xml.nodesXml after).toList := by
  obtain ⟨t, _, read, l, htopic, -, hread, hdocument, ⟨hsound, hp⟩, -⟩ := exists_page_of_valid h hplain he hvalid
  obtain ⟨raws, after, hraws, hroot⟩ := TopicView.exists_of_read_xml Xml.introduces_empty hread
  rw [show (d.pageView e t _).title = t.title from title_injectionView] at hraws
  have htitled : (relocateAll t (renamed l e t read)).1.root.Titled raws :=
    titled_relocateAll t (titled_rewritten l _ _ _ (Xml.titled_of_read hread hroot))
  have htag : (relocateAll t (renamed l e t read)).1.root.tag = d.sectionTag e := by
    obtain ⟨doc, hdoc, htag⟩ := tag_root_of_valid h (mem_published he).1 (mem_published he).2 hvalid
    cases hdoc.symm.trans hdocument
    exact htag
  generalize (relocateAll t (renamed l e t read)).1 = doc at hdocument hsound hp htitled htag
  obtain ⟨declared, doctype, name, as, cs⟩ := doc
  obtain ⟨⟨after, rfl⟩, hlegible⟩ := htitled
  rw [Element.tag, sectionTag, Element.mk.injEq] at htag
  obtain ⟨rfl, rfl, -⟩ := htag
  refine ⟨t, _, raws, after, htopic, hdocument, hraws, rfl, Xml.balanced_nodes hlegible.2.2 hsound.2.2.2 ?_⟩
  intro x hx
  refine hp x (List.mem_cons_of_mem _ ?_)
  exact List.mem_append_right _ (List.mem_append_right _ hx)

/-! ## Files -/

/-- A file that is read to a section under the reference's link id that begins with the title of its topic. -/
def ShowsTopic (d : Draft) (e : TopicEntry) (f : File) : Prop :=
  ∃ t text doc, e.topic = some t ∧ f = .ofText (d.topicPath e) text ∧ Document.read text = .ok doc ∧
    doc.root.Presents (e.linkId d.stable) t.title

theorem introduces_preamble_baseContext (d : Draft) :
    Xml.Introduces (Template.preamble (d.baseContext "section")) ∧
      Xml.Introduces (Template.preamble (d.baseContext "section") ++ "\n") :=
  Template.introduces_preamble rfl rfl (by decide) (by decide) d.quote_notMem_name

/-- **The file of a published reference shows its topic**, whether it is written from a document or not. -/
theorem showsTopic_of_isFileOf (h : d.Prepared) (hplain : d.PlainSources) (he : e ∈ d.published) {f : File}
    (hf : d.IsFileOf e f) : d.ShowsTopic e f := by
  obtain ⟨text, rfl, htext⟩ := hf
  cases htext with
  | document doc outcome document tags written =>
    obtain ⟨t, _, raws, after, htopic, hdocument, hraws, hroot, hbalanced⟩ := exists_titled_of_valid h hplain he outcome
    cases document.symm.trans hdocument
    obtain ⟨read, raws', after', hread, hraws', hroot'⟩ := Xml.exists_read (e.linkId d.stable)
      d.introduces_preamble_baseContext.2 (Xml.heads_textual hraws) hbalanced
    refine ⟨t, text, read, htopic, rfl, ?_, hroot' ▸ Xml.presents_titledSection _ hraws' after'⟩
    rw [written, hroot, Xml.toXml_titledSection, hread]
  | standIn content bugLink es outcome tags anonymous balanced written =>
    obtain ⟨t, htopic⟩ := exists_topic_of_outcome h (mem_published he).1 (by rw [outcome]; exact Outcome.noConfusion)
    have hroles : ∀ l ∈ TopicView.related { d.view e with bugLink }, '"' ∉ l.role.toList := quote_notMem_view
    obtain ⟨read, hread, hpresents⟩ := TopicView.exists_read_xml d.introduces_preamble_baseContext.1 hroles balanced
    rw [← written] at hread
    rw [show TopicView.linkId { d.view e with bugLink } = e.linkId d.stable from linkId_view,
      show TopicView.title { d.view e with bugLink } = t.title from title_view htopic] at hpresents
    exact ⟨t, text, read, htopic, rfl, hread, hpresents⟩

end Draft

namespace Bindery

variable {σ : Type} {b : Bindery σ}

/-- **Every file of a topic is read to a section that begins with the topic's title.**  In a bound book whose link ids all
differ, and whose topics are written in plain names with no quotation mark within a value, the files of topics are one
for each published reference, and each is read to a section under that reference's link id whose first element is a title
that reads as its topic's, whatever titles, addresses and links there are. -/
theorem topicFiles_read (hb : b.renderer = Renderer.pages) {spec : ContentSpec} {settings : Settings}
    {requester : Option String} {book : Book} {d : Draft} {images : List Image} {s s' t : Session σ}
    (hbind : (b.bind spec settings requester).Gives s book s')
    (hprepare : (b.prepare spec settings requester).Gives s (d, images) t) (hlinks : d.linkIds.Nodup)
    (hplain : d.PlainSources) : ∃ topics, List.Forall₂ d.ShowsTopic d.published topics ∧
      (book.archive.files.filter fun f => d.isTopicPath f.path).Perm topics := by
  obtain ⟨fs, harchive, hfs⟩ := written_of_bind hbind hprepare
  have hd := prepared_prepare hb hprepare
  obtain ⟨topics, hall, hperm⟩ := Draft.perm_topicFiles_of_nodup hb hd hlinks hfs
  rw [harchive]
  refine ⟨topics, List.forall₂_iff_get.2 ⟨hall.length_eq, fun i hi hi' => ?_⟩, hperm⟩
  exact Draft.showsTopic_of_isFileOf hd hplain (List.get_mem _ ⟨i, hi⟩) ((List.forall₂_iff_get.1 hall).2 i hi hi')

/-- A topic with a title and an image of its own, and a link to another topic. -/
theorem topicFiles_read_of_image : ∃ book d images s' t,
    (sample.bind (sampleSpec guide) sampleSettings none).Gives
      (sampleSession "<section><title>x</title><imagedata fileref='y'/><!-- Inject: 2 --></section>" "<section/>")
      book s' ∧
    (sample.prepare (sampleSpec guide) sampleSettings none).Gives
      (sampleSession "<section><title>x</title><imagedata fileref='y'/><!-- Inject: 2 --></section>" "<section/>")
      (d, images) t ∧
    (d.linkIds.Nodup ∧ d.PlainSources ∧ d.published ≠ []) ∧ ∃ topics, List.Forall₂ d.ShowsTopic d.published topics ∧
      (book.archive.files.filter fun f => d.isTopicPath f.path).Perm topics := by
  have hruns : ∃ book d images s' t,
      (sample.bind (sampleSpec guide) sampleSettings none).Gives
        (sampleSession "<section><title>x</title><imagedata fileref='y'/><!-- Inject: 2 --></section>" "<section/>")
        book s' ∧
      (sample.prepare (sampleSpec guide) sampleSettings none).Gives
        (sampleSession "<section><title>x</title><imagedata fileref='y'/><!-- Inject: 2 --></section>" "<section/>")
        (d, images) t ∧
      (d.linkIds.Nodup ∧ d.PlainSources) ∧ d.published.isEmpty = false := exists_bound (by decide +kernel)
  obtain ⟨book, d, images, s', t, hbind, hprepare, ⟨hlinks, hplain⟩, hpublished⟩ := hruns
  exact ⟨book, d, images, s', t, hbind, hprepare, ⟨hlinks, hplain, List.isEmpty_eq_false_iff.1 hpublished⟩,
    topicFiles_read rfl hbind hprepare hlinks hplain⟩

/-- Whether no value in the document that a text writes holds a quotation mark. -/
def isQuoteFree (xml : String) : Bool :=
  match Document.read xml with
  | .ok d => d.root.elements.all fun e => e.attributes.all fun a => !a.2.toList.contains '"'
  | .error _ => true

/-- A tag with quotes in the names of its attributes.  One of them is closed by the apostrophe in the image's name, which
is lost when the image is moved. -/
def misquoted : Session MemoryStore :=
  sampleSession "<section><imagedata k'=\"1\" fileref=\"x\\'\" m\"=\"2\"/></section>" "<section/>"

/-- A topic with no quotation mark in a value whose file is not read. -/
theorem topicFiles_unread : ∃ book d images s' t,
    (sample.bind (sampleSpec guide) sampleSettings none).Gives misquoted book s' ∧
    (sample.prepare (sampleSpec guide) sampleSettings none).Gives misquoted (d, images) t ∧
    (d.linkIds.Nodup ∧ ∀ e ∈ d.registry.entries, ∀ u ∈ e.topic, isQuoteFree u.xml = true ∧
      ∀ r ∈ u.outgoing, isQuoteFree r.xml = true) ∧
    ∃ f ∈ book.archive.files, d.isTopicPath f.path = true ∧
      ∃ text, f = .ofText f.path text ∧ (Document.read text).isOk = false := by
  have hruns : ∃ book d images s' t,
      (sample.bind (sampleSpec guide) sampleSettings none).Gives misquoted book s' ∧
      (sample.prepare (sampleSpec guide) sampleSettings none).Gives misquoted (d, images) t ∧
      (d.linkIds.Nodup ∧ ∀ e ∈ d.registry.entries, ∀ u ∈ e.topic, isQuoteFree u.xml = true ∧
        ∀ r ∈ u.outgoing, isQuoteFree r.xml = true) ∧
      ∃ e ∈ d.published, e.outcome = .valid ∧ ∃ doc ∈ e.document, (Document.read doc.root.toXml).isOk = false :=
    exists_bound (Q := fun d _ => ∃ e ∈ d.published, e.outcome = .valid ∧ ∃ doc ∈ e.document,
      (Document.read doc.root.toXml).isOk = false) (by decide +kernel)
  obtain ⟨book, d, images, s', t, hbind, hprepare, hsources, e, he, hvalid, doc, hdoc, hunread⟩ := hruns
  obtain ⟨fs, harchive, hfs⟩ := written_of_bind hbind hprepare
  obtain ⟨topics, hall, hperm⟩ := Draft.perm_topicFiles_of_nodup rfl (prepared_prepare rfl hprepare) hsources.1 hfs
  obtain ⟨i, hi, rfl⟩ := List.mem_iff_getElem.1 he
  have hi' : i < topics.length := hall.length_eq ▸ hi
  obtain ⟨text, hfile, htext⟩ := (List.forall₂_iff_get.1 hall).2 i hi hi'
  have hmem := List.mem_filter.1 (hperm.mem_iff.2 (List.get_mem topics ⟨i, hi'⟩))
  rw [hfile] at hmem
  refine ⟨book, d, images, s', t, hbind, hprepare, hsources, _, harchive ▸ hmem.1, hmem.2, text, rfl, ?_⟩
  cases htext with
  | document doc' outcome document tags written =>
    cases hdoc.symm.trans document
    rw [written]
    exact d.introduces_preamble_baseContext.2.isOk_read (Xml.exists_toXml doc.root) hunread
  | standIn content bugLink es outcome => exact absurd (hvalid.symm.trans outcome) Outcome.noConfusion

end Bindery
end Bookbinder
