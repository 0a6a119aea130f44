import Bookbinder.Proofs.BookIds
import Bookbinder.Proofs.GeneratedLinks
import Bookbinder.Proofs.SectionIds
/-!
# Cross references of a book

Every cross reference in the file of a topic is the author's, came with the text of a related topic, or was made by the
library (`origin_of_linkend`).  One that the library made leads to a section of the book if and only if its id is one
that the book shows (`Bindery.crossReferences_lead_iff`); a reference outside all chapters, for one, is not shown.
-/
namespace Bookbinder

open Xml (Document Element Node linkends nodesElements)

namespace Xml

theorem linkends_mapAttributes {σ : Type} (g : String → String) (f : String → Attributes → σ → Attributes × σ)
    (hf : ∀ name as s, (f name as s).1.get? "linkend" = (as.get? "linkend").map g) (ns : List Node) (s : σ) :
    linkends (nodesElements (nodesMapAttributes f ns s).1) = (linkends (nodesElements ns)).map g := by
  have hkey (es : List Element) : linkends es
      = (es.map fun e => if e.name = "xref" then e.attributes.get? "linkend" else none).filterMap id := by
    rw [List.filterMap_map]
    rfl
  have h := map_nodesElements_mapAttributes (fun name as => if name = "xref" then as.get? "linkend" else none)
    (Option.map g) f (fun name as s => by
      split
      · exact hf name as s
      · rfl) ns s
  rw [hkey, h, List.filterMap_map, hkey, List.filterMap_map, List.map_filterMap]
  rfl

theorem linkends_elements {root : Element} (h : root.name ≠ "xref") :
    linkends root.elements = linkends (nodesElements root.children) := by
  rw [linkends, Element.elements, List.filterMap_cons, if_neg h]
  rfl

end Xml

namespace IdLedger

variable (l : IdLedger) (topicId : Int) (duplicate : Option Nat) (step : Nat) (root : Element)

theorem finalId_mem {v : String} (h : v ∈ innerIds root) :
    l.finalId topicId duplicate step root v ∈ innerIds (l.rewritten topicId duplicate step root) := by
  rw [innerIds_rewritten]
  exact List.mem_map.2 ⟨v, h, rfl⟩

theorem linkends_rewritten : linkends (nodesElements (l.rewritten topicId duplicate step root).children)
    = (linkends (nodesElements root.children)).map (l.finalId topicId duplicate step root) := by
  rcases rewritten_eq l topicId duplicate step root with ⟨hroot, hid⟩ | hroot
  · rw [hroot, List.map_id'' hid]
  · rw [hroot]
    exact Xml.linkends_mapAttributes _ _ (fun _ as _ => get?_renameAll _ as "linkend") root.children ()

end IdLedger

theorem ImageRef.linkends_relocateAll {t : Topic} {doc : Document} :
    linkends (nodesElements (relocateAll t doc).1.root.children) = linkends (nodesElements doc.root.children) :=
  (Xml.linkends_mapAttributes id (relocate t)
    (fun name as refs => by rw [get?_relocate (by decide), Option.map_id]; rfl) doc.root.children _).trans
      (List.map_id _)

namespace Draft

open Template (TopicView)

variable {d : Draft} {e : TopicEntry} {f : File}

theorem name_ne_xref {root : Element} {as : Xml.Attributes} (h : root.tag = ⟨"section", as, []⟩) :
    root.name ≠ "xref" := by
  rw [show root.name = "section" from congrArg Element.name h]
  decide

/-- What becomes of a cross reference's value: an id of the topic's own is renamed with the element that has it, any
other value stays. -/
structure Renamed (d : Draft) (e : TopicEntry) (u v : String) : Prop where
  kept : u ∉ d.injectedIds e → v = u
  own : u ∈ d.injectedIds e → v ∈ e.ownIds

/-- **The cross references of a valid document are those of its page**, renamed together with the document's ids. -/
theorem exists_linkends_of_valid (h : d.Prepared) (hplain : d.PlainSources) (he : e ∈ d.registry.entries)
    (hvalid : e.outcome = .valid) : ∃ final t doc, ∃ rename : String → String, e.document = some final ∧
      e.topic = some t ∧ (Manuscript.of t).document? = some doc ∧
      linkends final.root.elements = (linkends ((d.pageView e t doc).tags
        (Xml.nodesTags (d.injectedBody e t doc).children))).map rename ∧ ∀ u, d.Renamed e u (rename u) := by
  obtain ⟨t, doc, read, l, htopic, hmanuscript, hread, hdocument⟩ := exists_read_of_valid h he hvalid
  obtain ⟨htext, hrelated⟩ := hplain e he t htopic
  have hbody := plain_injectedBody (d := d) (e := e) hmanuscript htext hrelated
  have htags := tags_of_read_page hread
  rw [← pageText, tags_pageText hbody] at htags
  have hinjected : d.injectedIds e = IdLedger.innerIds read.root := by
    rw [injectedIds, htopic]
    simp only [hmanuscript]
    exact (plain_of_read_page hbody hread).2.symm
  have hsection : read.root.name ≠ "xref" := name_ne_xref (tag_root_of_read_page hread)
  have htag := tag_root_renamed (l := l) hread
  have hrenamed : (renamed l e t read).root.name ≠ "xref" := name_ne_xref htag
  have himage : (renamed l e t read).root.name ≠ "imagedata" := by
    rw [show (renamed l e t read).root.name = "section" from congrArg Element.name htag]
    decide
  have hrelocated : (ImageRef.relocateAll t (renamed l e t read)).1.root.name ≠ "xref" :=
    name_ne_xref ((ImageRef.tag_relocateAll himage).trans htag)
  -- Moving images changes neither the cross references nor the ids.
  have hfinal : ∃ final, e.document = some final ∧ linkends final.root.elements
      = linkends (nodesElements (renamed l e t read).root.children) ∧
        IdLedger.innerIds final.root = IdLedger.innerIds (renamed l e t read).root := by
    split at hdocument
    · exact ⟨_, hdocument, by rw [Xml.linkends_elements hrelocated, ImageRef.linkends_relocateAll],
        ImageRef.innerIds_relocateAll⟩
    · exact ⟨_, hdocument, Xml.linkends_elements hrenamed, rfl⟩
  obtain ⟨final, hdocument, hlinkends, hids⟩ := hfinal
  have hown : e.ownIds = IdLedger.innerIds (renamed l e t read).root := by
    rw [TopicEntry.ownIds, hvalid, hdocument]
    exact hids
  have hrewritten : linkends (nodesElements (renamed l e t read).root.children)
      = (linkends (nodesElements read.root.children)).map (l.finalId t.sourceId e.ref.duplicate e.ref.step read.root) :=
    IdLedger.linkends_rewritten l _ _ _ read.root
  refine ⟨final, t, doc, l.finalId t.sourceId e.ref.duplicate e.ref.step read.root, hdocument, htopic, hmanuscript, ?_,
    fun u => ⟨?_, ?_⟩⟩
  · rw [hlinkends, hrewritten, ← Xml.linkends_elements hsection, ← Xml.linkends_map_tag read.root.elements, htags]
  · rw [hinjected]
    exact IdLedger.finalId_of_notMem l _ _ _ read.root
  · rw [hinjected, hown]
    exact IdLedger.finalId_mem l _ _ _ read.root

/-- Those of the file that a valid document is written to are the same. -/
theorem exists_linkends_eq (h : d.Prepared) (hplain : d.PlainSources) (he : e ∈ d.published)
    (hvalid : e.outcome = .valid) (hf : d.IsFileOf e f) : ∃ t doc, ∃ rename : String → String, e.topic = some t ∧
      (Manuscript.of t).document? = some doc ∧ linkends f.tags = (linkends ((d.pageView e t doc).tags
        (Xml.nodesTags (d.injectedBody e t doc).children))).map rename ∧
      (∀ v, v ∉ d.injectedIds e → rename v = v) ∧ ∀ v ∈ d.injectedIds e, rename v ∈ e.ownIds := by
  obtain ⟨final, t, doc, rename, hdocument, htopic, hmanuscript, hlinkends, hrename⟩ :=
    exists_linkends_of_valid h hplain (mem_published he).1 hvalid
  refine ⟨t, doc, rename, htopic, hmanuscript, ?_, fun v => (hrename v).kept, fun v => (hrename v).own⟩
  rw [tags_of_valid h hplain he hvalid hf hdocument, Xml.linkends_map_tag, hlinkends]

/-- What a page links to is in the file, unless an id of the topic's own is in the way: then that is linked to. -/
theorem exists_linkend_of_page (h : d.Prepared) (hplain : d.PlainSources) (he : e ∈ d.published)
    (hvalid : e.outcome = .valid) (hf : d.IsFileOf e f) {t : Topic} {doc : Document} (htopic : e.topic = some t)
    (hmanuscript : (Manuscript.of t).document? = some doc) {u : String} (hu : u ∈ linkends ((d.pageView e t doc).tags
      (Xml.nodesTags (d.injectedBody e t doc).children))) :
    ∃ v ∈ linkends f.tags, v = u ∨ u ∈ d.injectedIds e ∧ v ∈ e.ownIds := by
  obtain ⟨t', doc', rename, htopic', hmanuscript', hlinkends, hkept, hrenamed⟩ :=
    exists_linkends_eq h hplain he hvalid hf
  cases htopic.symm.trans htopic'
  cases hmanuscript.symm.trans hmanuscript'
  refine ⟨rename u, hlinkends ▸ List.mem_map_of_mem hu, ?_⟩
  by_cases hown : u ∈ d.injectedIds e
  · exact .inr ⟨hown, hrenamed u hown⟩
  · exact .inl (hkept u hown)

/-- **What the library makes for a reference is in its file**: a cross reference that leads where it was made to lead,
unless an id of the topic's own is in the way. -/
theorem exists_linkend_of_bodyReference (h : d.Prepared) (hplain : d.PlainSources) (he : e ∈ d.published)
    (hf : d.IsFileOf e f) {target : String} (ht : target ∈ d.bodyReferences e) : ∃ v ∈ linkends f.tags,
      v = Text.escape target ∨ Text.escape target ∈ d.injectedIds e ∧ v ∈ e.ownIds := by
  by_cases hvalid : e.outcome = .valid
  · obtain ⟨t, doc, -, htopic, hmanuscript, -⟩ := exists_linkends_eq h hplain he hvalid hf
    refine exists_linkend_of_page h hplain he hvalid hf htopic hmanuscript ((TopicView.mem_linkends_tags _ _).2 ?_)
    rw [bodyReferences, if_pos hvalid, view_eq htopic hmanuscript, List.mem_append] at ht
    rcases ht with ht | ht
    · exact .inr ⟨target, ht, rfl⟩
    · obtain ⟨hallowed, m, hm, ht⟩ := (mem_markerTargets_iff htopic hmanuscript).1 ht
      left
      rw [Xml.nodesTags, Xml.linkends_map_tag, injectedBody, root_injection, substitution, if_pos hallowed]
      exact Injection.mem_linkends_of_bodyMarkers hm ht
  · obtain ⟨text, rfl, htext⟩ := hf
    rw [bodyReferences, if_neg hvalid, List.append_nil] at ht
    cases htext with
    | document doc outcome => exact absurd outcome hvalid
    | standIn content bugLink es outcome tags anonymous =>
      refine ⟨Text.escape target, ?_, .inl rfl⟩
      rw [File.tags_ofText, tags]
      exact (TopicView.mem_linkends_tags _ _).2 (.inr ⟨target, ht, rfl⟩)

theorem origin_of_injected {t : Topic} {doc : Document} (htopic : e.topic = some t)
    (hmanuscript : (Manuscript.of t).document? = some doc) {v : String}
    (hv : v ∈ linkends (nodesElements (d.injection e t doc).root.children)) :
    v ∈ linkends (nodesElements doc.root.children) ∨
      (∃ target ∈ d.markerTargets e Injection.markers, Text.escape target = v) ∨
      ∃ related ∈ t.outgoing, v ∈ linkends (nodesElements (Injection.bodyOf related)) := by
  rw [root_injection, substitution] at hv
  split at hv
  · rename_i hallowed
    rcases Injection.mem_linkends_process.1 hv with hv | ⟨m, hm, ms, hms, hv⟩
    · exact .inl hv
    · cases hlink : m.kind.isLink with
      | true =>
        obtain ⟨target, htarget, rfl⟩ := (Injection.mem_linkends_replacement hlink hms).1 hv
        exact .inr (.inl ⟨target, (mem_markerTargets_iff htopic hmanuscript).2 ⟨hallowed, m, hm, htarget⟩, rfl⟩)
      | false => exact .inr (.inr (Injection.exists_of_linkend_of_not_isLink hlink hms hv))
  · exact .inl hv

/-- **Where the cross references of a published document come from**: the author's own, those that came with the text of
a related topic, and those that the library made.  One that names an id of the topic's own is renamed with that. -/
theorem origin_of_linkend (h : d.Prepared) (hplain : d.PlainSources) (he : e ∈ d.published)
    (hvalid : e.outcome = .valid) (hf : d.IsFileOf e f) {v : String} (hv : v ∈ linkends f.tags) :
    ∃ t doc u, e.topic = some t ∧ (Manuscript.of t).document? = some doc ∧
      (u ∉ d.injectedIds e ∧ v = u ∨ u ∈ d.injectedIds e ∧ v ∈ e.ownIds) ∧
      (u ∈ linkends (nodesElements doc.root.children) ∨ (∃ target ∈ d.crossReferences e, Text.escape target = u) ∨
        ∃ related ∈ t.outgoing, u ∈ linkends (nodesElements (Injection.bodyOf related))) := by
  obtain ⟨t, doc, rename, htopic, hmanuscript, hlinkends, hkept, hrenamed⟩ := exists_linkends_eq h hplain he hvalid hf
  rw [hlinkends] at hv
  obtain ⟨u, hu, rfl⟩ := List.mem_map.1 hv
  refine ⟨t, doc, u, htopic, hmanuscript, ?_, ?_⟩
  · by_cases hown : u ∈ d.injectedIds e
    · exact .inr ⟨hown, hrenamed u hown⟩
    · exact .inl ⟨hown, hkept u hown⟩
  · have hmade {target : String} (ht : target ∈ (d.view e).targets ∨ target ∈ d.markerTargets e Injection.markers) :
        target ∈ d.crossReferences e := by
      rw [crossReferences, if_pos hvalid]
      exact List.mem_append.2 ht
    rcases (TopicView.mem_linkends_tags _ _).1 hu with hu | ⟨target, ht, rfl⟩
    · rw [Xml.nodesTags, Xml.linkends_map_tag] at hu
      have hroot := Xml.linkends_subset List.eraseP_subset hu
      rcases origin_of_injected htopic hmanuscript hroot with hu | ⟨target, ht, rfl⟩ | hu
      · exact .inl hu
      · exact .inr (.inl ⟨target, hmade (.inr ht), rfl⟩)
      · exact .inr (.inr hu)
    · exact .inr (.inl ⟨target, hmade (.inl (view_eq htopic hmanuscript ▸ ht)), rfl⟩)

/-! ## Where they lead -/

/-- The ids that the cross references lead to which were made for a reference and stand in a file. -/
def generated (d : Draft) (e : TopicEntry) (f : File) : List String :=
  (d.crossReferences e).filter fun target => (linkends f.tags).contains (Text.escape target)

end Draft

namespace Bindery

variable {σ : Type} {b : Bindery σ}

/-- **Where the cross references that a book generates lead.**  In a bound book all of them, as they stand in the files
of the topics, lead to sections of the same book if and only if the book shows each link id that they lead to. -/
theorem crossReferences_lead_iff (hb : b.renderer = Renderer.pages) {spec : ContentSpec} {settings : Settings}
    {requester : Option String} {book : Book} {d : Draft} {images : List Image} {s s' t : Session σ}
    (hbind : (b.bind spec settings requester).Gives s book s')
    (hprepare : (b.prepare spec settings requester).Gives s (d, images) t) :
    (∀ f ∈ book.archive.files, ∀ e ∈ d.published, d.IsFileOf e f → ∀ target ∈ d.generated e f,
        Text.escape target ∈ d.sectionIds book.archive) ↔
      ∀ f ∈ book.archive.files, ∀ e ∈ d.published, d.IsFileOf e f → ∀ target ∈ d.generated e f,
        target ∈ d.shownIds := by
  obtain ⟨fs, harchive, hfs⟩ := written_of_bind hbind hprepare
  have hshown (target : String) : Text.escape target ∈ d.sectionIds book.archive ↔ target ∈ d.shownIds := by
    rw [harchive]
    exact Draft.mem_sectionIds_iff hb (prepared_prepare hb hprepare) hfs target
  simp only [hshown]

/-! ## A book with a link -/

/-- A topic that asks for a link to another. -/
def linkingSession : Session MemoryStore :=
  sampleSession "<section><para><!-- Inject: 2 --></para></section>" "<section><para>b</para></section>"

/-- A book with a chapter of some topics, and with others outside of it. -/
def chapterSpec (inside outside : List Item) : ContentSpec :=
  sampleSpec (.level { kind := .chapter, title := "Guide" } inside :: outside)

/-- A link to a topic of the same chapter leads there. -/
theorem crossReferences_lead_of_chapter : ∃ book d images s' t,
    (sample.bind (chapterSpec [.topic (.ofTopic 1 "A"), .topic (.ofTopic 2 "B")] []) sampleSettings none).Gives
      linkingSession book s' ∧
    (sample.prepare (chapterSpec [.topic (.ofTopic 1 "A"), .topic (.ofTopic 2 "B")] []) sampleSettings none).Gives
      linkingSession (d, images) t ∧
    (∃ e ∈ d.published, "B" ∈ d.crossReferences e) ∧
    ∀ f ∈ book.archive.files, ∀ e ∈ d.published, d.IsFileOf e f → ∀ target ∈ d.generated e f,
      Text.escape target ∈ d.sectionIds book.archive := by
  have hruns : ∃ book d images s' t,
      (sample.bind (chapterSpec [.topic (.ofTopic 1 "A"), .topic (.ofTopic 2 "B")] []) sampleSettings none).Gives
        linkingSession book s' ∧
      (sample.prepare (chapterSpec [.topic (.ofTopic 1 "A"), .topic (.ofTopic 2 "B")] []) sampleSettings none).Gives
        linkingSession (d, images) t ∧
      (∃ e ∈ d.published, "B" ∈ d.crossReferences e) ∧
        ∀ e ∈ d.published, ∀ target ∈ d.crossReferences e, target ∈ d.shownIds :=
    exists_bound (Q := fun d _ => ∀ e ∈ d.published, ∀ target ∈ d.crossReferences e, target ∈ d.shownIds)
      (by decide +kernel)
  obtain ⟨book, d, images, s', t, hbind, hprepare, hlink, hshown⟩ := hruns
  refine ⟨book, d, images, s', t, hbind, hprepare, hlink, (crossReferences_lead_iff rfl hbind hprepare).2 ?_⟩
  exact fun f _ e he _ target ht => hshown e he target (List.mem_of_mem_filter ht)

/-- A link to a topic that stands outside all chapters leads nowhere. -/
theorem crossReference_dangles : ∃ book d images s' t,
    (sample.bind (chapterSpec [.topic (.ofTopic 1 "A")] [.topic (.ofTopic 2 "B")]) sampleSettings none).Gives
      linkingSession book s' ∧
    (sample.prepare (chapterSpec [.topic (.ofTopic 1 "A")] [.topic (.ofTopic 2 "B")]) sampleSettings none).Gives
      linkingSession (d, images) t ∧
    (∃ f ∈ book.archive.files, ∃ e ∈ d.published, d.IsFileOf e f ∧ "B" ∈ d.generated e f) ∧
      Text.escape "B" ∉ d.sectionIds book.archive := by
  have hruns : ∃ book d images s' t,
      (sample.bind (chapterSpec [.topic (.ofTopic 1 "A")] [.topic (.ofTopic 2 "B")]) sampleSettings none).Gives
        linkingSession book s' ∧
      (sample.prepare (chapterSpec [.topic (.ofTopic 1 "A")] [.topic (.ofTopic 2 "B")]) sampleSettings none).Gives
        linkingSession (d, images) t ∧
      (d.DistinctLinks ∧ d.PlainSources ∧ ∃ e ∈ d.published, "B" ∈ d.bodyReferences e ∧
        Text.escape "B" ∉ d.injectedIds e) ∧ "B" ∉ d.shownIds :=
    exists_bound (Q := fun d _ => "B" ∉ d.shownIds) (by decide +kernel)
  obtain ⟨book, d, images, s', t, hbind, hprepare, ⟨hlinks, hplain, e, he, hlink, hown⟩, hshown⟩ := hruns
  obtain ⟨fs, harchive, hfs⟩ := written_of_bind hbind hprepare
  have hd : d.Prepared := prepared_prepare rfl hprepare
  obtain ⟨topics, hall, hperm⟩ := Draft.perm_topicFiles_of_nodup rfl hd hlinks.nodup hfs
  obtain ⟨f, hf, hef⟩ := exists_of_forall₂_left hall he
  refine ⟨book, d, images, s', t, hbind, hprepare, ⟨f, ?_, e, he, hef, List.mem_filter.2 ⟨?_, ?_⟩⟩, ?_⟩
  · rw [harchive]
    exact List.mem_of_mem_filter (hperm.mem_iff.2 hf)
  · exact d.bodyReferences_subset e hlink
  · obtain ⟨v, hv, rfl | ⟨hmem, -⟩⟩ := Draft.exists_linkend_of_bodyReference hd hplain he hef hlink
    · exact List.contains_iff_mem.2 hv
    · exact absurd hmem hown
  · rw [harchive, Draft.mem_sectionIds_iff rfl hd hfs]
    exact hshown

end Bindery
end Bookbinder
