import Bookbinder.Book.Body
import Bookbinder.Proofs.Preambles
import Bookbinder.Proofs.PreparedBooks
/-!
# The files of topics

What the file of a prepared reference shows: its section comes first, under the reference's link id
(`exists_tags_topicFile`).
-/
namespace Bookbinder

open Xml (Document Element Writes)

namespace RelatedTopics

theorem quote_notMem_role {targets : LinkTargets} {claimed : List Int} (tolerant : Bool) {t : Topic} {l : RelatedList}
    (h : l ∈ (RelatedTopics.of targets claimed tolerant t).lists) : '"' ∉ l.role.toList := by
  have hroles : ∀ type ∈ TopicType.listOrder, '"' ∉ type.role.toList := by decide
  obtain ⟨type, htype, hl⟩ := List.mem_filterMap.1 h
  rw [list?] at hl
  split at hl
  · cases hl
  · cases hl
    exact hroles type htype

end RelatedTopics

namespace Draft

open Template (TopicView Context)

/-! ## Views -/

theorem shows_topicContext (t : Topic) (linkId : String) :
    (topicContext t linkId).Shows { linkId, title := t.title } where
  linkId := rfl
  title := rfl
  prerequisites := rfl
  seeAlso := rfl
  process p hp := absurd hp (Option.not_mem_none p)
  previous := rfl
  next := rfl
  related := rfl
  bugLink := rfl

/-- The document of an occurrence with its markers substituted, and the report on them. -/
def substitution (d : Draft) (e : TopicEntry) (t : Topic) (doc : Document) : Element × Injection.Report :=
  if d.policy.allowedFor t then
    Injection.process (.book d.registry d.stable e.ref.step) d.settings.ignoreMissingInjections t (d.occurrence e t doc)
  else (d.occurrence e t doc, {})

/-- The links that go with an occurrence of a topic. -/
def injectionView (d : Draft) (e : TopicEntry) (t : Topic) (doc : Document) : TopicView :=
  if d.policy.allowed then
    match d.spec.outputStyle with
    | .skynet => { linkId := e.linkId d.stable, title := t.title, related :=
        (RelatedTopics.of (.book d.registry d.stable e.ref.step) (d.substitution e t doc).2.claimed
          d.settings.ignoreMissingInjections t).lists }
    | .outlined => { linkId := e.linkId d.stable, title := t.title, links :=
        OutlineLinks.collect d.registry d.stable e.ref.step }
  else { linkId := e.linkId d.stable, title := t.title }

variable {d : Draft} {e : TopicEntry} {t : Topic} {doc : Document}

theorem linkId_injectionView : (d.injectionView e t doc).linkId = e.linkId d.stable := by
  rw [injectionView]
  split
  · split <;> rfl
  · rfl

theorem bugLink_injectionView : (d.injectionView e t doc).bugLink = none := by
  rw [injectionView]
  split
  · split <;> rfl
  · rfl

theorem quote_notMem_injectionView : ∀ l ∈ (d.injectionView e t doc).related, '"' ∉ l.role.toList := by
  intro l hl
  rw [injectionView] at hl
  split at hl
  · split at hl
    · exact RelatedTopics.quote_notMem_role d.settings.ignoreMissingInjections hl
    · exact absurd hl List.not_mem_nil
  · exact absurd hl List.not_mem_nil

/-- What is injected: the markers' substitutes, and the lists of links where the policy allows them. -/
theorem injection_eq : d.injection e t doc
    = if d.policy.allowed then d.addLinks e.ref.step t
        ⟨(d.substitution e t doc).1, (d.substitution e t doc).2, topicContext t (e.linkId d.stable)⟩
      else ⟨(d.substitution e t doc).1, (d.substitution e t doc).2, topicContext t (e.linkId d.stable)⟩ := rfl

theorem root_injection : (d.injection e t doc).root = (d.substitution e t doc).1 := by
  rw [injection_eq]
  split
  · rw [addLinks]
    split <;> rfl
  · rfl

/-- **The context of an injected document shows the links that go with it.** -/
theorem shows_injection : (d.injection e t doc).context.Shows (d.injectionView e t doc) := by
  have hbase := shows_topicContext t (e.linkId d.stable)
  rw [injectionView, injection_eq]
  split
  · cases hstyle : d.spec.outputStyle with
    | skynet =>
      rw [addLinks, hstyle]
      exact hbase.setRelated _
    | outlined =>
      rw [addLinks, hstyle]
      exact hbase.apply _
  · exact hbase

/-- The links of a page, with the offer to report a bug. -/
def pageView (d : Draft) (e : TopicEntry) (t : Topic) (doc : Document) : TopicView :=
  { d.injectionView e t doc with bugLink := if d.settings.insertBugLinks then some (d.bugLink t) else none }

theorem shows_injectionPage : (d.injectionPage e t doc).Shows (d.pageView e t doc) := by
  have hset {c : Context} {v : TopicView} (h : c.Shows v) (content : String) :
      ((c.set "content" (.text content)).set "include_preamble" (.bool false)).Shows v :=
    (h.set (by decide) _).set (by decide) _
  rw [injectionPage, pageContext, pageView]
  split
  · exact hset (shows_injection.setBugLink _) _
  · rw [← bugLink_injectionView]
    exact hset shows_injection _

/-- **The page of an injected document shows its links and what its root holds below the title.** -/
theorem topicPage_injectionPage : Template.topicPage (d.injectionPage e t doc)
    = .ok ((d.pageView e t doc).xml "" ((d.injection e t doc).root.dropFirstChild "title").innerXml) := by
  rw [Template.topicPage_eq shows_injectionPage]
  have hpreamble : (d.injectionPage e t doc).get "include_preamble" = .bool false := Context.get_set_self _ _ _
  have hcontent : (d.injectionPage e t doc).get "content"
      = .text ((d.injection e t doc).root.dropFirstChild "title").innerXml := by
    rw [injectionPage, pageContext, Context.get_set_ne (by decide), Context.get_set_self]
  rw [hpreamble, Template.raw, hcontent]
  rfl

/-! ## Preambles of a book's files -/

theorem quote_notMem_name (d : Draft) : '"' ∉ d.name.toList :=
  fun h => absurd (Slug.isSlugChar_of_mem_escape h) (by decide)

theorem writes_preamble_of_get {c : Context} {element : String} (hroot : c.get "root_element" = .text element)
    (htitle : c.get "escaped_book_title" = .text d.name) (helement : ∀ a ∈ element.toList, a.isAlpha = true)
    (hne : element.toList ≠ []) : Writes (Template.preamble c).toList [] :=
  Template.writes_preamble hroot htitle helement hne d.quote_notMem_name

theorem writes_preamble_baseContext (d : Draft) {element : String} (helement : ∀ a ∈ element.toList, a.isAlpha = true)
    (hne : element.toList ≠ []) : Writes (Template.preamble (d.baseContext element)).toList [] :=
  writes_preamble_of_get rfl rfl helement hne

/-! ## Valid pages -/

/-- What a valid page is read from. -/
def pageText (d : Draft) (e : TopicEntry) (t : Topic) (doc : Document) : String :=
  (d.pageView e t doc).xml "" ((d.injection e t doc).root.dropFirstChild "title").innerXml

theorem tags_of_read_page {v : TopicView} {content : String} {read : Document}
    (h : Document.read (v.xml "" content) = .ok read) :
    read.root.elements.map Element.tag = Xml.tags (v.xml "" content).toList := by
  have hmark : Xml.dropMark (v.xml "" content).toList = (v.xml "" content).toList := by
    obtain ⟨cs, hcs⟩ : ∃ cs, (v.xml "" content).toList = '<' :: cs := by
      have hsection : "<section id=\"".toList = '<' :: "section id=\"".toList := by decide +kernel
      rw [TopicView.xml]
      simp only [String.append_assoc, String.empty_append, String.toList_append, hsection, List.cons_append]
      exact ⟨_, rfl⟩
    rw [hcs]
    rfl
  rw [← Xml.tags_of_read h, hmark]

/-- **The root of a page is its section.** -/
theorem tag_root_of_read_page {v : TopicView} {content : String} {read : Document}
    (h : Document.read (v.xml "" content) = .ok read) :
    read.root.tag = ⟨"section", [("id", Text.escape v.linkId)], []⟩ := by
  have htags := tags_of_read_page h
  obtain ⟨es, hes⟩ := Template.exists_tags_topicPage v (show Writes "".toList [] from Writes.nil) content
  rw [hes, Element.elements, List.map_cons, List.cons.injEq] at htags
  exact htags.1

/-- What the document of a valid reference is made from: its images are moved if it ends up in the book. -/
theorem exists_read_of_valid (h : d.Prepared) (he : e ∈ d.registry.entries) (hvalid : e.outcome = .valid) :
    ∃ t doc read l, e.topic = some t ∧ (Manuscript.of t).document? = some doc ∧
      Document.read (d.pageText e t doc) = .ok read ∧
        e.document = some (if Layout.isOutlined d.outline e.ref.step then (ImageRef.relocateAll t (renamed l e t read)).1
          else renamed l e t read) := by
  obtain ⟨e₀, hworked, rfl⟩ := h.entries e he
  rw [outcome_relocateEntry] at hvalid
  cases hworked with
  | absent outcome => exact absurd (hvalid.symm.trans outcome) Outcome.noConfusion
  | bodiless t content topic manuscript document outcome => exact absurd (hvalid.symm.trans outcome) Outcome.noConfusion
  | refused t doc content topic manuscript document outcome =>
    exact absurd (hvalid.symm.trans outcome) Outcome.noConfusion
  | valid t doc read page l topic manuscript render reading document outcome =>
    rw [topicPage_injectionPage] at render
    cases render
    have hmoved : relocateEntry d.outline e₀ = if Layout.isOutlined d.outline e₀.ref.step then
        ({ e₀ with document := some (ImageRef.relocateAll t (renamed l e₀ t read)).1 },
          (ImageRef.relocateAll t (renamed l e₀ t read)).2) else (e₀, []) := by
      rw [relocateEntry, topic, document]
    refine ⟨t, doc, read, l, ?_⟩
    by_cases houtlined : Layout.isOutlined d.outline e₀.ref.step = true
    · rw [hmoved, if_pos houtlined, if_pos houtlined]
      exact ⟨topic, manuscript, reading, rfl⟩
    · rw [hmoved, if_neg houtlined, if_neg houtlined]
      exact ⟨topic, manuscript, reading, document⟩

theorem exists_of_valid (h : d.Prepared) (he : e ∈ d.registry.entries)
    (houtlined : Layout.isOutlined d.outline e.ref.step) (hvalid : e.outcome = .valid) :
    ∃ t doc read l, e.topic = some t ∧ (Manuscript.of t).document? = some doc ∧
      Document.read (d.pageText e t doc) = .ok read ∧
        e.document = some (ImageRef.relocateAll t (renamed l e t read)).1 := by
  obtain ⟨t, doc, read, l, htopic, hmanuscript, hread, hdocument⟩ := exists_read_of_valid h he hvalid
  rw [if_pos houtlined] at hdocument
  exact ⟨t, doc, read, l, htopic, hmanuscript, hread, hdocument⟩

/-- The section that a reference's file begins with. -/
def sectionTag (d : Draft) (e : TopicEntry) : Element :=
  ⟨"section", [("id", Text.escape (e.linkId d.stable))], []⟩

/-- Making ids unique keeps the section that a page begins with. -/
theorem tag_root_renamed {l : IdLedger} {read : Document}
    (hread : Document.read (d.pageText e t doc) = .ok read) : (renamed l e t read).root.tag = d.sectionTag e := by
  have htag : read.root.tag = d.sectionTag e := by
    rw [tag_root_of_read_page hread, show (d.pageView e t doc).linkId = e.linkId d.stable from linkId_injectionView]
    rfl
  have hids : ∀ a ∈ read.root.attributes, a.1 = "id" := by
    rw [show read.root.attributes = [("id", Text.escape (e.linkId d.stable))] from congrArg Element.attributes htag]
    exact fun a ha => by rw [List.mem_singleton.1 ha]
  exact (IdLedger.tag_rewritten l t.sourceId e.ref.duplicate e.ref.step hids).trans htag

theorem tag_root_of_valid (h : d.Prepared) (he : e ∈ d.registry.entries)
    (houtlined : Layout.isOutlined d.outline e.ref.step) (hvalid : e.outcome = .valid) :
    ∃ doc, e.document = some doc ∧ doc.root.tag = d.sectionTag e := by
  obtain ⟨t, doc, read, l, -, -, hread, hdocument⟩ := exists_of_valid h he houtlined hvalid
  have htag := tag_root_renamed (l := l) hread
  have himage : (renamed l e t read).root.name ≠ "imagedata" := by
    rw [show (renamed l e t read).root.name = "section" from congrArg Element.name htag]
    decide
  exact ⟨_, hdocument, (ImageRef.tag_relocateAll himage).trans htag⟩

/-! ## Files -/

/-- The links that a reference's page shows. -/
def view (d : Draft) (e : TopicEntry) : TopicView :=
  match e.topic with
  | some t => match (Manuscript.of t).document? with
    | some doc => d.injectionView e t doc
    | none => { linkId := e.linkId d.stable, title := t.title }
  | none => { linkId := e.linkId d.stable, title := e.ref.title }

theorem linkId_view : (d.view e).linkId = e.linkId d.stable := by
  rw [view]
  split
  · split
    · exact linkId_injectionView
    · rfl
  · rfl

theorem quote_notMem_view : ∀ l ∈ (d.view e).related, '"' ∉ l.role.toList := by
  rw [view]
  split
  · split
    · exact quote_notMem_injectionView
    · exact fun l hl => absurd hl List.not_mem_nil
  · exact fun l hl => absurd hl List.not_mem_nil

/-- What the text of a reference's file shows: its document, or a body that stands in for one with the links that go
with the reference. -/
inductive FileText (d : Draft) (e : TopicEntry) (text : String) : Prop
  | document (doc : Document) (outcome : e.outcome = .valid) (document : e.document = some doc)
      (tags : Xml.tags text.toList = Xml.tags doc.root.toXml.toList)
      (written : text = Template.preamble (d.baseContext "section") ++ "\n" ++ doc.root.toXml)
  | standIn (content : String) (bugLink : Option String) (es : List Element) (outcome : e.outcome = .fallback content)
      (tags : Xml.tags text.toList = TopicView.tags { d.view e with bugLink } es) (anonymous : ∀ x ∈ es, x.Anonymous)
      (balanced : Xml.Balanced content.toList)
      (written : text = TopicView.xml { d.view e with bugLink } (Template.preamble (d.baseContext "section")) content)

theorem view_eq {t : Topic} {doc : Document} (htopic : e.topic = some t)
    (hmanuscript : (Manuscript.of t).document? = some doc) : d.view e = d.injectionView e t doc := by
  rw [view, htopic]
  simp only [hmanuscript]

theorem view_relocateEntry (d : Draft) (e : TopicEntry) (outline : Level) :
    d.view (relocateEntry outline e).1 = d.view e := by
  have hbare (e : TopicEntry) : d.view e.bare = d.view e := rfl
  rw [← hbare, bare_relocateEntry, hbare]

/-- A reference without a document has a context that shows its links. -/
theorem shows_of_fallback (h : d.Prepared) (he : e ∈ d.registry.entries) {content : String}
    (hfallback : e.outcome = .fallback content) :
    Template.StandsIn content ∧ ∃ bugLink, (e.context.getD []).Shows { d.view e with bugLink } := by
  obtain ⟨e₀, hworked, rfl⟩ := h.entries e he
  rw [outcome_relocateEntry] at hfallback
  rw [view_relocateEntry, context_relocateEntry]
  cases hworked with
  | absent outcome => exact absurd (hfallback.symm.trans outcome) Outcome.noConfusion
  | bodiless t content topic manuscript document outcome standsIn context =>
    cases hfallback.symm.trans outcome
    refine ⟨standsIn, none, ?_⟩
    rw [context, view, topic]
    simp only [manuscript]
    exact shows_topicContext t _
  | refused t doc content topic manuscript document outcome standsIn context =>
    cases hfallback.symm.trans outcome
    refine ⟨standsIn, ?_⟩
    rw [view_eq topic manuscript]
    rcases context with context | context
    · rw [context]
      refine ⟨none, ?_⟩
      rw [← bugLink_injectionView]
      exact shows_injection
    · rw [context]
      exact ⟨_, shows_injectionPage⟩
  | valid t doc read page l topic manuscript render reading document outcome =>
    exact absurd (hfallback.symm.trans outcome) Outcome.noConfusion

variable {σ : Type} {b : Bindery σ}

/-- The path of a reference's file. -/
def topicPath (d : Draft) (e : TopicEntry) : String :=
  d.localePath (Layout.topicFile (e.linkId d.stable))

theorem showIf_true (s : String) : Template.showIf (.bool true) s = s := rfl

/-- What the page around a body is rendered from shows the links of the body's context. -/
theorem shows_standInPageContext {c : Context} {v : TopicView} (h : c.Shows v) (content : String) :
    (d.standInPageContext content c).Shows v :=
  (((h.set (by decide) _).set (by decide) _).set (by decide) _).set (by decide) _

/-- The page around a body that stands in for a document is the page of its context's links. -/
theorem standInPage_eq {content page : String} {c : Context} {v : TopicView} (hshows : c.Shows v)
    (hpage : Template.topicPage (d.standInPageContext content c) = .ok page) :
    page = v.xml (Template.preamble (d.baseContext "section")) content := by
  have hcontent : Template.raw (d.standInPageContext content c) "content" = content := by
    rw [Template.raw, standInPageContext, Context.get_set_self]
    rfl
  have hflag : (d.standInPageContext content c).get "include_preamble" = .bool true := by
    rw [standInPageContext, Context.get_set_ne (by decide), Context.get_set_self]
  have hroot : (d.standInPageContext content c).get "root_element" = .text "section" := by
    rw [standInPageContext, Context.get_set_ne (by decide), Context.get_set_ne (by decide),
      Context.get_set_ne (by decide), Context.get_set_self]
  have htitle : (d.standInPageContext content c).get "escaped_book_title" = .text d.name := by
    rw [standInPageContext, Context.get_set_ne (by decide), Context.get_set_ne (by decide), Context.get_set_self]
  have hpreamble : Template.preamble (d.standInPageContext content c) = Template.preamble (d.baseContext "section") := by
    unfold Template.preamble
    rw [Template.raw, Template.raw, hroot, htitle]
    rfl
  rw [Template.topicPage_eq (shows_standInPageContext hshows content), hflag, showIf_true, hcontent, hpreamble] at hpage
  exact (Except.ok.inj hpage).symm

/-- **The file of a reference is written from its document or from a body that stands in for one.** -/
theorem fileText_topicFile (hb : b.renderer = Renderer.pages) (h : d.Prepared) (he : e ∈ d.registry.entries)
    (houtlined : Layout.isOutlined d.outline e.ref.step) {o : Option File} {s s' : Session σ}
    (hrun : (topicFile? b d (Template.preamble (d.baseContext "section")) e).Gives s o s') :
    (e.outcome = .pending ∧ o = none) ∨ ∃ text, o = some (.ofText (d.topicPath e) text) ∧ d.FileText e text := by
  have hpreamble : Writes (Template.preamble (d.baseContext "section")).toList [] :=
    d.writes_preamble_baseContext (by decide) (by decide)
  rw [topicFile?] at hrun
  cases houtcome : e.outcome with
  | pending =>
    rw [houtcome] at hrun
    exact .inl ⟨rfl, hrun.pure.1⟩
  | valid =>
    obtain ⟨doc, hdocument, htag⟩ := tag_root_of_valid h he houtlined houtcome
    rw [houtcome, hdocument, Template.trimEnd_preamble] at hrun
    refine .inr ⟨_, hrun.pure.1, .document doc houtcome hdocument ?_ rfl⟩
    have hblank := Xml.writes_fragment "\n" [] (by decide +kernel)
    rw [String.toList_append, String.toList_append]
    exact (hpreamble.append hblank) _
  | fallback content =>
    obtain ⟨⟨⟨es, hes, hanonymous⟩, hbalanced⟩, bugLink, hshows⟩ := shows_of_fallback h he houtcome
    rw [houtcome, hb] at hrun
    obtain ⟨page, hpage, rfl⟩ := hrun.map
    have htext := hpage.render.1
    rw [Template.render_file] at htext
    have hwritten := standInPage_eq hshows htext
    refine .inr ⟨page, rfl, .standIn content bugLink es houtcome ?_ hanonymous hbalanced hwritten⟩
    have hroles : ∀ l ∈ TopicView.related { d.view e with bugLink }, '"' ∉ l.role.toList := quote_notMem_view
    rw [hwritten]
    exact (Template.writes_topicPage hroles hpreamble hes).tags_eq

end Draft
end Bookbinder
