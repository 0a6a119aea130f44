import Bookbinder.Proofs.BackMatterPages
import Bookbinder.Proofs.InjectedLinks
/-!
# Bodies that stand in for topics

A topic that cannot be shown is stood in for by a page of its own, wherever in a build that comes out
(`Bindery.covered_prepare`).  What the page says links to the topic's section in the chapter of problems, unless there is
no such chapter.
-/
namespace Bookbinder

open Xml (Document Writes linkends)

namespace Template

/-! ## What stands in -/

/-- The pages that stand in for topics. -/
def standIns : List PageName :=
  [.emptyTopic, .failedInjection, .failedValidation]

/-- **A page that stands in for a topic links to what is said of it, or to nothing.** -/
theorem linkends_of_render {page : PageName} (hpage : page ∈ standIns) {c : Context} {id : Int}
    (hid : c.get "topic_id" = .int id) {content : String} (h : render page.file c = .ok content) :
    linkends (Xml.tags content.toList)
      = if (c.get "show_errors_page").truthy then [xml c "topic_error_xref"] else [] := by
  obtain ⟨text, htext, rfl⟩ := exists_standIn_of_render hpage hid h
  rw [(writes_standIn c htext).tags_eq]
  split <;> rfl

end Template

namespace Draft

variable {σ : Type} {b : Bindery σ} {d d₁ d' : Draft} {e : TopicEntry} {t : Topic} {s s' : Session σ}

/-- A body that stands in for a topic. -/
def StoodIn (d : Draft) (t : Topic) (content : String) : Prop :=
  ∃ page ∈ Template.standIns, Template.render page.file (d.standInContext t) = .ok content

theorem Topic.slug_problemXrefId (t : Topic) : t.problemXrefId.toList.all Slug.isSlugChar = true :=
  Slug.all_append.2 ⟨by decide, Slug.all_int t.sourceId⟩

/-- **What stands in for a topic links to the topic's section in the chapter of problems, if there is one.** -/
theorem StoodIn.linkends_eq {content : String} (h : d.StoodIn t content) :
    linkends (Xml.tags content.toList) = if d.settings.suppressErrorsPage then [] else [t.problemXrefId] := by
  obtain ⟨page, hpage, hrender⟩ := h
  have hxref : Template.xml (d.standInContext t) "topic_error_xref" = t.problemXrefId :=
    escape_of_slug (Topic.slug_problemXrefId t)
  have hshow : ((d.standInContext t).get "show_errors_page").truthy = !d.settings.suppressErrorsPage := rfl
  rw [Template.linkends_of_render hpage (d.topicId_standInContext t) hrender, hxref, hshow]
  cases d.settings.suppressErrorsPage <;> rfl

theorem stoodIn_of_gives {page : Template.PageName} (hpage : page ∈ Template.standIns) {content : String}
    (h : (Press.render Renderer.pages page (d.standInContext t)).Gives s content s') : d.StoodIn t content :=
  ⟨page, hpage, h.render.1⟩

/-! ## Where it comes from -/

/-- Whatever stands in for a topic of a reference is a body for it. -/
def Covered (d : Draft) : Prop :=
  ∀ e ∈ d.registry.entries, ∀ content, e.outcome = .fallback content → ∃ t, e.topic = some t ∧ d.StoodIn t content

theorem Covered.congr (h : d.Covered) (hentries : d'.registry.entries = d.registry.entries)
    (hsettings : d'.settings = d.settings) : d'.Covered := by
  have hcontext : d'.standInContext = d.standInContext := by
    funext t
    rw [standInContext, standInContext, hsettings]
  intro e he content hcontent
  obtain ⟨t, ht, hstands⟩ := h e (hentries ▸ he) content hcontent
  exact ⟨t, ht, by rwa [StoodIn, hcontext]⟩

theorem Covered.noted (h : d.Covered) (hnoted : d.Noted d₁) : d₁.Covered :=
  h.congr (by rw [hnoted.registry]) (show d₁.bare.settings = d.bare.settings by rw [hnoted.bare])

theorem Covered.attach (h : d.Covered) {document : Option Document} {outcome : Outcome}
    (hnew : ∀ content, outcome = .fallback content → d.StoodIn t content) :
    (d.attach t document outcome).Covered := by
  intro e he content hcontent
  obtain ⟨x, hx, rfl⟩ := List.mem_map.1 he
  split at hcontent
  · rename_i hid
    rw [if_pos hid]
    exact ⟨t, rfl, hnew content hcontent⟩
  · rename_i hid
    rw [if_neg hid]
    exact h x hx content hcontent

theorem Covered.readTopic (hb : b.renderer = Renderer.pages) (h : d.Covered)
    (hrun : (Draft.readTopic b d t).Gives s d' s') : d'.Covered := by
  have hreads := reads_readTopic hrun
  rw [hb] at hreads
  cases hreads with
  | empty content s₁ s₂ manuscript rendered =>
    have hstands := stoodIn_of_gives (by decide) rendered
    exact Covered.attach (d := d.warn t _) h fun _ hc => by
      cases hc
      exact hstands
  | malformed cause content s₁ s₂ manuscript rendered =>
    have hstands := stoodIn_of_gives (by decide) rendered
    exact Covered.attach (d := d.error t _) h fun _ hc => by
      cases hc
      exact hstands
  | document doc ledger => exact Covered.attach (d := { d with ledger }) h fun _ hc => by cases hc

theorem Covered.settle (h : d.Covered) (hsteps : d.registry.steps.Nodup) (he : e ∈ d.registry.entries)
    (htopic : e.topic = some t) {r : Settled} (hnew : ∀ content, r.outcome = .fallback content → d.StoodIn t content) :
    (d.settle e.ref.step r).Covered := by
  intro x hx content hcontent
  obtain ⟨y, hy, rfl⟩ := List.mem_map.1 hx
  dsimp only at hcontent ⊢
  split at hcontent
  · rename_i hstep
    cases eq_of_step hsteps hy he hstep
    rw [if_pos rfl]
    exact ⟨t, htopic, hnew content hcontent⟩
  · rename_i hstep
    rw [if_neg hstep]
    exact h y hy content hcontent

theorem Covered.typeset {r : Renderer σ} (hr : r = Renderer.pages) (h : d.Covered) (hsteps : d.registry.steps.Nodup)
    (he : e ∈ d.registry.entries) (htopic : e.topic = some t) {dtd : String} {i : Injected}
    (hset : d.Typesets r dtd e.ref t i d') : d'.Covered := by
  subst hr
  cases hset with
  | accepted page read validator =>
    exact Covered.settle (d := { d with validator, ledger := _ }) h hsteps he htopic fun _ hc => by cases hc
  | uninjected content s₁ s₂ invalid rendered =>
    exact Covered.settle (d := d.error t _) h hsteps he htopic fun _ hc => by
      cases hc
      exact stoodIn_of_gives (by decide) rendered
  | invalid page failure content validator s₁ s₂ s₃ s₄ valid rendered judged stoodIn =>
    exact Covered.settle (d := ({ d with validator } : Draft).error t _) h hsteps he htopic fun _ hc => by
      cases hc
      exact stoodIn_of_gives (by decide) stoodIn

theorem Covered.processStep (hb : b.renderer = Renderer.pages) (h : d.Covered) (hsteps : d.registry.steps.Nodup)
    {dtd : String} {step : Nat} (hrun : (Draft.processStep b dtd d step).Gives s d' s') : d'.Covered := by
  rcases cases_processStep hrun with ⟨e, he, -, s₁, hrun⟩ | ⟨-, rfl⟩
  · cases worksOut_processEntry hrun with
    | absent topic => exact h
    | bodiless t topic document => exact h.noted ((Noted.refl d).warnAll t _)
    | authored t doc i d' topic document injected set =>
      have hnoted : d.Noted (((d.warnAll t (d.translationWarnings t)).warnAll t i.report.warnings).errorAll t
        i.report.errors) := (((Noted.refl d).warnAll t _).warnAll t _).errorAll t _
      exact Covered.typeset hb (h.noted hnoted) (hnoted.registry ▸ hsteps) (hnoted.registry ▸ he) topic set
  · exact h

theorem Covered.processReferences (hb : b.renderer = Renderer.pages) (h : d.Covered) (hsteps : d.registry.steps.Nodup)
    (hrun : (d.processReferences b).Gives s d' s') : d'.Covered := by
  have hdone : d'.Covered ∧ d'.bare = d.bare := processReferences_induction
    (P := fun _ d₁ => d₁.Covered ∧ d₁.bare = d.bare) ⟨Covered.congr (d := d) h rfl rfl, rfl⟩
    (fun h₁ hrun => ⟨h₁.1.processStep hb (by rwa [steps_of_bare h₁.2]) hrun, (bare_processStep hrun).trans h₁.2⟩) hrun
  exact hdone.1

theorem Covered.collectImages (h : d.Covered) {images : List Image}
    (hrun : (d.collectImages b).Gives s (d', images) s') : d'.Covered := by
  have hcontext : d'.standInContext = d.standInContext := by
    have hsettings : d'.settings = d.settings := show d'.bare.settings = d.bare.settings by rw [bare_collectImages hrun]
    funext t
    rw [standInContext, standInContext, hsettings]
  intro e he content hcontent
  rw [entries_collectImages hrun] at he
  obtain ⟨x, hx, rfl⟩ := List.mem_map.1 he
  rw [outcome_relocateEntry] at hcontent
  obtain ⟨t, ht, hstands⟩ := h x hx content hcontent
  refine ⟨t, ?_, by rwa [StoodIn, hcontext]⟩
  rw [← ht]
  exact show (relocateEntry d.outline x).1.bare.topic = x.bare.topic by rw [bare_relocateEntry]

/-! ## What is said of it -/

/-- A build reports on every topic that something stands in for. -/
theorem Chronicle.exists_remark {rs : List Remark} (h : d.Chronicle rs) (htopics : d.TopicsIn d.topics)
    (he : e ∈ d.registry.entries) (htopic : e.topic = some t) {content : String}
    (hcontent : e.outcome = .fallback content) : ∃ r ∈ rs, r.topic = t := by
  cases h with
  | intro remarks refs images references topics shown =>
    obtain ⟨told, htold, hremarked⟩ := exists_of_forall₂_left references he
    cases hremarked with
    | absent topic => cases topic.symm.trans htopic
    | bodiless t' topic manuscript =>
      -- What has no document was reported when its source was read.
      cases topic.symm.trans htopic
      obtain ⟨r, hr, hrt⟩ : ∃ r ∈ sourceRemarks t, r.topic = t := by
        unfold sourceRemarks
        cases hm : Manuscript.of t with
        | empty => exact ⟨_, List.mem_singleton_self _, rfl⟩
        | malformed cause => exact ⟨_, List.mem_singleton_self _, rfl⟩
        | document doc =>
          rw [hm] at manuscript
          cases manuscript
      have hread := List.mem_flatMap.2 ⟨t, htopics e he t htopic, hr⟩
      exact ⟨r, List.mem_append_left _ (List.mem_append_left _ hread), hrt⟩
    | settled t' doc rs topic manuscript judged =>
      cases topic.symm.trans htopic
      rw [hcontent] at judged
      cases judged with
      | refused _ message refusal =>
        have hrefused : (⟨t, .error, message⟩ : Remark) ∈ d.announcements e t doc ++ t.remarks .error [message] :=
          List.mem_append_right _ (List.mem_singleton_self _)
        have hworked := List.mem_flatten.2 ⟨_, htold, hrefused⟩
        exact ⟨_, List.mem_append_left _ (List.mem_append_right _ hworked), rfl⟩

end Draft

/-! ## Filed problems -/

namespace Remark

theorem xrefId_collated {rs : List Remark} : ∀ p ∈ collated rs,
    p.topic.xrefId = "TopicErrorID" ++ toString p.topic.topicId := by
  intro p hp
  obtain ⟨r, -, rfl⟩ := List.mem_map.1 hp
  rfl

/-- **The problems of a topic are filed once.** -/
theorem countP_collated {rs : List Remark} {r : Remark} (hr : r ∈ rs) :
    (collated rs).countP (·.topic.xrefId == r.topic.problemXrefId) = 1 := by
  have hids : ((collated rs).map (·.topic.topicId)).count r.topicId = 1 := by
    rw [ProblemLog.topicIds_collated]
    refine List.count_eq_one_of_mem (nodup_firsts rs) ?_
    rw [map_topicId_firsts, List.mem_eraseDups]
    exact List.mem_map_of_mem hr
  rw [List.count, List.countP_map] at hids
  rw [← hids]
  refine List.countP_congr fun p hp => ?_
  have hinjective (a b : Int) : "TopicErrorID" ++ toString a = "TopicErrorID" ++ toString b ↔ a = b :=
    (String.append_right_inj _).trans toString_int_injective.eq_iff
  rw [Function.comp, beq_iff_eq, beq_iff_eq, xrefId_collated p hp]
  exact hinjective _ _

end Remark

namespace Draft

variable {σ : Type} {b : Bindery σ} {d : Draft} {s s' : Session σ} {images : List Image} {fs : List File}

/-! ## Where it leads -/

/-- A file in which a body stands in for the topic of a reference. -/
def StandInFile (d : Draft) (e : TopicEntry) (content : String) (f : File) : Prop :=
  ∃ bugLink, f = .ofText (d.topicPath e)
    (Template.TopicView.xml { d.view e with bugLink } (Template.preamble (d.baseContext "section")) content)

theorem exists_standInFile (hb : b.renderer = Renderer.pages) (hd : d.Prepared) (hrun : (d.files b images).Gives s fs s')
    {e : TopicEntry} (he : e ∈ d.published) {content : String} (hcontent : e.outcome = .fallback content) :
    ∃ f ∈ fs, d.StandInFile e content f := by
  obtain ⟨topics, hall, hfilter⟩ := (written_files hrun).filter_isTopicPath hb hd
  obtain ⟨f, hf, text, rfl, htext⟩ := exists_of_forall₂_left hall he
  refine ⟨_, (List.mem_filter.1 (hfilter ▸ hf)).1, ?_⟩
  cases htext with
  | document doc outcome document tags written => cases hcontent.symm.trans outcome
  | standIn content' bugLink es outcome tags anonymous balanced written =>
    cases hcontent.symm.trans outcome
    exact ⟨bugLink, by rw [written]⟩

/-- A chapter that has just one section of an id. -/
def HasSection (file id : String) : Prop :=
  ∃ doc, Document.read file = .ok doc ∧ doc.root.name = "chapter" ∧
    (sections doc.root).countP (fun e => e.attribute? "id" == some id) = 1

theorem ListsProblems.hasSection {file id : String} {ps : List TopicProblems} (h : ListsProblems file ps)
    (hcount : ps.countP (·.topic.xrefId == id) = 1) : HasSection file id := by
  obtain ⟨doc, hread, hname, -, hsections⟩ := h
  refine ⟨doc, hread, hname, ?_⟩
  rw [← hcount]
  generalize sections doc.root = es at hsections
  clear hcount
  induction hsections with
  | nil => rfl
  | @cons p e ps es hshows _ ih =>
    have hsame : (e.attribute? "id" == some id) = (p.topic.xrefId == id) := by
      rw [hshows.id]
      rfl
    rw [List.countP_cons, List.countP_cons, ih, hsame]

theorem mem_hrefs_bookNodes (d : Draft) :
    problemsFile ∈ outlineHrefs d.bookNodes ↔ d.settings.suppressErrorsPage = false := by
  have hchapters : problemsFile ∉ outlineHrefs (Layout.topNodes d.stable d.outline) := by
    rw [Layout.hrefs_topNodes]
    intro hm
    obtain ⟨l, -, hl⟩ := List.mem_map.1 hm
    exact absurd (hl ▸ take_chapterFile d.stable l.heading) (by decide)
  have hspec : problemsFile ≠ specFile := by decide
  unfold bookNodes
  rw [outlineHrefs_append, outlineHrefs_append]
  cases d.settings.suppressErrorsPage <;> cases d.settings.suppressContentSpecPage <;>
    simp [outlineHrefs, OutlineNode.hrefs, hchapters, hspec]

/-- Without the chapter of problems, only a book that is named like it has a file in its place. -/
theorem bytes?_problemsFile (hb : b.renderer = Renderer.pages) (hrun : (d.files b images).Gives s fs s')
    (hsuppressed : d.settings.suppressErrorsPage = true) :
    (Archive.ofFiles fs).bytes? (d.localePath problemsFile) = none ↔ d.name ≠ "Errors" := by
  have hcount := count_errors hrun
  rw [hsuppressed, if_pos rfl, Nat.zero_add] at hcount
  by_cases hname : d.name = "Errors"
  · obtain ⟨page, hpage, -⟩ := text?_bookPage hb hrun
    rw [hname, Archive.text?] at hpage
    refine iff_of_false (fun hnone => ?_) (not_not_intro hname)
    rw [show (Archive.ofFiles fs).bytes? (d.localePath ("Errors" ++ ".xml")) = none from hnone] at hpage
    cases hpage
  · rw [if_neg hname] at hcount
    exact iff_of_true (Archive.bytes?_of_notMem (List.count_eq_zero.1 hcount)) hname

end Draft

namespace Bindery

variable {σ : Type} {b : Bindery σ} {spec : ContentSpec} {settings : Settings} {requester : Option String} {book : Book}
  {d : Draft} {images : List Image} {s s' t : Session σ}

/-- **In a prepared book, whatever stands in for a topic is a body for it.** -/
theorem covered_prepare (hb : b.renderer = Renderer.pages)
    (hprepare : (b.prepare spec settings requester).Gives s (d, images) t) : d.Covered := by
  obtain ⟨d₁, d₂, d₃, s₁, s₂, s₃, hd₁, hd₂, hd₃, hd⟩ := passes_of_prepare hprepare
  obtain ⟨-, hregistry, -⟩ := exists_fetch_of_draft hd₁
  have hunlearned := Registry.unlearned_register spec.root
  have hstart : d₁.Covered := fun e he content hcontent => by
    rw [(hunlearned.entries e (hregistry ▸ he)).2.2] at hcontent
    cases hcontent
  have hread : d₂.Covered := Press.Gives.foldlM (P := fun _ d => d.Covered)
    (fun _ _ _ _ _ _ h hrun => h.readTopic hb hrun) hstart hd₂
  have hsteps := ((Draft.allRead_of_unlearned (hregistry ▸ hunlearned)).readTopics hb hd₂).steps
  exact (hread.processReferences hb hsteps hd₃).collectImages hd

/-- **What stands in for a topic leads to what is said of it.**  In a bound book the chapter of problems is included
unless it is suppressed; if it is, there is no file in its place if and only if the book is not named like it.  Each
published reference that a body stands in for has a file with this body, which has no link if the chapter is suppressed,
and else just one, to the topic's section.  The topic is listed once among the problems of the build.  If all messages
are sealed, the file in the chapter's place is read to a chapter with just one section that the link leads to if and only
if the book is not named like it. -/
theorem standIns_lead (hb : b.renderer = Renderer.pages) (hbind : (b.bind spec settings requester).Gives s book s')
    (hprepare : (b.prepare spec settings requester).Gives s (d, images) t) :
    (Draft.problemsFile ∈ outlineHrefs d.bookNodes ↔ d.settings.suppressErrorsPage = false) ∧
    (d.settings.suppressErrorsPage = true →
      (book.archive.bytes? (d.localePath Draft.problemsFile) = none ↔ d.name ≠ "Errors")) ∧
    ∃ fs t', (d.files b images).Gives t fs t' ∧ book.archive = .ofFiles fs ∧
      ∀ e ∈ d.published, ∀ content, e.outcome = .fallback content → ∃ topic f, e.topic = some topic ∧ f ∈ fs ∧
        d.StandInFile e content f ∧
        linkends (Xml.tags content.toList) = (if d.settings.suppressErrorsPage then [] else [topic.problemXrefId]) ∧
        (d.problems.under d.locale).countP (·.topic.xrefId == topic.problemXrefId) = 1 ∧
        (d.settings.suppressErrorsPage = false → d.SealedProblems →
          ((∃ text, book.archive.text? (d.localePath Draft.problemsFile) = some text ∧
            Draft.HasSection text topic.problemXrefId) ↔ d.name ≠ "Errors")) := by
  obtain ⟨fs, t', hfiles, harchive⟩ := exists_files_of_bind hbind hprepare
  obtain ⟨rs, hrs, hlog⟩ := chronicle_prepare hb hprepare
  obtain ⟨d₀, s₀, -, hfollows, htopics, -⟩ := exists_draft_of_prepare hprepare
  refine ⟨d.mem_hrefs_bookNodes, fun hsuppressed => ?_, fs, t', hfiles, harchive, fun e he content hcontent => ?_⟩
  · rw [harchive]
    exact Draft.bytes?_problemsFile hb hfiles hsuppressed
  · have hentry := (Draft.mem_published he).1
    obtain ⟨topic, htopic, hstands⟩ := covered_prepare hb hprepare e hentry content hcontent
    obtain ⟨f, hf, hfile⟩ := Draft.exists_standInFile hb (prepared_prepare hb hprepare) hfiles he hcontent
    obtain ⟨r, hr, rfl⟩ := hrs.exists_remark (hfollows.topics ▸ htopics) hentry htopic hcontent
    have hcount := Remark.countP_collated hr
    refine ⟨r.topic, f, htopic, hf, hfile, hstands.linkends_eq, Draft.under_locale hlog ▸ hcount, fun hshown hsealed =>
      ⟨?_, fun hname => ?_⟩⟩
    · rintro ⟨text, htext, doc, hread, hchapter, -⟩
      exact name_ne_of_chapter hb hbind hprepare htext hread hchapter
    · obtain ⟨text, htext, hlists⟩ := exists_listsProblems hb hbind hprepare hshown hsealed hrs hlog hname
      exact ⟨text, htext, hlists.hasSection hcount⟩

/-- A draft in which a body stands in for the topic whose section has an id. -/
def ReplacesTopic (id : String) (d : Draft) : Prop :=
  ∃ e ∈ d.published, e.outcome ≠ .valid ∧ e.topic.map (·.problemXrefId) = some id

instance (id : String) (d : Draft) : Decidable (ReplacesTopic id d) :=
  inferInstanceAs (Decidable (∃ e ∈ d.published, e.outcome ≠ .valid ∧ e.topic.map (·.problemXrefId) = some id))

theorem ReplacesTopic.exists_content {id : String} {d : Draft} (h : ReplacesTopic id d) : ∃ e ∈ d.published,
    ∃ content topic, e.outcome = .fallback content ∧ e.topic = some topic ∧ topic.problemXrefId = id := by
  obtain ⟨e, he, hinvalid, htopic⟩ := h
  obtain ⟨topic, htopic, hid⟩ := Option.map_eq_some_iff.1 htopic
  have hpending := (List.mem_filter.1 he).2
  cases houtcome : e.outcome with
  | pending => rw [houtcome] at hpending; exact absurd hpending (by decide)
  | valid => exact absurd houtcome hinvalid
  | fallback content => exact ⟨e, he, content, topic, houtcome, htopic, hid⟩

/-- The body that stands in for an empty topic leads to a section. -/
theorem standIns_lead_of_empty : ∃ book d images s' t,
    (sample.bind (titled "Book") fullSettings none).Gives (sampleSession "" "<section/>") book s' ∧
    (sample.prepare (titled "Book") fullSettings none).Gives (sampleSession "" "<section/>") (d, images) t ∧
    ∃ e ∈ d.published, ∃ content text, e.outcome = .fallback content ∧
      linkends (Xml.tags content.toList) = ["TopicErrorID1"] ∧
      book.archive.text? (d.localePath Draft.problemsFile) = some text ∧ Draft.HasSection text "TopicErrorID1" := by
  have hruns : ∃ book d images s' t,
      (sample.bind (titled "Book") fullSettings none).Gives (sampleSession "" "<section/>") book s' ∧
      (sample.prepare (titled "Book") fullSettings none).Gives (sampleSession "" "<section/>") (d, images) t ∧
      (d.settings.suppressErrorsPage = false ∧ d.SealedProblems ∧ d.name = "Book" ∧ ReplacesTopic "TopicErrorID1" d) ∧
        True :=
    exists_bound (P := fun d => d.settings.suppressErrorsPage = false ∧ d.SealedProblems ∧ d.name = "Book" ∧
      ReplacesTopic "TopicErrorID1" d) (Q := fun _ _ => True) (by decide +kernel)
  obtain ⟨book, d, images, s', t, hbind, hprepare, ⟨hshown, hsealed, hname, hreplaces⟩, -⟩ := hruns
  obtain ⟨e, he, content, topic, hcontent, htopic, hid⟩ := hreplaces.exists_content
  obtain ⟨-, -, fs, t', -, -, hleads⟩ := standIns_lead rfl hbind hprepare
  obtain ⟨topic', f, htopic', -, -, hlinks, -, hsection⟩ := hleads e he content hcontent
  cases htopic.symm.trans htopic'
  rw [hid] at hlinks hsection
  rw [hshown] at hlinks
  obtain ⟨text, htext, hhas⟩ := (hsection hshown hsealed).2 (by rw [hname]; decide)
  exact ⟨book, d, images, s', t, hbind, hprepare, e, he, content, text, hcontent, hlinks, htext, hhas⟩

/-- In a book with the title of the chapter of problems, the body that stands in for an empty topic leads nowhere. -/
theorem standIns_lead_nowhere : ∃ book d images s' t,
    (sample.bind (titled "Errors") fullSettings none).Gives (sampleSession "" "<section/>") book s' ∧
    (sample.prepare (titled "Errors") fullSettings none).Gives (sampleSession "" "<section/>") (d, images) t ∧
    d.settings.suppressErrorsPage = false ∧
    (∃ e ∈ d.published, ∃ content, e.outcome = .fallback content ∧
      linkends (Xml.tags content.toList) = ["TopicErrorID1"]) ∧
    ¬ ∃ text, book.archive.text? (d.localePath Draft.problemsFile) = some text ∧ Draft.HasSection text "TopicErrorID1" := by
  have hruns : ∃ book d images s' t,
      (sample.bind (titled "Errors") fullSettings none).Gives (sampleSession "" "<section/>") book s' ∧
      (sample.prepare (titled "Errors") fullSettings none).Gives (sampleSession "" "<section/>") (d, images) t ∧
      (d.settings.suppressErrorsPage = false ∧ d.name = "Errors" ∧ ReplacesTopic "TopicErrorID1" d) ∧ True :=
    exists_bound (P := fun d => d.settings.suppressErrorsPage = false ∧ d.name = "Errors" ∧
      ReplacesTopic "TopicErrorID1" d) (Q := fun _ _ => True) (by decide +kernel)
  obtain ⟨book, d, images, s', t, hbind, hprepare, ⟨hshown, hname, hreplaces⟩, -⟩ := hruns
  obtain ⟨e, he, content, topic, hcontent, htopic, hid⟩ := hreplaces.exists_content
  obtain ⟨topic', htopic', hstands⟩ := covered_prepare rfl hprepare e (Draft.mem_published he).1 content hcontent
  cases htopic.symm.trans htopic'
  refine ⟨book, d, images, s', t, hbind, hprepare, hshown, ⟨e, he, content, hcontent, ?_⟩, ?_⟩
  · rw [hstands.linkends_eq, hshown, hid]
    rfl
  · rintro ⟨text, htext, doc, hread, hchapter, -⟩
    exact name_ne_of_chapter rfl hbind hprepare htext hread hchapter hname

end Bindery
end Bookbinder
