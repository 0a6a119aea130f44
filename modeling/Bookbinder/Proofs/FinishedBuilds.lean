import Bookbinder.Proofs.FinishedRuns
import Bookbinder.Proofs.PreparedBooks
import Bookbinder.Proofs.SectionIds
/-!
# Builds that always end in a book

On a store in memory every pass over a draft ends in a result, whatever the topics hold: each page has what it asks
for, and what is wrong with a topic goes into the log of problems (`finishes_finish`).
-/
namespace Bookbinder

open Press (Finishes)
open Xml (Document)

namespace Template

theorem exists_mapM {α β ε : Type} {f : α → Except ε β} : ∀ {xs : List α}, (∀ x ∈ xs, ∃ y, f x = .ok y) →
    ∃ ys, xs.mapM f = .ok ys
  | [], _ => ⟨[], rfl⟩
  | x :: xs, h => by
    obtain ⟨y, hy⟩ := h x List.mem_cons_self
    obtain ⟨ys, hys⟩ := exists_mapM fun z hz => h z (List.mem_cons_of_mem x hz)
    refine ⟨y :: ys, ?_⟩
    rw [List.mapM_cons, hy, hys]
    rfl

theorem exists_chapterPage {c : Context} {ns : List OutlineNode} (h : c.get "children" = .list (outlineValues ns))
    (hns : outlineNamed ns) : ∃ text, chapterPage c = .ok text := by
  obtain ⟨content, hcontent, -⟩ := exists_writes_outline ns hns
  have houtline : outline (.list (outlineValues ns)) = .ok content := hcontent
  rw [chapterPage, h, houtline]
  exact ⟨_, rfl⟩

theorem exists_bookPage {c : Context} {ns : List OutlineNode} (h : c.get "levels" = .list (outlineValues ns))
    (hns : outlineNamed ns) : ∃ text, bookPage c = .ok text := by
  obtain ⟨content, hcontent, -⟩ := exists_writes_outline ns hns
  have houtline : outline (.list (outlineValues ns)) = .ok content := hcontent
  rw [bookPage, h, houtline]
  exact ⟨_, rfl⟩

theorem exists_authorGroupPage {c : Context} {authors : List Author}
    (h : c.get "authors" = .list (authors.map Author.value)) : ∃ text, authorGroupPage c = .ok text := by
  obtain ⟨shown, hshown⟩ : ∃ shown, (authors.map Author.value).mapM author = .ok shown := exists_mapM fun v hv => by
    obtain ⟨a, -, rfl⟩ := List.mem_map.1 hv
    exact ⟨_, rfl⟩
  rw [authorGroupPage, h]
  simp only [Value.items, bind, Except.bind, hshown]
  exact ⟨_, rfl⟩

end Template

namespace Draft

variable {b : Bindery MemoryStore} {d : Draft}

/-! ## Reading topics -/

theorem finishes_readTopic (hpages : b.renderer = Renderer.pages) (d : Draft) (t : Topic) :
    (readTopic b d t).Finishes := by
  unfold readTopic
  rw [hpages]
  refine Finishes.check.bind fun _ _ _ _ => ?_
  split
  · exact (Finishes.render rfl).map _
  · exact (Finishes.render rfl).map _
  · exact .pure _

/-- **All topics are read.** -/
theorem finishes_readTopics (hpages : b.renderer = Renderer.pages) (d : Draft) : (d.readTopics b).Finishes :=
  Finishes.foldlM (P := fun _ _ => True) (fun t _ d _ => finishes_readTopic hpages d t) (fun _ _ _ _ _ _ _ _ => trivial)
    trivial

/-! ## Working out references -/

section Entry

variable {d₁ : Draft} {e : TopicEntry} {t : Topic} {doc : Document}

theorem finishes_refuse (hpages : b.renderer = Renderer.pages) {page : Template.PageName} {text : String}
    (h : page.page (d.standInContext t) = .ok text) (ref : TopicRef) (c : Template.Context) :
    (refuse b d page ref t c).Finishes := by
  unfold refuse
  rw [hpages]
  exact (Finishes.render h).map _

theorem finishes_typeset (hpages : b.renderer = Renderer.pages) (hnoted : d.Noted d₁) (dtd : String) :
    (typeset b dtd d₁ e.ref t (d.injection e t doc)).Finishes := by
  have hpage : d₁.pageContext = d.pageContext := pageContext_congr hnoted.bare
  have htext : Template.PageName.topic.page (d.injectionPage e t doc) = .ok _ := topicPage_injectionPage
  unfold typeset
  split
  · rw [hpages, hpage]
    refine (Finishes.render htext).bind fun page _ _ _ => ?_
    cases judge d₁.validator dtd page with
    | mk judged validator =>
      cases judged with
      | ok read => exact Finishes.check.bind fun _ _ _ _ => .pure _
      | error failure => exact finishes_refuse hpages rfl e.ref _
  · exact finishes_refuse hpages rfl e.ref _

theorem finishes_processEntry (hpages : b.renderer = Renderer.pages) (hread : e.Read d.stable) (dtd : String) :
    (processEntry b dtd d e).Finishes := by
  cases hread with
  | absent topic _ =>
    rw [processEntry, topic]
    exact .pure d
  | bodiless t content topic _ document _ _ _ =>
    rw [processEntry, topic]
    simp only [document]
    exact .pure _
  | authored t doc topic _ document _ context =>
    rw [processEntry_eq topic document context]
    exact finishes_typeset hpages (d.noted_announced e t doc) dtd

end Entry

theorem finishes_processStep (hpages : b.renderer = Renderer.pages) {d₀ : Draft} {step : Nat} {rest : List Nat}
    (h : Progress d₀ (step :: rest) d) (dtd : String) : (processStep b dtd d step).Finishes := by
  have hstable : d₀.stable = d.stable := show d₀.bare.stable = d.bare.stable by rw [h.bare]
  unfold processStep
  refine Finishes.check.bind fun _ _ _ _ => ?_
  split
  · rename_i e hentry
    have he : e ∈ d.registry.entries := List.mem_of_find?_eq_some hentry
    have hstep : e.ref.step = step := by simpa using List.find?_some hentry
    exact finishes_processEntry hpages (hstable ▸ h.read e he (hstep ▸ List.mem_cons_self)) dtd
  · exact .pure d

/-- **All references are worked out.** -/
theorem finishes_processReferences (hstore : b.store = MemoryStore.store) (hpages : b.renderer = Renderer.pages)
    (h : d.AllRead) : (d.processReferences b).Finishes := by
  unfold processReferences
  rw [hstore]
  refine (Finishes.blob (by decide)).bind fun dtd _ _ _ => ?_
  exact Finishes.foldlM (P := fun remaining d' => remaining.Nodup ∧ Progress d remaining d')
    (fun step rest d₁ hp => finishes_processStep hpages hp.2 _)
    (fun step rest d₁ d₂ _ _ hp hrun =>
      have hnd := List.nodup_cons.1 hp.1
      ⟨hnd.2, hp.2.processStep hpages h.steps hnd.1 hrun⟩) ⟨h.steps, Progress.start h⟩

/-! ## Collecting images -/

theorem finishes_loadImage (hstore : b.store = MemoryStore.store) (placeholder : ByteArray) (d : Draft)
    (images : List Image) (r : ImageRef) : (loadImage b placeholder d images r).Finishes := by
  have hfind : (findImage b d r).Finishes := by
    unfold findImage
    rw [hstore]
    split
    · exact .pure _
    · refine (Finishes.image _).bind fun bytes _ _ _ => ?_
      split <;> exact .pure _
  unfold loadImage
  refine Finishes.check.bind fun _ _ _ _ => hfind.bind fun found _ _ _ => ?_
  split
  split <;> exact .pure _

/-- **All images are collected.** -/
theorem finishes_collectImages (hstore : b.store = MemoryStore.store) (d : Draft) : (d.collectImages b).Finishes := by
  unfold collectImages
  dsimp only
  split
  · exact .pure _
  · rw [hstore]
    refine (Finishes.blob (by decide)).bind fun placeholder _ _ _ => ?_
    exact Finishes.foldlM (P := fun _ _ => True) (fun r _ p _ => finishes_loadImage hstore placeholder p.1 p.2 r)
      (fun _ _ _ _ _ _ _ _ => trivial) trivial

/-! ## Front matter -/

theorem finishes_renderFile (hpages : b.renderer = Renderer.pages) {file : String} {page : Template.PageName}
    {c : Template.Context} (h : ∃ text, page.page c = .ok text) : (renderFile b d file page c).Finishes := by
  obtain ⟨text, htext⟩ := h
  unfold renderFile
  rw [hpages]
  exact (Finishes.render htext).map _

theorem finishes_knownAuthors (hstore : b.store = MemoryStore.store) : ∀ ids : List Int, (knownAuthors b ids).Finishes
  | [] => .pure []
  | id :: ids => by
    unfold knownAuthors
    rw [hstore]
    exact (Finishes.author id).bind fun author _ _ _ => (finishes_knownAuthors hstore ids).map _

theorem finishes_firstAuthor (hstore : b.store = MemoryStore.store) : ∀ tags : List Tag, (firstAuthor b tags).Finishes
  | [] => .pure none
  | tag :: tags => by
    unfold firstAuthor
    rw [hstore]
    refine (Finishes.author tag.id).bind fun author _ _ _ => ?_
    split
    · exact .pure _
    · exact finishes_firstAuthor hstore tags

theorem finishes_reviser (hstore : b.store = MemoryStore.store) (d : Draft) : (reviser b d).Finishes := by
  unfold reviser
  split
  · exact .pure _
  · rw [hstore]
    refine (Finishes.tagsNamed _).bind fun tags _ _ _ => (finishes_firstAuthor hstore tags).bind fun author _ _ _ => ?_
    split <;> exact .pure _

theorem finishes_textAsset (hstore : b.store = MemoryStore.store) {id : Int} (h : id ∈ MemoryStore.buildTexts)
    (file : String) : (textAsset b d id file).Finishes := by
  unfold textAsset
  rw [hstore]
  exact (Finishes.text h).map _

theorem finishes_blobAsset (hstore : b.store = MemoryStore.store) {id : Int} (h : id ∈ MemoryStore.buildBlobs)
    (file : String) : (blobAsset b d id file).Finishes := by
  unfold blobAsset
  rw [hstore]
  exact (Finishes.blob h).map _

theorem finishes_assets (hstore : b.store = MemoryStore.store) (d : Draft) : (assets b d).Finishes := by
  unfold assets
  refine (finishes_textAsset hstore (by decide) _).bind fun icon _ _ _ => ?_
  split
  · refine (Finishes.mapM fun asset hasset => ?_).bind fun texts _ _ _ => (Finishes.mapM fun asset hasset => ?_).map _
    · exact finishes_textAsset hstore
        (List.mem_cons_of_mem _ (List.mem_cons_of_mem _ (List.mem_map.2 ⟨asset, hasset, rfl⟩))) _
    · exact finishes_blobAsset hstore
        (List.mem_cons_of_mem _ (List.mem_cons_of_mem _ (List.mem_map.2 ⟨asset, hasset, rfl⟩))) _
  · exact .pure _

theorem finishes_frontMatter (hstore : b.store = MemoryStore.store) (hpages : b.renderer = Renderer.pages)
    (d : Draft) : (frontMatter b d).Finishes := by
  have hconfig : (publicanConfig b d).Finishes := by
    unfold publicanConfig
    rw [hstore]
    exact (Finishes.text (by decide)).map _
  have hauthors : (authorGroup b d).Finishes :=
    (finishes_knownAuthors hstore d.writerTags).bind fun authors _ _ _ =>
      finishes_renderFile hpages (Template.exists_authorGroupPage rfl)
  have hhistory : (revisionHistory b d).Finishes :=
    (finishes_reviser hstore d).bind fun author _ _ _ => finishes_renderFile hpages ⟨_, rfl⟩
  unfold frontMatter
  exact hconfig.bind fun _ _ _ _ => (finishes_renderFile hpages ⟨_, rfl⟩).bind fun _ _ _ _ =>
    hauthors.bind fun _ _ _ _ => (finishes_renderFile hpages ⟨_, rfl⟩).bind fun _ _ _ _ =>
    hhistory.bind fun _ _ _ _ => (finishes_renderFile hpages ⟨_, rfl⟩).bind fun _ _ _ _ =>
    (finishes_assets hstore d).map _

/-! ## Body and back matter -/

theorem finishes_problemChapters (hpages : b.renderer = Renderer.pages) (d : Draft) :
    (problemChapters b d).Finishes := by
  have hchapter : (problemChapter b d).Finishes := by
    unfold problemChapter
    rw [hpages]
    exact (Finishes.render rfl).map _
  unfold problemChapters
  split
  · exact .pure _
  · exact hchapter.map _

theorem finishes_specAppendices (hpages : b.renderer = Renderer.pages) (d : Draft) : (specAppendices b d).Finishes := by
  have happendix : (specAppendix b d).Finishes := by
    unfold specAppendix
    rw [hpages]
    exact (Finishes.render rfl).map _
  unfold specAppendices
  split
  · exact .pure _
  · exact happendix.map _

theorem finishes_topicFile (hpages : b.renderer = Renderer.pages) (h : d.Prepared) {e : TopicEntry}
    (he : e ∈ d.registry.entries) (preamble : String) : (topicFile? b d preamble e).Finishes := by
  unfold topicFile?
  rw [hpages]
  dsimp only
  split
  · exact .pure _
  · rename_i content houtcome
    obtain ⟨-, bugLink, hshows⟩ := shows_of_fallback h he houtcome
    have htext : Template.PageName.topic.page (d.standInPageContext content (e.context.getD [])) = .ok _ :=
      Template.topicPage_eq (shows_standInPageContext hshows content)
    exact (Finishes.render htext).map _
  · exact .pure _

theorem finishes_topicFiles (hpages : b.renderer = Renderer.pages) (h : d.Prepared) : (topicFiles b d).Finishes := by
  unfold topicFiles
  rw [hpages]
  exact (Finishes.render rfl).bind fun preamble _ _ _ =>
    (Finishes.mapM fun e he => finishes_topicFile hpages h (List.mem_of_mem_filter he) preamble).map _

/-- **All files of a prepared draft are written.** -/
theorem finishes_files (hstore : b.store = MemoryStore.store) (hpages : b.renderer = Renderer.pages) (h : d.Prepared)
    (images : List Image) : (d.files b images).Finishes := by
  have hchapter (l : Level) : (chapter b d l).Finishes :=
    finishes_renderFile hpages (Template.exists_chapterPage rfl (Layout.named_nodes d.registry d.stable l.children))
  have hbook : (bookFile b d).Finishes :=
    finishes_renderFile hpages (Template.exists_bookPage rfl d.named_bookNodes)
  unfold files
  exact Finishes.check.bind fun _ _ _ _ => (finishes_frontMatter hstore hpages d).bind fun _ _ _ _ =>
    (finishes_problemChapters hpages d).bind fun _ _ _ _ => Finishes.check.bind fun _ _ _ _ =>
    (Finishes.mapM fun l _ => hchapter l).bind fun _ _ _ _ => (finishes_topicFiles hpages h).bind fun _ _ _ _ =>
    (finishes_specAppendices hpages d).bind fun _ _ _ _ => hbook.map _

end Draft

namespace Bindery

variable {b : Bindery MemoryStore} {spec : ContentSpec} {settings : Settings} {requester : Option String}

/-- What is left to do once there is a draft. -/
def finish {σ : Type} (b : Bindery σ) (d : Draft) : Press σ Book := do
  let d ← d.readTopics b
  let d ← d.processReferences b
  let (d, images) ← d.collectImages b
  b.print (d, images)

/-- **Every draft ends in a book.** -/
theorem finishes_finish (hstore : b.store = MemoryStore.store) (hpages : b.renderer = Renderer.pages) {d : Draft}
    (h : d.AllRead) : (b.finish d).Finishes := by
  unfold finish
  -- Each pass keeps what the next one relies on, so its result is carried along with its run.
  refine (Draft.finishes_readTopics hpages d).bind fun d₁ _ _ hread => ?_
  have hread := h.readTopics hpages hread
  refine (Draft.finishes_processReferences hstore hpages hread).bind fun d₂ _ _ hwork => ?_
  have hworked := Draft.worked_processReferences hpages hread hwork
  refine (Draft.finishes_collectImages hstore d₂).bind fun p _ _ hcollect => ?_
  obtain ⟨d₃, images⟩ := p
  exact (Draft.finishes_files hstore hpages (hworked.collectImages hcollect) images).bind fun files _ _ _ =>
    Finishes.check.bind fun _ _ _ _ => .pure _

end Bindery
end Bookbinder
