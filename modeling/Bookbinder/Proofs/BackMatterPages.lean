import Bookbinder.Proofs.DistinctPaths
import Bookbinder.Proofs.ProblemChapters
import Bookbinder.Proofs.ReadableTopics
import Mathlib.Data.List.Count
/-!
# The pages at the end of a book

The appendix and the chapter of problems are what is found at their paths in the archive of a bound book, unless the
book's own file takes their place.  What is read of them are the text of the specification and the problems of the build
if no text that they list in sections of character data becomes another by being cleaned (`Bindery.backMatter_reads`).
-/
namespace Bookbinder

open Xml (Document Introduces Legal Sealed Worded startTag)

/-! ## Archives by their files -/

namespace File

theorem fromUTF8?_bytes (path text : String) : String.fromUTF8? (File.ofText path text).bytes = some text := by
  rw [File.ofText, String.fromUTF8?]
  exact dif_pos text.isValidUTF8

end File

namespace Archive

variable {fs : List File} {f : File} {path : String}

theorem bytes?_concat (fs : List File) (f : File) (path : String) :
    (ofFiles (fs ++ [f])).bytes? path = if f.path = path then some f.bytes else (ofFiles fs).bytes? path := by
  rw [ofFiles, List.foldl_append]
  exact bytes?_insert _ f path

theorem bytes?_of_notMem (h : path ∉ fs.map (·.path)) : (ofFiles fs).bytes? path = none := by
  induction fs using List.reverseRecOn with
  | nil => rfl
  | append_singleton fs f ih =>
    rw [List.map_append, List.mem_append, not_or] at h
    rw [bytes?_concat, if_neg fun he => h.2 (List.mem_singleton.2 he.symm)]
    exact ih h.1

/-- **A file is found under its path if no later one takes its place.** -/
theorem bytes?_of_last (before : List File) {after : List File} (h : f.path ∉ after.map (·.path)) :
    (ofFiles (before ++ f :: after)).bytes? f.path = some f.bytes := by
  induction after using List.reverseRecOn with
  | nil => rw [bytes?_concat, if_pos rfl]
  | append_singleton after g ih =>
    rw [List.map_append, List.mem_append, not_or] at h
    rw [← List.cons_append, ← List.append_assoc, bytes?_concat, if_neg fun he => h.2 (List.mem_singleton.2 he.symm)]
    exact ih h.1

theorem bytes?_of_count (hf : f ∈ fs) (h : (fs.map (·.path)).count f.path = 1) :
    (ofFiles fs).bytes? f.path = some f.bytes := by
  obtain ⟨before, after, rfl⟩ := List.append_of_mem hf
  refine bytes?_of_last before fun hm => ?_
  have hpos := List.count_pos_iff.2 hm
  rw [List.map_append, List.map_cons, List.count_append, List.count_cons_self] at h
  omega

end Archive

namespace Draft

variable {σ : Type} {b : Bindery σ} {d : Draft} {s s' : Session σ} {images : List Image} {fs : List File}

/-! ## Pages by their names -/

theorem notMem_chapterIds {page : String} (h : (page ++ ".xml").toList.take 2 ∉ chapterStarts) : page ∉ d.chapterIds := by
  intro hm
  obtain ⟨l, -, rfl⟩ := List.mem_map.1 hm
  exact h (take_chapterFile d.stable l.heading)

/-- How often a file is written in the locale's folder, if in none below it. -/
theorem count_localePath (hrun : (d.files b images).Gives s fs s') {file : String} (h : '/' ∉ file.toList) :
    (fs.map (·.path)).count (d.localePath file)
      = ((d.pages ++ [d.name]).map (· ++ ".xml")).count file + [d.name ++ ".ent"].count file := by
  obtain ⟨topics, hsub, hpaths⟩ := paths_files hrun
  -- All other files are in folders.
  have hnone {xs : List String} (hxs : ∀ x ∈ xs, (fileKind x).1 = true) : xs.count file = 0 :=
    List.count_eq_zero.2 fun hm => by
      have hkind := hxs file hm
      rw [fileKind, if_neg h] at hkind
      cases hkind
  have htopics : topics.count file = 0 := hnone fun x hx => by
    obtain ⟨e, -, rfl⟩ := List.mem_map.1 (hsub.subset hx)
    rw [hrefOf, fileKind_topicFile]
  have hpictures : ((d.pictures ++ images.map (·.name)).map ImageRef.path).count file = 0 :=
    hnone (List.forall_mem_map.2 fun name _ => by rw [fileKind_image])
  have hscripts : d.scripts.count file = 0 := hnone fun x hx => by rw [fileKind_script hx]
  rw [hpaths, List.count_cons_of_ne (publicanCfg_ne_localePath d _),
    List.count_map_of_injective _ _ fun _ _ => localePath_inj, (d.perm_localFiles topics images).count_eq,
    List.count_append, List.count_append, List.count_append, List.count_append, htopics, hpictures, hscripts]
  rfl

/-- How often a page is written: by its name among the pages, and where the book's own file takes its place. -/
theorem count_page (hrun : (d.files b images).Gives s fs s') {page : String} (hpage : '/' ∉ page.toList) :
    (fs.map (·.path)).count (d.localePath (page ++ ".xml")) = (d.pages ++ [d.name]).count page := by
  have hslash : '/' ∉ (page ++ ".xml").toList := slash_notMem_append.2 ⟨hpage, by decide⟩
  have hentities : [d.name ++ ".ent"].count (page ++ ".xml") = 0 := List.count_eq_zero.2 fun hm => by
    have hkind := d.fileKind_entities
    rw [← List.mem_singleton.1 hm, fileKind_page hpage] at hkind
    cases hkind
  rw [count_localePath hrun hslash, hentities, List.count_map_of_injective _ _ xml_injective]
  rfl

theorem count_fixedPage (hrun : (d.files b images).Gives s fs s') {page : String} (hpage : '/' ∉ page.toList)
    (hstart : (page ++ ".xml").toList.take 2 ∉ chapterStarts) :
    (fs.map (·.path)).count (d.localePath (page ++ ".xml"))
      = d.fixedPages.count page + if d.name = page then 1 else 0 := by
  have hchapters : d.chapterIds.count page = 0 := List.count_eq_zero.2 (notMem_chapterIds hstart)
  rw [count_page hrun hpage, pages, List.count_append, List.count_append, hchapters, List.count_singleton]
  simp only [Nat.add_zero, beq_iff_eq]

theorem count_errors (hrun : (d.files b images).Gives s fs s') : (fs.map (·.path)).count (d.localePath problemsFile)
    = (if d.settings.suppressErrorsPage then 0 else 1) + if d.name = "Errors" then 1 else 0 := by
  have hcount := count_fixedPage hrun (show '/' ∉ "Errors".toList by decide) (by decide)
  rw [show problemsFile = "Errors" ++ ".xml" by decide, hcount, fixedPages]
  cases d.settings.suppressErrorsPage <;> cases d.settings.suppressContentSpecPage <;> rfl

theorem count_spec (hrun : (d.files b images).Gives s fs s') : (fs.map (·.path)).count (d.localePath specFile)
    = (if d.settings.suppressContentSpecPage then 0 else 1)
      + if d.name = "Build_Content_Specification" then 1 else 0 := by
  have hcount := count_fixedPage hrun (show '/' ∉ "Build_Content_Specification".toList by decide) (by decide)
  rw [show specFile = "Build_Content_Specification" ++ ".xml" by decide, hcount, fixedPages]
  cases d.settings.suppressErrorsPage <;> cases d.settings.suppressContentSpecPage <;> rfl

/-! ## What is written -/

/-- The text of the chapter of problems. -/
def problemsPage (d : Draft) : String :=
  Xml.cleanText (problemChapterText (Template.preamble (d.baseContext "chapter")) (d.problems.under d.locale))

/-- The text of the appendix of the specification. -/
def specText (d : Draft) : String :=
  Xml.cleanText (specAppendixText (Template.preamble (d.baseContext "appendix")) d.name d.spec.text)

theorem preamble_of_gives {c : Template.Context} {text : String} (hb : b.renderer = Renderer.pages)
    (hrun : (Press.render b.renderer .preamble c).Gives s text s') : text = Template.preamble c := by
  rw [hb] at hrun
  have hpage := hrun.render.1
  rw [Template.render_file] at hpage
  exact (Except.ok.inj hpage).symm

theorem problemChapters_eq (hb : b.renderer = Renderer.pages) (hshown : d.settings.suppressErrorsPage = false)
    (hrun : (problemChapters b d).Gives s fs s') : fs = [.ofText (d.localePath problemsFile) d.problemsPage] := by
  rw [problemChapters, hshown] at hrun
  obtain ⟨f, hf, rfl⟩ := hrun.map
  obtain ⟨preamble, hpreamble, rfl⟩ := hf.map
  rw [preamble_of_gives hb hpreamble]
  rfl

theorem specAppendices_eq (hb : b.renderer = Renderer.pages) (hshown : d.settings.suppressContentSpecPage = false)
    (hrun : (specAppendices b d).Gives s fs s') : fs = [.ofText (d.localePath specFile) d.specText] := by
  rw [specAppendices, hshown] at hrun
  obtain ⟨f, hf, rfl⟩ := hrun.map
  obtain ⟨preamble, hpreamble, rfl⟩ := hf.map
  rw [preamble_of_gives hb hpreamble]
  rfl

theorem text?_ofText {path text : String} (hf : .ofText path text ∈ fs) (h : (fs.map (·.path)).count path = 1) :
    (Archive.ofFiles fs).text? path = some text := by
  have hbytes := Archive.bytes?_of_count hf h
  rw [Archive.text?, show (Archive.ofFiles fs).bytes? path = _ from hbytes]
  exact File.fromUTF8?_bytes path text

/-- The chapter of problems is kept where the book is not named like it. -/
theorem text?_problemsPage (hb : b.renderer = Renderer.pages) (hrun : (d.files b images).Gives s fs s')
    (hshown : d.settings.suppressErrorsPage = false) (hname : d.name ≠ "Errors") :
    (Archive.ofFiles fs).text? (d.localePath problemsFile) = some d.problemsPage := by
  have hcount := count_errors hrun
  obtain ⟨front, problems, chapters, topics, appendices, book, -, ⟨_, _, hproblems⟩, -, -, -, -, rfl⟩ := exists_parts hrun
  rw [hshown, if_neg hname] at hcount
  refine text?_ofText ?_ hcount
  rw [problemChapters_eq hb hshown hproblems]
  simp

theorem text?_specText (hb : b.renderer = Renderer.pages) (hrun : (d.files b images).Gives s fs s')
    (hshown : d.settings.suppressContentSpecPage = false) (hname : d.name ≠ "Build_Content_Specification") :
    (Archive.ofFiles fs).text? (d.localePath specFile) = some d.specText := by
  have hcount := count_spec hrun
  obtain ⟨front, problems, chapters, topics, appendices, book, -, -, -, -, ⟨_, _, happendices⟩, -, rfl⟩ :=
    exists_parts hrun
  rw [hshown, if_neg hname] at hcount
  refine text?_ofText ?_ hcount
  rw [specAppendices_eq hb hshown happendices]
  simp

/-! ## The book's own file -/

/-- Whatever is read of a book's own file is a book. -/
def IsBookPage (text : String) : Prop :=
  ∀ doc, Document.read text = .ok doc → doc.root.name = "book"

theorem isBookPage_of_bookPage {c : Template.Context} {text : String} (hlead : Introduces (Template.preamble c ++ "\n"))
    (h : Template.bookPage c = .ok text) : IsBookPage text := by
  obtain ⟨rest, rfl⟩ : ∃ rest, text = Template.preamble c ++ "\n" ++ (startTag "book" [] ++ rest) := by
    have hopen : "\n<book>\n\t" = "\n" ++ (startTag "book" [] ++ "\n\t") := by decide
    rw [Template.bookPage] at h
    cases ho : Template.outline (c.get "levels") with
    | error e =>
      rw [ho] at h
      cases h
    | ok content =>
      rw [ho] at h
      cases h
      rw [hopen]
      simp only [String.append_assoc]
      exact ⟨_, rfl⟩
  intro doc hdoc
  have hplain : (⟨"book", [], []⟩ : Xml.Element).isPlain = true := by decide
  obtain ⟨r, ho, hroot, hread⟩ := hlead (startTag "book" [] ++ rest) (by rw [startTag, String.toList_append]; rfl)
  rw [hread, String.toList_append, Xml.run_startTag hplain List.nodup_nil] at hdoc
  have hwithin := Xml.Reading.within_of_run hdoc
  rw [Xml.Reading.Within, ho] at hwithin
  obtain ⟨-, after, hnode⟩ := hwithin
  exact (Xml.Node.element.inj hnode).1

theorem text?_bookPage (hb : b.renderer = Renderer.pages) (hrun : (d.files b images).Gives s fs s') :
    ∃ text, (Archive.ofFiles fs).text? (d.localePath (d.name ++ ".xml")) = some text ∧ IsBookPage text := by
  obtain ⟨front, problems, chapters, topics, appendices, book, -, -, -, -, -, ⟨_, _, hbook⟩, rfl⟩ := exists_parts hrun
  rw [bookFile, renderFile, hb] at hbook
  obtain ⟨text, htext, rfl⟩ := hbook.map
  have hpage := htext.render.1
  rw [Template.render_file] at hpage
  refine ⟨text, ?_, isBookPage_of_bookPage (Template.introduces_preamble rfl rfl (by decide) (by decide)
    d.quote_notMem_name).2 hpage⟩
  rw [Archive.text?, Archive.bytes?_concat]
  have hpath : (File.ofText (d.localePath (d.name ++ ".xml")) text).path = d.localePath (d.name ++ ".xml") := rfl
  rw [hpath, if_pos rfl]
  exact File.fromUTF8?_bytes _ text

/-! ## What is read of the pages -/

theorem introduces_preamble (d : Draft) {element : String} (helement : ∀ a ∈ element.toList, a.isAlpha = true)
    (hne : element.toList ≠ []) : Introduces (Template.preamble (d.baseContext element) ++ "\n") :=
  (Template.introduces_preamble rfl rfl helement hne d.quote_notMem_name).2

theorem slug_name (d : Draft) : d.name.toList.all Slug.isSlugChar = true :=
  List.all_eq_true.2 fun _ => Slug.isSlugChar_of_mem_escape

/-- The appendix lists the specification's text just where that is sealed. -/
theorem listsText_specText_iff (d : Draft) : ListsText d.specText d.spec.text ↔ Sealed d.spec.text := by
  have hlegal : Legal (Template.preamble (d.baseContext "appendix")) :=
    Template.legal_preamble rfl rfl (by decide) (Xml.legal_of_slug d.slug_name)
  rw [specText, cleanText_specAppendixText hlegal (Template.trimEnd_preamble _) d.slug_name]
  exact listsText_iff (d.introduces_preamble (by decide) (by decide)) d.name d.spec.text

/-- Whether all listings within the messages of a build are sealed. -/
def SealedProblems (d : Draft) : Prop :=
  ∀ p ∈ d.problems.topics, ∀ i ∈ p.items, Sealed i.message

instance (d : Draft) : Decidable d.SealedProblems :=
  inferInstanceAs (Decidable (∀ p ∈ d.problems.topics, ∀ i ∈ p.items, Sealed i.message))

theorem under_locale {rs : List Remark} (hlog : d.problems = ({ locale := d.locale } : ProblemLog).addAll rs) :
    d.problems.under d.locale = Remark.collated rs := by
  have htopics : d.problems.topics = Remark.collated rs := by rw [hlog, ProblemLog.topics_addAll]
  rw [ProblemLog.under, if_pos, htopics]
  rw [hlog, ProblemLog.locale_addAll]

theorem listsProblems_problemsPage {rs : List Remark} (h : d.Chronicle rs)
    (hlog : d.problems = ({ locale := d.locale } : ProblemLog).addAll rs) (hsealed : d.SealedProblems) :
    ListsProblems d.problemsPage (Remark.collated rs) := by
  have htopics : d.problems.topics = Remark.collated rs := by rw [hlog, ProblemLog.topics_addAll]
  have hlegal : Legal (Template.preamble (d.baseContext "chapter")) :=
    Template.legal_preamble rfl rfl (by decide) (Xml.legal_of_slug d.slug_name)
  rw [problemsPage, under_locale hlog]
  refine listsProblems_of_sealed (d.introduces_preamble (by decide) (by decide)) hlegal (Template.trimEnd_preamble _)
    (fun p hp => ?_) fun p hp i hi => ⟨?_, hsealed p (htopics ▸ hp) i hi⟩
  · obtain ⟨r, -, rfl⟩ := List.mem_map.1 hp
    exact Slug.all_append.2 ⟨by decide, Slug.all_int _⟩
  · obtain ⟨r, -, rfl⟩ := List.mem_map.1 hp
    obtain ⟨r', hr', rfl⟩ := List.mem_map.1 (List.mem_eraseDups.1 hi)
    exact h.worded r' (List.mem_filter.1 hr').1

end Draft

namespace Bindery

variable {σ : Type} {b : Bindery σ} {spec : ContentSpec} {settings : Settings} {requester : Option String} {book : Book}
  {d : Draft} {images : List Image} {s s' t : Session σ}

/-- The book's own file takes the place of the page that it is named like. -/
theorem isBookPage_of_bind (hb : b.renderer = Renderer.pages) (hbind : (b.bind spec settings requester).Gives s book s')
    (hprepare : (b.prepare spec settings requester).Gives s (d, images) t) {text : String}
    (htext : book.archive.text? (d.localePath (d.name ++ ".xml")) = some text) : Draft.IsBookPage text := by
  obtain ⟨fs, t', hfiles, harchive⟩ := exists_files_of_bind hbind hprepare
  obtain ⟨page, hpage, hbook⟩ := Draft.text?_bookPage hb hfiles
  rw [harchive, hpage] at htext
  cases htext
  exact hbook

theorem listsText_iff_of_bind (hb : b.renderer = Renderer.pages) (hbind : (b.bind spec settings requester).Gives s book s')
    (hprepare : (b.prepare spec settings requester).Gives s (d, images) t)
    (hshown : d.settings.suppressContentSpecPage = false) :
    (∃ text, book.archive.text? (d.localePath Draft.specFile) = some text ∧ Draft.ListsText text d.spec.text) ↔
      d.name ≠ "Build_Content_Specification" ∧ Sealed d.spec.text := by
  by_cases hname : d.name = "Build_Content_Specification"
  · refine iff_of_false ?_ fun h => h.1 hname
    rintro ⟨text, htext, doc, _, _, hread, happendix, -⟩
    have hbook := isBookPage_of_bind hb hbind hprepare (by rw [hname]; exact htext) doc hread
    exact absurd (hbook.symm.trans happendix) (by decide)
  · obtain ⟨fs, t', hfiles, harchive⟩ := exists_files_of_bind hbind hprepare
    rw [harchive, Draft.text?_specText hb hfiles hshown hname, and_iff_right hname, ← d.listsText_specText_iff]
    exact ⟨fun ⟨text, htext, hlists⟩ => Option.some.inj htext ▸ hlists, fun h => ⟨_, rfl, h⟩⟩

/-- A file in the place of the chapter of problems is read to a chapter only where the book is not named like it. -/
theorem name_ne_of_chapter (hb : b.renderer = Renderer.pages) (hbind : (b.bind spec settings requester).Gives s book s')
    (hprepare : (b.prepare spec settings requester).Gives s (d, images) t) {text : String}
    (htext : book.archive.text? (d.localePath Draft.problemsFile) = some text) {doc : Document}
    (hread : Document.read text = .ok doc) (hchapter : doc.root.name = "chapter") : d.name ≠ "Errors" := fun hname =>
  have hbook := isBookPage_of_bind hb hbind hprepare (by rw [hname]; exact htext) doc hread
  absurd (hbook.symm.trans hchapter) (by decide)

/-- The chapter of problems is read as it is written where its messages are sealed. -/
theorem exists_listsProblems (hb : b.renderer = Renderer.pages) (hbind : (b.bind spec settings requester).Gives s book s')
    (hprepare : (b.prepare spec settings requester).Gives s (d, images) t)
    (hshown : d.settings.suppressErrorsPage = false) (hsealed : d.SealedProblems) {rs : List Remark} (hrs : d.Chronicle rs)
    (hlog : d.problems = ({ locale := d.locale } : ProblemLog).addAll rs) (hname : d.name ≠ "Errors") :
    ∃ text, book.archive.text? (d.localePath Draft.problemsFile) = some text ∧
      Draft.ListsProblems text (Remark.collated rs) := by
  obtain ⟨fs, t', hfiles, harchive⟩ := exists_files_of_bind hbind hprepare
  rw [harchive, Draft.text?_problemsPage hb hfiles hshown hname]
  exact ⟨_, rfl, Draft.listsProblems_problemsPage hrs hlog hsealed⟩

/-- **What is read of the pages at the end of a book.**  Unless it is suppressed, the appendix lists the specification's
text if and only if the book's own file does not take its place and the text is sealed.  The problems of the build are
those of what is reported, topic by topic in the order of the first reports; and if all messages are sealed and the
chapter of problems is not suppressed, it has a section for each of the topics, in this order, if and only if the book's
own file does not take its place. -/
theorem backMatter_reads (hb : b.renderer = Renderer.pages) (hbind : (b.bind spec settings requester).Gives s book s')
    (hprepare : (b.prepare spec settings requester).Gives s (d, images) t) :
    (d.settings.suppressContentSpecPage = false →
      ((∃ text, book.archive.text? (d.localePath Draft.specFile) = some text ∧ Draft.ListsText text d.spec.text) ↔
        d.name ≠ "Build_Content_Specification" ∧ Sealed d.spec.text)) ∧
    ∃ rs, d.Chronicle rs ∧ d.problems.topics = Remark.collated rs ∧
      (Remark.collated rs).map (·.topic.topicId) = (rs.map Remark.topicId).eraseDups ∧
      (d.settings.suppressErrorsPage = false → d.SealedProblems →
        ((∃ text, book.archive.text? (d.localePath Draft.problemsFile) = some text ∧
          Draft.ListsProblems text (Remark.collated rs)) ↔ d.name ≠ "Errors")) := by
  obtain ⟨rs, hrs, hlog⟩ := chronicle_prepare hb hprepare
  refine ⟨listsText_iff_of_bind hb hbind hprepare, rs, hrs, ?_, ?_, fun hshown hsealed => ⟨?_, fun hname =>
    exists_listsProblems hb hbind hprepare hshown hsealed hrs hlog hname⟩⟩
  · rw [hlog, ProblemLog.topics_addAll]
  · rw [ProblemLog.topicIds_collated, Remark.map_topicId_firsts]
  · rintro ⟨text, htext, doc, hread, hchapter, -⟩
    exact name_ne_of_chapter hb hbind hprepare htext hread hchapter

/-- Settings for a book with all its pages. -/
def fullSettings : Settings :=
  { insertBugLinks := false }

/-- A book whose first topic is empty has both pages, and the chapter of problems is not without any. -/
theorem backMatter_reads_of_empty : ∃ book d images s' t,
    (sample.bind (titled "Book") fullSettings none).Gives (sampleSession "" "<section/>") book s' ∧
    (sample.prepare (titled "Book") fullSettings none).Gives (sampleSession "" "<section/>") (d, images) t ∧
    (∃ text, book.archive.text? (d.localePath Draft.specFile) = some text ∧ Draft.ListsText text d.spec.text) ∧
    ∃ rs text, rs ≠ [] ∧ d.Chronicle rs ∧ book.archive.text? (d.localePath Draft.problemsFile) = some text ∧
      Draft.ListsProblems text (Remark.collated rs) := by
  have hruns : ∃ book d images s' t,
      (sample.bind (titled "Book") fullSettings none).Gives (sampleSession "" "<section/>") book s' ∧
      (sample.prepare (titled "Book") fullSettings none).Gives (sampleSession "" "<section/>") (d, images) t ∧
      ((d.settings.suppressContentSpecPage = false ∧ d.settings.suppressErrorsPage = false ∧ d.name = "Book" ∧
        Sealed d.spec.text) ∧ d.SealedProblems ∧ d.problems.topics ≠ []) ∧ True :=
    exists_bound (P := fun d => (d.settings.suppressContentSpecPage = false ∧ d.settings.suppressErrorsPage = false ∧
      d.name = "Book" ∧ Sealed d.spec.text) ∧ d.SealedProblems ∧ d.problems.topics ≠ []) (Q := fun _ _ => True)
      (by decide +kernel)
  obtain ⟨book, d, images, s', t, hbind, hprepare, ⟨⟨hspec, herrors, hname, hsealed⟩, hproblems, hsome⟩, -⟩ := hruns
  obtain ⟨hlists, rs, hrs, hlog, -, hchapter⟩ := backMatter_reads rfl hbind hprepare
  obtain ⟨text, htext, hshows⟩ := (hchapter herrors hproblems).2 (by rw [hname]; decide)
  refine ⟨book, d, images, s', t, hbind, hprepare, (hlists hspec).2 ⟨by rw [hname]; decide, hsealed⟩, rs, text,
    ?_, hrs, htext, hshows⟩
  rintro rfl
  exact hsome hlog

/-- A specification in which cleaning brings a terminator together. -/
def unsealedSpec : ContentSpec :=
  { titled "Book" with sourceText := some "]]\x01>" }

/-- A specification that is not sealed is not what its appendix lists. -/
theorem not_listsText_of_unsealed : ∃ book d images s' t,
    (sample.bind unsealedSpec fullSettings none).Gives mixedSession book s' ∧
    (sample.prepare unsealedSpec fullSettings none).Gives mixedSession (d, images) t ∧
    d.settings.suppressContentSpecPage = false ∧
    ¬ ∃ text, book.archive.text? (d.localePath Draft.specFile) = some text ∧ Draft.ListsText text d.spec.text := by
  have hruns : ∃ book d images s' t,
      (sample.bind unsealedSpec fullSettings none).Gives mixedSession book s' ∧
      (sample.prepare unsealedSpec fullSettings none).Gives mixedSession (d, images) t ∧
      (d.settings.suppressContentSpecPage = false ∧ ¬ Sealed d.spec.text) ∧ True :=
    exists_bound (P := fun d => d.settings.suppressContentSpecPage = false ∧ ¬ Sealed d.spec.text)
      (Q := fun _ _ => True) (by decide +kernel)
  obtain ⟨book, d, images, s', t, hbind, hprepare, ⟨hshown, hsealed⟩, -⟩ := hruns
  exact ⟨book, d, images, s', t, hbind, hprepare, hshown, fun hlists =>
    hsealed ((listsText_iff_of_bind rfl hbind hprepare hshown).1 hlists).2⟩

end Bindery
end Bookbinder
