import Bookbinder.Proofs.LatestItems
import Bookbinder.Proofs.TopicFiles
/-!
# The files of a book

Of files with one path, an archive keeps the one that was written last (`perm_files_ofFiles`).  Among the files of a
book, those of its topics lie in a folder of their own, where no other file is written, and each is kept if no two of
them share a path.
-/
namespace Bookbinder

open Xml (Element)

namespace File

/-- The tags that a file writes; a file that is no text writes none. -/
def tags (f : File) : List Element :=
  match String.fromUTF8? f.bytes with
  | some text => Xml.tags text.toList
  | none => []

def ids (f : File) : List String :=
  Xml.ids f.tags

theorem tags_ofText (path text : String) : (File.ofText path text).tags = Xml.tags text.toList := by
  have htext : String.fromUTF8? text.toUTF8 = some text := by
    rw [String.fromUTF8?]
    exact dif_pos text.isValidUTF8
  rw [tags, ofText, htext]

end File

namespace Archive

/-- A file that is placed among others takes the place of the one with its path. -/
theorem place_perm {f : File} {gs : List File} (h : Ascending gs) :
    (place f gs).Perm ((gs.filter fun g => g.path != f.path) ++ [f]) := by
  have hkeep {gs : List File} (hlt : ∀ g ∈ gs, f.path < g.path) : (gs.filter fun g => g.path != f.path) = gs :=
    List.filter_eq_self.2 fun g hg => by
      rw [bne_iff_ne]
      exact fun he => String.lt_irrefl f.path (he ▸ hlt g hg)
  induction gs with
  | nil => exact .refl _
  | cons g gs ih =>
    obtain ⟨hg, hgs⟩ := List.pairwise_cons.1 h
    unfold place
    split
    · rename_i hlt
      rw [hkeep fun k hk => (List.mem_cons.1 hk).elim (fun he => he ▸ hlt) fun hk => String.lt_trans hlt (hg k hk)]
      exact (List.perm_append_singleton f (g :: gs)).symm
    · split
      · rename_i heq
        rw [List.filter_cons_of_neg (by rw [bne_iff_ne, heq]; exact fun hne => hne rfl),
          hkeep fun k hk => heq ▸ hg k hk]
        exact (List.perm_append_singleton f gs).symm
      · rename_i hne
        rw [List.filter_cons_of_pos (by rw [bne_iff_ne]; exact fun he => hne he.symm), List.cons_append]
        exact (ih hgs).cons g

/-- **Of files with one path, an archive keeps the last.** -/
theorem perm_files_ofFiles (fs : List File) : (ofFiles fs).files.Perm (latestBy File.path fs) := by
  induction fs using List.reverseRecOn with
  | nil => exact .nil
  | append_singleton fs f ih =>
    have hinsert : (ofFiles (fs ++ [f])).files = place f (ofFiles fs).files := by
      rw [ofFiles, List.foldl_append]
      rfl
    rw [hinsert, latestBy_append]
    have hkept : (fun g : File => !([f].any fun k => k.path == g.path)) = fun g => g.path != f.path := by
      funext g
      rw [List.any_cons, List.any_nil, Bool.or_false, bne, Bool.beq_comm]
    rw [hkept]
    exact (place_perm (ofFiles fs).ascending).trans ((ih.filter _).append_right _)

end Archive
namespace Draft

variable {σ : Type} {b : Bindery σ} {d : Draft} {s s' : Session σ}

/-! ## Files of topics -/

/-- The references that get files: those that end up in the book and have something to show. -/
def published (d : Draft) : List TopicEntry :=
  (d.registry.entries.filter fun e => Layout.isOutlined d.outline e.ref.step).filter fun e => e.outcome != .pending

theorem mem_published {e : TopicEntry} (h : e ∈ d.published) :
    e ∈ d.registry.entries ∧ Layout.isOutlined d.outline e.ref.step = true := by
  have hmem := (List.mem_filter.1 h).1
  exact ⟨(List.mem_filter.1 hmem).1, (List.mem_filter.1 hmem).2⟩

theorem FileText.outcome_ne {e : TopicEntry} {text : String} (h : d.FileText e text) : e.outcome ≠ .pending := by
  cases h with
  | document doc outcome document tags => rw [outcome]; exact Outcome.noConfusion
  | standIn content bugLink es outcome tags anonymous => rw [outcome]; exact Outcome.noConfusion

/-- A file that a reference's page is written to. -/
def IsFileOf (d : Draft) (e : TopicEntry) (f : File) : Prop :=
  ∃ text, f = .ofText (d.topicPath e) text ∧ d.FileText e text

theorem forall₂_files {es : List TopicEntry} {os : List (Option File)}
    (h : List.Forall₂ (fun e o => (e.outcome = .pending ∧ o = none) ∨ ∃ f, o = some f ∧ d.IsFileOf e f) es os) :
    List.Forall₂ d.IsFileOf (es.filter fun e => e.outcome != .pending) (os.filterMap id) := by
  induction h with
  | nil => exact .nil
  | @cons e o es os heo _ ih =>
    rcases heo with ⟨hpending, rfl⟩ | ⟨f, rfl, text, hf, htext⟩
    · rw [List.filter_cons_of_neg (by rw [hpending]; decide)]
      exact ih
    · rw [List.filter_cons_of_pos (by rw [bne_iff_ne]; exact htext.outcome_ne)]
      exact .cons ⟨text, hf, htext⟩ ih

/-- **Every published reference gets its own file, in the order of the references.** -/
theorem forall₂_topicFiles (hb : b.renderer = Renderer.pages) (h : d.Prepared) {fs : List File}
    (hrun : (topicFiles b d).Gives s fs s') : List.Forall₂ d.IsFileOf d.published fs := by
  rw [topicFiles, hb] at hrun
  obtain ⟨preamble, s₁, hpreamble, hrun⟩ := hrun.bind
  obtain ⟨os, hos, rfl⟩ := hrun.map
  have htext := hpreamble.render.1
  rw [Template.render_file] at htext
  have hpreamble : preamble = Template.preamble (d.baseContext "section") := (Except.ok.inj htext).symm
  refine forall₂_files ?_
  rw [hpreamble] at hos
  refine List.forall₂_iff_get.2 ⟨hos.mapM.length_eq, fun i hi hi' => ?_⟩
  obtain ⟨t, t', hgives⟩ := (List.forall₂_iff_get.1 hos.mapM).2 i hi hi'
  have hmem := List.mem_filter.1 (List.get_mem (d.registry.entries.filter fun e =>
    Layout.isOutlined d.outline e.ref.step) ⟨i, hi⟩)
  refine (fileText_topicFile hb h hmem.1 hmem.2 hgives).imp id ?_
  rintro ⟨text, ho, htext⟩
  exact ⟨_, ho, text, rfl, htext⟩

theorem map_path_of_forall₂ {es : List TopicEntry} {fs : List File} (h : List.Forall₂ d.IsFileOf es fs) :
    fs.map (·.path) = es.map d.topicPath := by
  induction h with
  | nil => rfl
  | cons hf _ ih =>
    obtain ⟨text, rfl, _⟩ := hf
    rw [List.map_cons, List.map_cons, ih]
    rfl

/-! ## The folder of topics -/

/-- Whether a path leads into the folder of the topics' files. -/
def isTopicPath (d : Draft) (path : String) : Bool :=
  (d.localePath "topics/").toList.isPrefixOf path.toList

theorem isPrefixOf_append_append (xs ys zs : List Char) :
    (xs ++ ys).isPrefixOf (xs ++ zs) = ys.isPrefixOf zs := by
  induction xs with
  | nil => rfl
  | cons x xs ih => rw [List.cons_append, List.cons_append, List.isPrefixOf, ih, beq_self_eq_true, Bool.true_and]

theorem toList_localePath (d : Draft) (file : String) :
    (d.localePath file).toList = (d.name ++ "/" ++ d.locale ++ "/").toList ++ file.toList := by
  rw [localePath, String.toList_append]

theorem localePath_inj {file file' : String} (h : d.localePath file = d.localePath file') : file = file' := by
  have hl := congrArg String.toList h
  rw [toList_localePath, toList_localePath, List.append_cancel_left_eq] at hl
  exact String.toList_inj.1 hl

theorem topicPath_inj {e e' : TopicEntry} (h : d.topicPath e = d.topicPath e') :
    e.linkId d.stable = e'.linkId d.stable := by
  have hl := congrArg String.toList (localePath_inj h)
  rw [Layout.topicFile, Layout.topicFile] at hl
  simp only [String.toList_append, List.append_assoc, List.append_cancel_left_eq, List.append_cancel_right_eq] at hl
  exact String.toList_inj.1 hl

theorem isTopicPath_localePath (d : Draft) (file : String) :
    d.isTopicPath (d.localePath file) = "topics/".toList.isPrefixOf file.toList := by
  rw [isTopicPath, toList_localePath, toList_localePath, isPrefixOf_append_append]

theorem isTopicPath_topicPath (d : Draft) (e : TopicEntry) : d.isTopicPath (d.topicPath e) = true := by
  rw [topicPath, isTopicPath_localePath, Layout.topicFile, String.toList_append,
    String.toList_append, List.append_assoc]
  rfl

/-! ## Files outside that folder -/

theorem isTopicPath_of_take {file : String} (h : file.toList.take 2 ≠ ['t', 'o']) :
    d.isTopicPath (d.localePath file) = false := by
  rw [isTopicPath_localePath, ← Bool.not_eq_true, List.isPrefixOf_iff_prefix]
  rintro ⟨rest, hrest⟩
  rw [← hrest] at h
  exact h rfl

theorem isTopicPath_of_slash {file : String} (h : '/' ∉ file.toList) : d.isTopicPath (d.localePath file) = false := by
  rw [isTopicPath_localePath, ← Bool.not_eq_true, List.isPrefixOf_iff_prefix]
  rintro ⟨rest, hrest⟩
  exact h (hrest ▸ List.mem_append_left _ (by decide))

theorem slash_notMem_name (d : Draft) : '/' ∉ d.name.toList :=
  fun h => absurd (Slug.isSlugChar_of_mem_escape h) (by decide)

theorem isTopicPath_publicanCfg (d : Draft) : d.isTopicPath (d.name ++ "/publican.cfg") = false := by
  have hpath : (d.localePath "topics/").toList =
      d.name.toList ++ '/' :: (d.locale.toList ++ '/' :: "topics/".toList) := by
    simp [localePath]
  have hcfg : (d.name ++ "/publican.cfg").toList = d.name.toList ++ '/' :: "publican.cfg".toList := by simp
  rw [isTopicPath, hpath, hcfg, isPrefixOf_append_append, List.isPrefixOf, beq_self_eq_true, Bool.true_and,
    ← Bool.not_eq_true, List.isPrefixOf_iff_prefix]
  rintro ⟨rest, hrest⟩
  have hslash : '/' ∈ "publican.cfg".toList := by
    rw [← hrest, List.append_assoc]
    exact List.mem_append_right _ List.mem_cons_self
  exact absurd hslash (by decide)

theorem path_renderFile {file : String} {page : Template.PageName} {c : Template.Context} {f : File}
    (hrun : (renderFile b d file page c).Gives s f s') : f.path = d.localePath file := by
  rw [renderFile] at hrun
  obtain ⟨text, -, rfl⟩ := hrun.map
  rfl

theorem paths_mapM {α : Type} {f : α → Press σ File} {p : α → String}
    (hf : ∀ x t g t', (f x).Gives t g t' → g.path = p x) {xs : List α} {gs : List File}
    (hrun : (xs.mapM f).Gives s gs s') : gs.map (·.path) = xs.map p := by
  have hall : List.Forall₂ (fun x g => g.path = p x) xs gs :=
    hrun.mapM.imp fun x g ⟨t, t', hgives⟩ => hf x t g t' hgives
  clear hrun
  induction hall with
  | nil => rfl
  | cons h _ ih => rw [List.map_cons, List.map_cons, h, ih]

theorem path_textAsset {id : Int} {file : String} {f : File} (hrun : (textAsset b d id file).Gives s f s') :
    f.path = d.localePath file := by
  obtain ⟨text, -, rfl⟩ := hrun.map
  rfl

theorem path_blobAsset {id : Int} {file : String} {f : File} (hrun : (blobAsset b d id file).Gives s f s') :
    f.path = d.localePath file := by
  obtain ⟨bytes, -, rfl⟩ := hrun.map
  rfl

/-- The pictures and scripts of the book's style. -/
def assetFiles (d : Draft) : List String :=
  "images/icon.svg" :: if d.spec.outputStyle = .skynet then (skynetTexts.map (·.2) ++ skynetBlobs.map (·.2)) else []

theorem paths_assets {fs : List File} (hrun : (assets b d).Gives s fs s') :
    fs.map (·.path) = d.assetFiles.map d.localePath := by
  unfold assets at hrun
  obtain ⟨icon, _, hicon, hrun⟩ := hrun.bind
  unfold assetFiles
  by_cases hstyle : d.spec.outputStyle = .skynet
  · rw [if_pos hstyle] at hrun ⊢
    obtain ⟨texts, _, htexts, hrun⟩ := hrun.bind
    obtain ⟨blobs, hblobs, rfl⟩ := hrun.map
    have htexts := paths_mapM (p := fun a : Int × String => d.localePath a.2) (fun _ _ _ _ h => path_textAsset h) htexts
    have hblobs := paths_mapM (p := fun a : Int × String => d.localePath a.2) (fun _ _ _ _ h => path_blobAsset h) hblobs
    simp only [List.map_cons, List.map_append, List.map_map, List.cons_append, path_textAsset hicon, htexts, hblobs]
    rfl
  · rw [if_neg hstyle] at hrun ⊢
    obtain ⟨rfl, -⟩ := hrun.pure
    rw [List.map_singleton, path_textAsset hicon]
    rfl

theorem path_publicanConfig {f : File} (hrun : (publicanConfig b d).Gives s f s') :
    f.path = d.name ++ "/publican.cfg" := by
  rw [publicanConfig] at hrun
  obtain ⟨base, -, rfl⟩ := hrun.map
  rfl

theorem path_authorGroup {f : File} (hrun : (authorGroup b d).Gives s f s') :
    f.path = d.localePath "Author_Group.xml" := by
  rw [authorGroup] at hrun
  obtain ⟨_, _, -, hrun⟩ := hrun.bind
  exact path_renderFile hrun

theorem path_revisionHistory {f : File} (hrun : (revisionHistory b d).Gives s f s') :
    f.path = d.localePath "Revision_History.xml" := by
  rw [revisionHistory] at hrun
  obtain ⟨_, _, -, hrun⟩ := hrun.bind
  exact path_renderFile hrun

/-- The files of the front matter, the publisher's configuration aside. -/
def frontFiles (d : Draft) : List String :=
  ["Book_Info.xml", "Author_Group.xml", "Preface.xml", "Revision_History.xml", d.name ++ ".ent"] ++ d.assetFiles

/-- The parts of the front matter, of which the configuration comes first. -/
theorem exists_frontParts {fs : List File} (hrun : (frontMatter b d).Gives s fs s') :
    ∃ config info authors preface history declarations assets, (∃ t, (publicanConfig b d).Gives s config t) ∧
      (∃ t t', (bookInfo b d).Gives t info t') ∧ (∃ t t', (authorGroup b d).Gives t authors t') ∧
      (∃ t t', (Draft.preface b d).Gives t preface t') ∧ (∃ t t', (revisionHistory b d).Gives t history t') ∧
      (∃ t t', (entities b d).Gives t declarations t') ∧ (∃ t t', (Draft.assets b d).Gives t assets t') ∧
      fs = [config, info, authors, preface, history, declarations] ++ assets := by
  unfold frontMatter at hrun
  obtain ⟨config, _, hconfig, hrun⟩ := hrun.bind
  obtain ⟨info, _, hinfo, hrun⟩ := hrun.bind
  obtain ⟨authors, _, hauthors, hrun⟩ := hrun.bind
  obtain ⟨preface, _, hpreface, hrun⟩ := hrun.bind
  obtain ⟨history, _, hhistory, hrun⟩ := hrun.bind
  obtain ⟨declarations, _, hdeclarations, hrun⟩ := hrun.bind
  obtain ⟨assets, hassets, rfl⟩ := hrun.map
  exact ⟨config, info, authors, preface, history, declarations, assets, ⟨_, hconfig⟩, ⟨_, _, hinfo⟩, ⟨_, _, hauthors⟩,
    ⟨_, _, hpreface⟩, ⟨_, _, hhistory⟩, ⟨_, _, hdeclarations⟩, ⟨_, _, hassets⟩, rfl⟩

theorem paths_frontMatter {fs : List File} (hrun : (frontMatter b d).Gives s fs s') :
    fs.map (·.path) = (d.name ++ "/publican.cfg") :: d.frontFiles.map d.localePath := by
  obtain ⟨config, info, authors, preface, history, declarations, assets, ⟨_, hconfig⟩, ⟨_, _, hinfo⟩, ⟨_, _, hauthors⟩,
    ⟨_, _, hpreface⟩, ⟨_, _, hhistory⟩, ⟨_, _, hdeclarations⟩, ⟨_, _, hassets⟩, rfl⟩ := exists_frontParts hrun
  have hinfo : info.path = d.localePath "Book_Info.xml" := path_renderFile hinfo
  have hpreface : preface.path = d.localePath "Preface.xml" := path_renderFile hpreface
  have hdeclarations : declarations.path = d.localePath (d.name ++ ".ent") := path_renderFile hdeclarations
  unfold frontFiles
  simp only [List.map_cons, List.cons_append, List.nil_append, paths_assets hassets,
    path_publicanConfig hconfig, path_authorGroup hauthors, path_revisionHistory hhistory, hinfo, hpreface, hdeclarations]

def problemFiles (d : Draft) : List String :=
  if d.settings.suppressErrorsPage then [] else [problemsFile]

theorem paths_problemChapters {fs : List File} (hrun : (problemChapters b d).Gives s fs s') :
    fs.map (·.path) = d.problemFiles.map d.localePath := by
  unfold problemChapters at hrun
  unfold problemFiles
  split at hrun
  · obtain ⟨rfl, -⟩ := hrun.pure
    rw [if_pos ‹_›]
    rfl
  · obtain ⟨g, hg, rfl⟩ := hrun.map
    obtain ⟨preamble, -, rfl⟩ := hg.map
    rw [if_neg ‹_›]
    rfl

theorem isTopicPath_assetFiles : ∀ file ∈ d.assetFiles, d.isTopicPath (d.localePath file) = false := by
  have hassets : ∀ file ∈ d.assetFiles, file.toList.take 2 ≠ ['t', 'o'] := by
    unfold assetFiles
    split <;> decide
  exact fun file hfile => isTopicPath_of_take (hassets file hfile)

theorem isTopicPath_frontFiles : ∀ file ∈ d.frontFiles, d.isTopicPath (d.localePath file) = false := by
  intro file hfile
  simp only [frontFiles, List.cons_append, List.nil_append, List.mem_cons] at hfile
  rcases hfile with rfl | rfl | rfl | rfl | rfl | hfile
  · exact isTopicPath_of_take (by decide)
  · exact isTopicPath_of_take (by decide)
  · exact isTopicPath_of_take (by decide)
  · exact isTopicPath_of_take (by decide)
  · refine isTopicPath_of_slash ?_
    rw [String.toList_append, List.mem_append]
    exact fun hm => hm.elim d.slash_notMem_name (by decide)
  · exact isTopicPath_assetFiles file hfile

theorem isTopicPath_problemFiles : ∀ file ∈ d.problemFiles, d.isTopicPath (d.localePath file) = false := by
  intro file hfile
  unfold problemFiles at hfile
  split at hfile
  · exact absurd hfile List.not_mem_nil
  · rw [List.mem_singleton.1 hfile]
    exact isTopicPath_of_take (by decide)

/-- Nothing of the front matter or the report on problems is in the folder of the topics' files. -/
theorem isTopicPath_front {front problems : List File} {t t' : Session σ} (hfront : (frontMatter b d).Gives s front s')
    (hproblems : (problemChapters b d).Gives t problems t') : ∀ f ∈ front ++ problems, d.isTopicPath f.path = false := by
  intro f hf
  have hpath : f.path ∈ (front ++ problems).map (·.path) := List.mem_map.2 ⟨f, hf, rfl⟩
  rw [List.map_append, paths_frontMatter hfront, paths_problemChapters hproblems, List.cons_append, List.mem_cons,
    List.mem_append] at hpath
  rcases hpath with hpath | hpath | hpath
  · rw [hpath, isTopicPath_publicanCfg]
  · obtain ⟨file, hfile, he⟩ := List.mem_map.1 hpath
    rw [← he, isTopicPath_frontFiles file hfile]
  · obtain ⟨file, hfile, he⟩ := List.mem_map.1 hpath
    rw [← he, isTopicPath_problemFiles file hfile]

/-- How the names of the files of chapters begin. -/
def chapterStarts : List (List Char) :=
  [['b', 'o'], ['p', 'a'], ['c', 'h'], ['a', 'p'],
   ['s', 'e'], ['B', 'a'], ['P', 'a'], ['C', 'h'], ['A', 'p'], ['S', 'e']]

theorem take_chapterFile (stable : Bool) (h : Heading) :
    (Layout.chapterFile stable h).toList.take 2 ∈ chapterStarts := by
  have hstart : ∃ rest, Layout.chapterFile stable h
      = (if stable then h.kind.idPrefix ++ "-" else h.kind.name ++ "ID") ++ rest := by
    rw [Layout.chapterFile, Heading.linkId]
    cases stable with
    | false =>
      rw [if_neg Bool.false_ne_true, if_neg Bool.false_ne_true]
      exact ⟨_, String.append_assoc⟩
    | true =>
      rw [if_pos rfl, if_pos rfl]
      cases h.duplicate with
      | none => exact ⟨_, String.append_assoc⟩
      | some n =>
        simp only [withDuplicate, String.append_assoc]
        exact ⟨_, rfl⟩
  obtain ⟨rest, hrest⟩ := hstart
  rw [hrest, String.toList_append]
  cases stable <;> cases h.kind <;> exact of_decide_eq_true rfl

theorem path_chapter {l : Level} {f : File} (hrun : (chapter b d l).Gives s f s') :
    f.path = d.localePath (Layout.chapterFile d.stable l.heading) :=
  path_renderFile hrun

def specFiles (d : Draft) : List String :=
  if d.settings.suppressContentSpecPage then [] else [specFile]

theorem paths_specAppendices {fs : List File} (hrun : (specAppendices b d).Gives s fs s') :
    fs.map (·.path) = d.specFiles.map d.localePath := by
  unfold specAppendices at hrun
  unfold specFiles
  split at hrun
  · obtain ⟨rfl, -⟩ := hrun.pure
    rw [if_pos ‹_›]
    rfl
  · obtain ⟨g, hg, rfl⟩ := hrun.map
    obtain ⟨preamble, -, rfl⟩ := hg.map
    rw [if_neg ‹_›]
    rfl

theorem path_specAppendices {fs : List File} (hrun : (specAppendices b d).Gives s fs s') :
    ∀ f ∈ fs, f.path = d.localePath specFile := by
  intro f hf
  have hpath : f.path ∈ fs.map (·.path) := List.mem_map.2 ⟨f, hf, rfl⟩
  rw [paths_specAppendices hrun, specFiles] at hpath
  split at hpath
  · exact absurd hpath List.not_mem_nil
  · exact List.mem_singleton.1 hpath

theorem path_bookFile {f : File} (hrun : (bookFile b d).Gives s f s') : f.path = d.localePath (d.name ++ ".xml") :=
  path_renderFile hrun

/-! ## All files -/

/-- The files of a book in the order in which they are written. -/
inductive Written (b : Bindery σ) (d : Draft) (images : List Image) : List File → Prop
  | files (front chapters topics appendices : List File) (book : File)
      (front_path : ∀ f ∈ front, d.isTopicPath f.path = false)
      (chapters_run : ∃ s s', ((Layout.chapters d.outline).mapM (chapter b d)).Gives s chapters s')
      (topics_run : ∃ s s', (topicFiles b d).Gives s topics s')
      (appendices_path : ∀ f ∈ appendices, f.path = d.localePath specFile)
      (book_run : ∃ s s', (bookFile b d).Gives s book s') :
      Written b d images (front ++ chapters ++ topics ++ images.map d.imageFile ++ appendices ++ [book])

/-- The parts that a book's files are put together from. -/
theorem exists_parts {images : List Image} {fs : List File} (hrun : (d.files b images).Gives s fs s') :
    ∃ front problems chapters topics appendices book, (∃ t, (frontMatter b d).Gives s front t) ∧
      (∃ t t', (problemChapters b d).Gives t problems t') ∧
      (∃ t t', ((Layout.chapters d.outline).mapM (chapter b d)).Gives t chapters t') ∧
      (∃ t t', (topicFiles b d).Gives t topics t') ∧ (∃ t t', (specAppendices b d).Gives t appendices t') ∧
      (∃ t t', (bookFile b d).Gives t book t') ∧
      fs = front ++ problems ++ chapters ++ topics ++ images.map d.imageFile ++ appendices ++ [book] := by
  rw [files] at hrun
  obtain ⟨_, _, hcheck, hrun⟩ := hrun.bind
  rw [hcheck.check] at hrun
  obtain ⟨front, _, hfront, hrun⟩ := hrun.bind
  obtain ⟨problems, _, hproblems, hrun⟩ := hrun.bind
  obtain ⟨_, _, -, hrun⟩ := hrun.bind
  obtain ⟨chapters, _, hchapters, hrun⟩ := hrun.bind
  obtain ⟨topics, _, htopics, hrun⟩ := hrun.bind
  obtain ⟨appendices, _, happendices, hrun⟩ := hrun.bind
  obtain ⟨book, hbook, rfl⟩ := hrun.map
  exact ⟨front, problems, chapters, topics, appendices, book, ⟨_, hfront⟩, ⟨_, _, hproblems⟩, ⟨_, _, hchapters⟩,
    ⟨_, _, htopics⟩, ⟨_, _, happendices⟩, ⟨_, _, hbook⟩, rfl⟩

theorem written_files {images : List Image} {fs : List File} (hrun : (d.files b images).Gives s fs s') :
    Written b d images fs := by
  obtain ⟨front, problems, chapters, topics, appendices, book, ⟨_, hfront⟩, ⟨_, _, hproblems⟩, hchapters, htopics,
    ⟨_, _, happendices⟩, hbook, rfl⟩ := exists_parts hrun
  exact .files (front ++ problems) chapters topics appendices book (isTopicPath_front hfront hproblems) hchapters htopics
    (path_specAppendices happendices) hbook

theorem isTopicPath_of_chapterStarts {file : String} (h : file.toList.take 2 ∈ chapterStarts) :
    d.isTopicPath (d.localePath file) = false :=
  isTopicPath_of_take fun he => absurd (he ▸ h) (by decide)

theorem isTopicPath_bookPath (d : Draft) : d.isTopicPath (d.localePath (d.name ++ ".xml")) = false := by
  refine isTopicPath_of_slash ?_
  rw [String.toList_append, List.mem_append]
  exact fun hm => hm.elim d.slash_notMem_name (by decide)

theorem path_topicFile {preamble : String} {e : TopicEntry} {o : Option File}
    (hrun : (topicFile? b d preamble e).Gives s o s') : ∀ f ∈ o, f.path = d.topicPath e := by
  rw [topicFile?] at hrun
  split at hrun
  · cases hrun.pure.1
    rintro f ⟨⟩
    rfl
  · obtain ⟨page, -, rfl⟩ := hrun.map
    rintro f ⟨⟩
    rfl
  · cases hrun.pure.1
    rintro f ⟨⟩

theorem isTopicPath_topicFiles {fs : List File} (hrun : (topicFiles b d).Gives s fs s') :
    ∀ f ∈ fs, d.isTopicPath f.path = true := by
  rw [topicFiles] at hrun
  obtain ⟨preamble, _, -, hrun⟩ := hrun.bind
  obtain ⟨os, hos, rfl⟩ := hrun.map
  intro f hf
  obtain ⟨o, ho, rfl⟩ := List.mem_filterMap.1 hf
  obtain ⟨e, -, _, _, he⟩ := hos.exists_of_mem_mapM _ ho
  rw [path_topicFile he f rfl, isTopicPath_topicPath]

/-- **In the folder of the topics' files there are no others.** -/
theorem Written.exists_topicFiles {images : List Image} {fs : List File} (h : Written b d images fs) :
    ∃ topics s s', (topicFiles b d).Gives s topics s' ∧ (fs.filter fun f => d.isTopicPath f.path) = topics := by
  obtain ⟨front, chapters, topics, appendices, book, hfront, ⟨_, _, hchapters⟩, ⟨_, _, htopics⟩, happendices,
    ⟨_, _, hbook⟩⟩ := h
  have hnone {fs : List File} (h : ∀ f ∈ fs, d.isTopicPath f.path = false) :
      (fs.filter fun f => d.isTopicPath f.path) = [] :=
    List.filter_eq_nil_iff.2 fun f hf => by rw [h f hf]; exact Bool.false_ne_true
  have htopic : (topics.filter fun f => d.isTopicPath f.path) = topics :=
    List.filter_eq_self.2 (isTopicPath_topicFiles htopics)
  refine ⟨topics, _, _, htopics, ?_⟩
  simp only [List.filter_append, htopic]
  -- The book's own file, the appendices, the images and the chapters, in the order of the remaining goals.
  rw [hnone hfront, hnone fun f hf => ?_, hnone fun f hf => ?_, hnone fun f hf => ?_, hnone fun f hf => ?_]
  · simp only [List.nil_append, List.append_nil]
  · rw [List.mem_singleton.1 hf, path_bookFile hbook, isTopicPath_bookPath]
  · rw [happendices f hf]
    exact isTopicPath_of_take (by decide)
  · obtain ⟨i, -, rfl⟩ := List.mem_map.1 hf
    refine isTopicPath_of_take ?_
    rw [ImageRef.path, String.toList_append]
    exact fun he => absurd (List.cons.inj he).1 (by decide)
  · obtain ⟨l, -, _, _, hl⟩ := hchapters.exists_of_mem_mapM f hf
    rw [path_chapter hl]
    exact isTopicPath_of_chapterStarts (take_chapterFile d.stable l.heading)

/-- The files in the folder of the topics' files are those of the published references, in their order. -/
theorem Written.filter_isTopicPath (hb : b.renderer = Renderer.pages) (hd : d.Prepared) {images : List Image}
    {fs : List File} (h : Written b d images fs) :
    ∃ topics, List.Forall₂ d.IsFileOf d.published topics ∧ (fs.filter fun f => d.isTopicPath f.path) = topics := by
  obtain ⟨topics, _, _, htopics, hfilter⟩ := h.exists_topicFiles
  exact ⟨topics, forall₂_topicFiles hb hd htopics, hfilter⟩

/-- The files of an archive's topics are those written for the references, the last of each path. -/
theorem perm_topicFiles (hb : b.renderer = Renderer.pages) (hd : d.Prepared) {images : List Image} {fs : List File}
    (h : Written b d images fs) : ∃ topics, List.Forall₂ d.IsFileOf d.published topics ∧
      ((Archive.ofFiles fs).files.filter fun f => d.isTopicPath f.path).Perm (latestBy File.path topics) := by
  obtain ⟨topics, hall, hfilter⟩ := h.filter_isTopicPath hb hd
  refine ⟨topics, hall, ?_⟩
  rw [← hfilter, ← filter_latestBy]
  exact (Archive.perm_files_ofFiles fs).filter _

end Draft
end Bookbinder
