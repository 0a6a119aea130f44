import Bookbinder.Proofs.BookIds
import Bookbinder.Proofs.FilePaths
/-!
# Files of one path

An archive keeps one file for each path, so a file that is written where another was takes its place.  With link ids of
their own, no files of a book share a path unless the book is named like one of its pages or an image like a picture of
the book's style (`paths_nodup_iff`).
-/
namespace Bookbinder

/-- Items of one kind, before items of other kinds. -/
theorem nodup_append_iff_of_kind {α κ : Type} (kind : α → κ) {k : κ} {xs ys : List α} (hxs : ∀ x ∈ xs, kind x = k)
    (hys : ∀ y ∈ ys, kind y ≠ k) : (xs ++ ys).Nodup ↔ xs.Nodup ∧ ys.Nodup := by
  rw [List.nodup_append]
  refine ⟨fun h => ⟨h.1, h.2.1⟩, fun h => ⟨h.1, h.2, fun x hx y hy he => hys y hy ?_⟩⟩
  rw [← he]
  exact hxs x hx

theorem slash_notMem_append {a c : String} : '/' ∉ (a ++ c).toList ↔ '/' ∉ a.toList ∧ '/' ∉ c.toList := by
  rw [String.toList_append, List.mem_append, not_or]

namespace Layout

theorem topicFile_injective : Function.Injective topicFile := by
  intro a b h
  have hl := congrArg String.toList h
  simp only [topicFile, String.toList_append, List.append_assoc, List.append_cancel_left_eq,
    List.append_cancel_right_eq] at hl
  exact String.toList_inj.1 hl

end Layout

namespace Draft

variable {σ : Type} {b : Bindery σ} {d : Draft} {s s' : Session σ}

/-! ## Pages and pictures -/

/-- The pages that a book has whatever its outline is. -/
def fixedPages (d : Draft) : List String :=
  ["Book_Info", "Author_Group", "Preface", "Revision_History"]
    ++ (if d.settings.suppressErrorsPage then [] else ["Errors"])
    ++ if d.settings.suppressContentSpecPage then [] else ["Build_Content_Specification"]

/-- The link ids of the levels that get files of their own. -/
def chapterIds (d : Draft) : List String :=
  (Layout.chapters d.outline).map fun l => l.heading.linkId d.stable

/-- The pages of a book beside its own file. -/
def pages (d : Draft) : List String :=
  d.fixedPages ++ d.chapterIds

/-- The pictures of the book's style. -/
def pictures (d : Draft) : List String :=
  "icon.svg" :: if d.spec.outputStyle = .skynet then ["jboss.svg"] else []

/-- The scripts of the book's style. -/
def scripts (d : Draft) : List String :=
  if d.spec.outputStyle = .skynet then (skynetTexts.tail.map (·.2) ++ skynetBlobs.map (·.2)) else []

theorem perm_assetFiles (d : Draft) : d.assetFiles.Perm (d.scripts ++ d.pictures.map ImageRef.path) := by
  unfold assetFiles scripts pictures
  split <;> decide

theorem perm_localFiles (d : Draft) (topics : List String) (images : List Image) : (d.localFiles topics images).Perm
    ((d.pages ++ [d.name]).map (· ++ ".xml") ++ ([d.name ++ ".ent"] ++ (d.scripts ++ (topics ++
      (d.pictures ++ images.map (·.name)).map ImageRef.path)))) := by
  have hproblems : d.problemFiles = (if d.settings.suppressErrorsPage then [] else ["Errors"]).map (· ++ ".xml") := by
    unfold problemFiles
    split <;> rfl
  have hspecs : d.specFiles = (if d.settings.suppressContentSpecPage then []
      else ["Build_Content_Specification"]).map (· ++ ".xml") := by
    unfold specFiles
    split <;> rfl
  have hchapters : d.chapterFiles = d.chapterIds.map (· ++ ".xml") := by
    unfold chapterFiles chapterIds
    rw [List.map_map]
    rfl
  have hfront : d.frontFiles = ["Book_Info", "Author_Group", "Preface", "Revision_History"].map (· ++ ".xml")
      ++ [d.name ++ ".ent"] ++ d.assetFiles := rfl
  refine List.perm_iff_count.2 fun file => ?_
  have hassets := List.perm_iff_count.1 d.perm_assetFiles file
  unfold localFiles pages fixedPages
  rw [hfront, hproblems, hspecs, hchapters]
  simp only [List.map_append, List.map_singleton, List.map_map, List.count_append, Function.comp_def] at hassets ⊢
  omega

/-! ## Kinds of files -/

/-- What tells files of different kinds apart: in a folder, how it begins, and otherwise how the file ends. -/
def fileKind (file : String) : Bool × Option Char :=
  if '/' ∈ file.toList then (true, file.toList.head?) else (false, file.toList.getLast?)

theorem fileKind_page {page : String} (h : '/' ∉ page.toList) : fileKind (page ++ ".xml") = (false, some 'l') := by
  have hslash : '/' ∉ (page ++ ".xml").toList := slash_notMem_append.2 ⟨h, by decide⟩
  unfold fileKind
  rw [if_neg hslash, String.toList_append, List.getLast?_append]
  rfl

theorem fileKind_entities (d : Draft) : fileKind (d.name ++ ".ent") = (false, some 't') := by
  have hslash : '/' ∉ (d.name ++ ".ent").toList := slash_notMem_append.2 ⟨d.slash_notMem_name, by decide⟩
  unfold fileKind
  rw [if_neg hslash, String.toList_append, List.getLast?_append]
  rfl

theorem fileKind_script {file : String} (h : file ∈ d.scripts) : fileKind file = (true, some 'f') := by
  have hall : ∀ file ∈ skynetTexts.tail.map (·.2) ++ skynetBlobs.map (·.2), fileKind file = (true, some 'f') := by
    decide
  unfold scripts at h
  split at h
  · exact hall file h
  · exact absurd h List.not_mem_nil

theorem fileKind_topicFile (id : String) : fileKind (Layout.topicFile id) = (true, some 't') := by
  have hfile : (Layout.topicFile id).toList = "topics/".toList ++ (id.toList ++ ".xml".toList) := by
    rw [Layout.topicFile, String.toList_append, String.toList_append, List.append_assoc]
  unfold fileKind
  rw [hfile, if_pos (List.mem_append_left _ (by decide))]
  rfl

theorem fileKind_image (name : String) : fileKind (ImageRef.path name) = (true, some 'i') := by
  have hfile : (ImageRef.path name).toList = "images/".toList ++ name.toList := by
    rw [ImageRef.path, String.toList_append]
  unfold fileKind
  rw [hfile, if_pos (List.mem_append_left _ (by decide))]
  rfl

theorem slash_notMem_page {page : String} (h : page ∈ d.pages) : '/' ∉ page.toList := by
  have hfixed : ∀ page ∈ ["Book_Info", "Author_Group", "Preface", "Revision_History"] ++ ["Errors"]
      ++ ["Build_Content_Specification"], '/' ∉ page.toList := by decide
  rcases List.mem_append.1 h with h | h
  · refine hfixed page ?_
    unfold fixedPages at h
    simp only [List.mem_append] at h ⊢
    refine h.imp (fun h => h.imp_right fun h => ?_) fun h => ?_ <;> split at h <;> simp_all
  · obtain ⟨l, -, rfl⟩ := List.mem_map.1 h
    exact Slug.slash_notMem (l.heading.all_linkId d.stable)

/-! ## When paths differ -/

theorem nodup_fixedPages (d : Draft) : d.fixedPages.Nodup := by
  unfold fixedPages
  cases d.settings.suppressErrorsPage <;> cases d.settings.suppressContentSpecPage <;> decide

/-- No level is named like a fixed page. -/
theorem notMem_fixedPages {id : String} (h : id ∈ d.chapterIds) : id ∉ d.fixedPages := by
  intro hpage
  obtain ⟨l, -, rfl⟩ := List.mem_map.1 h
  have hfixed : ∀ page ∈ d.fixedPages, (page ++ ".xml").toList.take 2 ∉ chapterStarts := by
    unfold fixedPages
    cases d.settings.suppressErrorsPage <;> cases d.settings.suppressContentSpecPage <;> decide
  exact hfixed _ hpage (take_chapterFile d.stable l.heading)

theorem nodup_pages (h : d.chapterIds.Nodup) : d.pages.Nodup :=
  List.nodup_append.2 ⟨d.nodup_fixedPages, h, fun _ hpage _ hid he => notMem_fixedPages hid (he ▸ hpage)⟩

theorem nodup_pictures (d : Draft) : d.pictures.Nodup := by
  unfold pictures
  split <;> decide

theorem nodup_scripts (d : Draft) : d.scripts.Nodup := by
  unfold scripts
  split <;> decide

theorem xml_injective : Function.Injective fun page : String => page ++ ".xml" := by
  intro a b h
  have hl := congrArg String.toList h
  simp only [String.toList_append, List.append_cancel_right_eq] at hl
  exact String.toList_inj.1 hl

theorem path_injective : Function.Injective ImageRef.path := by
  intro a b h
  have hl := congrArg String.toList h
  simp only [ImageRef.path, String.toList_append, List.append_cancel_left_eq] at hl
  exact String.toList_inj.1 hl

theorem nodup_hrefs (hlinks : (d.registry.entries.map (·.linkId d.stable)).Nodup) :
    (d.outlinedEntries.map d.hrefOf).Nodup := by
  have hmap : d.outlinedEntries.map d.hrefOf = (d.outlinedEntries.map (·.linkId d.stable)).map Layout.topicFile := by
    rw [List.map_map]
    rfl
  rw [hmap]
  exact (hlinks.sublist (List.filter_sublist.map _)).map Layout.topicFile_injective

theorem fileKind_pages (d : Draft) :
    ∀ file ∈ (d.pages ++ [d.name]).map (· ++ ".xml"), fileKind file = (false, some 'l') := by
  refine List.forall_mem_map.2 fun page hp => fileKind_page ?_
  rcases List.mem_append.1 hp with hp | hp
  · exact slash_notMem_page hp
  · rw [List.mem_singleton.1 hp]
    exact d.slash_notMem_name

/-- **Within the locale's folder no two files share a name unless the book's own file takes that of a page, or an image
that of a picture.** -/
theorem nodup_localFiles_iff {topics : List String} {images : List Image} (hchapters : d.chapterIds.Nodup)
    (hlinks : (d.registry.entries.map (·.linkId d.stable)).Nodup)
    (htopics : topics.Sublist (d.outlinedEntries.map d.hrefOf)) (himages : Collected images) :
    (d.localFiles topics images).Nodup ↔ d.name ∉ d.pages ∧ ∀ i ∈ images, i.name ∉ d.pictures := by
  have htopic : ∀ file ∈ topics, fileKind file = (true, some 't') := fun file hfile => by
    obtain ⟨e, -, rfl⟩ := List.mem_map.1 (htopics.subset hfile)
    exact fileKind_topicFile _
  have himage : ∀ file ∈ (d.pictures ++ images.map (·.name)).map ImageRef.path, fileKind file = (true, some 'i') :=
    List.forall_mem_map.2 fun name _ => fileKind_image name
  have hentity : ∀ file ∈ [d.name ++ ".ent"], fileKind file = (false, some 't') :=
    List.forall_mem_singleton.2 d.fileKind_entities
  rw [(d.perm_localFiles topics images).nodup_iff]
  -- The files are of five kinds, and of those only the pages and the pictures can share a name among themselves.
  have hother {xs : List String} {k k' : Bool × Option Char} (h : ∀ x ∈ xs, fileKind x = k) (hne : k ≠ k') :
      ∀ x ∈ xs, fileKind x ≠ k' := fun x hx he => hne ((h x hx).symm.trans he)
  have hscript : ∀ file ∈ d.scripts, fileKind file = (true, some 'f') := fun _ => fileKind_script
  rw [nodup_append_iff_of_kind fileKind d.fileKind_pages, nodup_append_iff_of_kind fileKind hentity,
    nodup_append_iff_of_kind fileKind hscript, nodup_append_iff_of_kind fileKind htopic]
  · rw [List.nodup_map_iff xml_injective, List.nodup_map_iff path_injective, List.nodup_append, List.nodup_append,
      and_iff_right (nodup_pages hchapters), and_iff_right (List.nodup_singleton _), and_iff_right d.nodup_pictures,
      and_iff_right (List.nodup_singleton _), and_iff_right d.nodup_scripts, and_iff_right ((nodup_hrefs hlinks).sublist htopics),
      and_iff_right himages.nodup]
    constructor
    · rintro ⟨hname, hpictures⟩
      exact ⟨fun hm => hname _ hm _ (List.mem_singleton_self _) rfl,
        fun i hi hm => hpictures _ hm _ (List.mem_map_of_mem hi) rfl⟩
    · rintro ⟨hname, hpictures⟩
      refine ⟨fun page hm name hn he => hname (List.mem_singleton.1 hn ▸ he ▸ hm), fun picture hm name hn he => ?_⟩
      obtain ⟨i, hi, rfl⟩ := List.mem_map.1 hn
      exact hpictures i hi (he ▸ hm)
  · exact hother himage (by decide)
  · exact List.forall_mem_append.2 ⟨hother htopic (by decide), hother himage (by decide)⟩
  · exact List.forall_mem_append.2 ⟨hother hscript (by decide),
      List.forall_mem_append.2 ⟨hother htopic (by decide), hother himage (by decide)⟩⟩
  · exact List.forall_mem_append.2 ⟨hother hentity (by decide), List.forall_mem_append.2 ⟨hother hscript (by decide),
      List.forall_mem_append.2 ⟨hother htopic (by decide), hother himage (by decide)⟩⟩⟩

/-- The file beside the locale's folder shares its path with none in it. -/
theorem publicanCfg_ne_localePath (d : Draft) (file : String) : d.name ++ "/publican.cfg" ≠ d.localePath file := by
  intro h
  have hl := congrArg String.toList h
  simp only [localePath, String.toList_append, List.append_assoc, List.append_cancel_left_eq] at hl
  have hslash : '/' ∈ "publican.cfg".toList := by
    rw [(List.cons.inj (show '/' :: "publican.cfg".toList = '/' :: (d.locale.toList ++ ('/' :: file.toList)) from hl)).2]
    exact List.mem_append_right _ List.mem_cons_self
  exact absurd hslash (by decide)

theorem nodup_paths_iff {images : List Image} {fs : List File} (hrun : (d.files b images).Gives s fs s')
    (hchapters : d.chapterIds.Nodup) (hlinks : (d.registry.entries.map (·.linkId d.stable)).Nodup)
    (himages : Collected images) :
    (fs.map (·.path)).Nodup ↔ d.name ∉ d.pages ∧ ∀ i ∈ images, i.name ∉ d.pictures := by
  obtain ⟨topics, htopics, hpaths⟩ := paths_files hrun
  have hfolder : d.name ++ "/publican.cfg" ∉ (d.localFiles topics images).map d.localePath := by
    intro hm
    obtain ⟨file, -, he⟩ := List.mem_map.1 hm
    exact d.publicanCfg_ne_localePath file he.symm
  rw [hpaths, List.nodup_cons, and_iff_right hfolder, List.nodup_map_iff fun _ _ => localePath_inj]
  exact nodup_localFiles_iff hchapters hlinks htopics himages

end Draft

namespace Bindery

variable {σ : Type} {b : Bindery σ} {spec : ContentSpec} {settings : Settings} {requester : Option String}

theorem nodup_chapterIds {d : Draft} {images : List Image} {s t : Session σ}
    (hprepare : (b.prepare spec settings requester).Gives s (d, images) t)
    (hlevels : (d.registry.levels.map (·.linkId d.stable)).Nodup) : d.chapterIds.Nodup := by
  obtain ⟨d₀, s₀, hdraft, hfollows, -, -⟩ := exists_draft_of_prepare hprepare
  have hregistered := (begins_draft hdraft).registered
  have hheadings : d.registry.levels.map (·.heading) = d.outline.heading :: itemsHeadings d.outline.children := by
    have h := Registry.levels_register spec.root
    rw [hregistered] at h
    rw [hfollows.levels, hfollows.outline]
    exact h
  have hids : d.registry.levels.map (·.linkId d.stable)
      = (d.registry.levels.map (·.heading)).map (·.linkId d.stable) := by
    rw [List.map_map]
    rfl
  have hchapters : d.chapterIds = ((Layout.chapters d.outline).map (·.heading)).map (·.linkId d.stable) := by
    rw [List.map_map]
    rfl
  rw [hids, hheadings, List.map_cons] at hlevels
  rw [hchapters]
  exact (List.nodup_cons.1 hlevels).2.sublist ((Layout.headings_chapters d.outline).map _)

/-- A book is printed from the files of its draft. -/
theorem exists_files_of_bind {book : Book} {d : Draft} {images : List Image} {s s' t : Session σ}
    (hbind : (b.bind spec settings requester).Gives s book s')
    (hprepare : (b.prepare spec settings requester).Gives s (d, images) t) :
    ∃ fs t', (d.files b images).Gives t fs t' ∧ book.archive = .ofFiles fs := by
  rw [bind_eq] at hbind
  obtain ⟨p, t', hp, hprint⟩ := hbind.bind
  obtain ⟨rfl, rfl⟩ := hp.unique hprepare
  unfold print at hprint
  obtain ⟨fs, t₁, hfiles, hprint⟩ := hprint.bind
  obtain ⟨_, -, rfl⟩ := hprint.map
  exact ⟨fs, t₁, hfiles, rfl⟩

/-- **When no file of a book takes the place of another.**  In a bound book whose link ids all differ, the paths of the
files that are written differ as well if and only if the name of the book's own file is not that of one of its pages,
and no image has the name of a picture of the book's style. -/
theorem paths_nodup_iff {book : Book} {d : Draft} {images : List Image} {s s' t : Session σ}
    (hbind : (b.bind spec settings requester).Gives s book s')
    (hprepare : (b.prepare spec settings requester).Gives s (d, images) t) (hlinks : d.linkIds.Nodup) :
    ∃ fs t', (d.files b images).Gives t fs t' ∧ book.archive = .ofFiles fs ∧
      ((fs.map (·.path)).Nodup ↔ d.name ∉ d.pages ∧ ∀ i ∈ images, i.name ∉ d.pictures) := by
  obtain ⟨fs, t', hfiles, harchive⟩ := exists_files_of_bind hbind hprepare
  obtain ⟨hentries, hlevels, -⟩ := List.nodup_append.1 hlinks
  obtain ⟨d₀, s₀, -, -, -, himages⟩ := exists_draft_of_prepare hprepare
  exact ⟨fs, t', hfiles, harchive, Draft.nodup_paths_iff hfiles (nodup_chapterIds hprepare hlevels) hentries himages⟩

/-- A store of two topics, the first of which shows an image. -/
def showing (fileref : String) : Session MemoryStore :=
  sampleSession ("<section><mediaobject><imagedata fileref=\"" ++ fileref ++ "\"/></mediaobject></section>") "<section/>"

/-- The guide under another title. -/
def titled (title : String) : ContentSpec :=
  { sampleSpec guide with title }

/-- The image of a topic gets a path of its own. -/
theorem paths_nodup_of_image : ∃ book d images s' t fs t',
    (sample.bind (titled "Book") sampleSettings none).Gives (showing "images/7.png") book s' ∧
    (sample.prepare (titled "Book") sampleSettings none).Gives (showing "images/7.png") (d, images) t ∧
    (d.linkIds.Nodup ∧ images ≠ [] ∧ d.name ∉ d.pages ∧ ∀ i ∈ images, i.name ∉ d.pictures) ∧
    (d.files sample images).Gives t fs t' ∧ (fs.map (·.path)).Nodup := by
  have hruns : ∃ book d images s' t,
      (sample.bind (titled "Book") sampleSettings none).Gives (showing "images/7.png") book s' ∧
      (sample.prepare (titled "Book") sampleSettings none).Gives (showing "images/7.png") (d, images) t ∧
      (d.linkIds.Nodup ∧ images.map (·.name) ≠ [] ∧ d.name ∉ d.pages ∧ ∀ i ∈ images, i.name ∉ d.pictures) ∧ True :=
    exists_bound_showing (P := fun p => p.1.linkIds.Nodup ∧ p.2.map (·.name) ≠ [] ∧ p.1.name ∉ p.1.pages ∧
      ∀ i ∈ p.2, i.name ∉ p.1.pictures) (Q := fun _ _ => True) (by decide +kernel)
  obtain ⟨book, d, images, s', t, hbind, hprepare, ⟨hlinks, hsome, hnames⟩, -⟩ := hruns
  obtain ⟨fs, t', hfiles, -, hiff⟩ := paths_nodup_iff hbind hprepare hlinks
  exact ⟨book, d, images, s', t, fs, t', hbind, hprepare, ⟨hlinks, fun h => hsome (by rw [h]; rfl), hnames⟩, hfiles,
    hiff.2 hnames⟩

/-- A book with the title of one of its pages has a file that takes that page's place. -/
theorem paths_clash : ∃ book d images s' t fs t',
    (sample.bind (titled "Preface") sampleSettings none).Gives mixedSession book s' ∧
    (sample.prepare (titled "Preface") sampleSettings none).Gives mixedSession (d, images) t ∧ d.DistinctLinks ∧
    (d.files sample images).Gives t fs t' ∧ ¬ (fs.map (·.path)).Nodup := by
  have hruns : ∃ book d images s' t,
      (sample.bind (titled "Preface") sampleSettings none).Gives mixedSession book s' ∧
      (sample.prepare (titled "Preface") sampleSettings none).Gives mixedSession (d, images) t ∧
      (d.DistinctLinks ∧ d.name ∈ d.pages) ∧ True :=
    exists_bound (P := fun d => d.DistinctLinks ∧ d.name ∈ d.pages) (Q := fun _ _ => True) (by decide +kernel)
  obtain ⟨book, d, images, s', t, hbind, hprepare, ⟨hlinks, hname⟩, -⟩ := hruns
  obtain ⟨fs, t', hfiles, -⟩ := exists_files_of_bind hbind hprepare
  obtain ⟨hentries, hlevels, -⟩ := List.nodup_append.1 hlinks.nodup
  obtain ⟨d₀, s₀, -, -, -, himages⟩ := exists_draft_of_prepare hprepare
  have hiff := Draft.nodup_paths_iff hfiles (nodup_chapterIds hprepare hlevels) hentries himages
  exact ⟨book, d, images, s', t, fs, t', hbind, hprepare, hlinks, hfiles, fun h => (hiff.1 h).1 hname⟩

end Bindery
end Bookbinder
