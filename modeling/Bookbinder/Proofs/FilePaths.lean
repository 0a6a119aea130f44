import Bookbinder.Proofs.DraftStages
import Bookbinder.Proofs.OutlineFiles
/-!
# The paths of a book's files

Where the files of a book are written, in the order in which they are written (`paths_files`): one file beside the
locale's folder, and all others in it.
-/
namespace Bookbinder

/-! ## Slugs -/

namespace Slug

theorem squeeze_subset (cs : List Char) : squeeze cs ⊆ cs := by
  fun_induction squeeze cs with
  | case1 cs ih => exact List.Subset.trans ih (List.subset_cons_self _ _)
  | case2 c cs _ ih => exact List.cons_subset_cons c ih
  | case3 => exact List.Subset.refl _

theorem all_ofTitle (title : String) : (ofTitle title).toList.all isSlugChar = true := by
  unfold ofTitle chars
  rw [String.toList_ofList, List.all_eq_true]
  intro c hc
  have hmem := squeeze_subset _ hc
  unfold escapeChars at hmem
  exact (List.mem_filter.1 hmem).2

theorem all_nat (n : Nat) : (toString n).toList.all isSlugChar = true := by
  rw [List.all_eq_true]
  intro c hc
  have hdigit : c.isDigit = true := Nat.isDigit_of_mem_toDigits (b := 10) (n := n) (by decide) (by decide) (by simpa using hc)
  simp [isSlugChar, Char.isAlphanum, hdigit]

theorem all_append {a b : String} : (a ++ b).toList.all isSlugChar = true ↔
    a.toList.all isSlugChar = true ∧ b.toList.all isSlugChar = true := by
  rw [String.toList_append, List.all_append, Bool.and_eq_true]

theorem slash_notMem {s : String} (h : s.toList.all isSlugChar = true) : '/' ∉ s.toList :=
  fun hm => absurd (List.all_eq_true.1 h _ hm) (by decide)

theorem all_withDuplicate {s : String} (h : s.toList.all isSlugChar = true) (n : Option Nat) :
    (withDuplicate s n).toList.all isSlugChar = true := by
  cases n with
  | none => exact h
  | some n => exact all_append.2 ⟨all_append.2 ⟨h, by decide⟩, all_nat n⟩

end Slug

/-- **The link id of a level is a slug.** -/
theorem Heading.all_linkId (h : Heading) (stable : Bool) : (h.linkId stable).toList.all Slug.isSlugChar = true := by
  unfold Heading.linkId
  split
  · refine Slug.all_withDuplicate (Slug.all_append.2 ⟨?_, Slug.all_ofTitle h.title⟩) h.duplicate
    cases h.kind <;> decide
  · refine Slug.all_append.2 ⟨?_, Slug.all_nat h.step⟩
    cases h.kind <;> decide

/-! ## Chapters -/

namespace Layout

theorem headings_usedLevels : ∀ is : List Item, ((usedLevels is).map (·.heading)).Sublist (itemsHeadings is)
  | [] => .slnil
  | .topic _ :: is => headings_usedLevels is
  | .level h children :: is => by
    have hrest := headings_usedLevels is
    have hall : (itemsHeadings is).Sublist (itemsHeadings children ++ itemsHeadings is) := List.sublist_append_right _ _
    unfold usedLevels
    split
    · exact (hrest.trans hall).cons_cons h
    · exact (hrest.trans hall).cons h

/-- The chapters are among the levels of the outline, in document order. -/
theorem headings_chapters (root : Level) : ((chapters root).map (·.heading)).Sublist (itemsHeadings root.children) := by
  unfold chapters
  generalize root.children = is
  induction is with
  | nil => exact .slnil
  | cons i is ih =>
    cases i with
    | topic ref => exact ih
    | level h children =>
      have hown : ((chaptersIn ⟨h, children⟩).map (·.heading)).Sublist (h :: itemsHeadings children) := by
        unfold chaptersIn
        split
        · exact (headings_usedLevels children).cons h
        · exact (List.nil_sublist _).cons_cons h
      have hall : (itemsHeadings is).Sublist (h :: itemsHeadings children ++ itemsHeadings is) :=
        List.sublist_append_right _ _
      unfold usedLevels
      split
      · rw [List.flatMap_cons, List.map_append]
        exact hown.append ih
      · exact ih.trans hall

end Layout

namespace Draft

variable {σ : Type} {b : Bindery σ} {d : Draft} {s s' : Session σ}

/-! ## Files within the locale's folder -/

def chapterFiles (d : Draft) : List String :=
  (Layout.chapters d.outline).map fun l => Layout.chapterFile d.stable l.heading

/-- All files in the order in which they are written, given those of the topics. -/
def localFiles (d : Draft) (topics : List String) (images : List Image) : List String :=
  d.frontFiles ++ d.problemFiles ++ d.chapterFiles ++ topics ++ images.map (fun i => ImageRef.path i.name)
    ++ d.specFiles ++ [d.name ++ ".xml"]

theorem exists_paths_filterMap {es : List TopicEntry} {os : List (Option File)}
    (h : List.Forall₂ (fun e o => ∀ f ∈ o, f.path = d.topicPath e) es os) : ∃ topics : List String,
      topics.Sublist (es.map d.hrefOf) ∧ (os.filterMap id).map (·.path) = topics.map d.localePath := by
  induction h with
  | nil => exact ⟨[], .slnil, rfl⟩
  | @cons e o es os h _ ih =>
    obtain ⟨topics, hsub, hpaths⟩ := ih
    cases o with
    | none => exact ⟨topics, hsub.cons _, hpaths⟩
    | some f =>
      refine ⟨d.hrefOf e :: topics, hsub.cons_cons _, ?_⟩
      rw [List.map_cons, ← hpaths]
      exact congrArg (· :: _) (h f rfl)

/-- The files of topics are those of some references that end up in the book. -/
theorem exists_paths_topicFiles {fs : List File} (hrun : (topicFiles b d).Gives s fs s') : ∃ topics : List String,
    topics.Sublist (d.outlinedEntries.map d.hrefOf) ∧ fs.map (·.path) = topics.map d.localePath := by
  unfold topicFiles at hrun
  obtain ⟨preamble, _, -, hrun⟩ := hrun.bind
  obtain ⟨os, hos, rfl⟩ := hrun.map
  exact exists_paths_filterMap (hos.mapM.imp fun e o ⟨_, _, hgives⟩ => path_topicFile hgives)

/-- **Where a book's files are written.** -/
theorem paths_files {images : List Image} {fs : List File} (hrun : (d.files b images).Gives s fs s') :
    ∃ topics : List String, topics.Sublist (d.outlinedEntries.map d.hrefOf) ∧
      fs.map (·.path) = (d.name ++ "/publican.cfg") :: (d.localFiles topics images).map d.localePath := by
  obtain ⟨front, problems, chapters, topics, appendices, book, ⟨_, hfront⟩, ⟨_, _, hproblems⟩, ⟨_, _, hchapters⟩,
    ⟨_, _, htopics⟩, ⟨_, _, happendices⟩, ⟨_, _, hbook⟩, rfl⟩ := exists_parts hrun
  obtain ⟨names, hsub, hnames⟩ := exists_paths_topicFiles htopics
  have hchapters : chapters.map (·.path) = d.chapterFiles.map d.localePath := by
    rw [paths_mapM (fun _ _ _ _ h => path_chapter h) hchapters, chapterFiles, List.map_map]
    rfl
  have himages : (images.map d.imageFile).map (·.path) = (images.map fun i => ImageRef.path i.name).map d.localePath := by
    rw [List.map_map, List.map_map]
    rfl
  refine ⟨names, hsub, ?_⟩
  unfold localFiles
  simp only [List.map_append, List.map_cons, List.map_nil, List.cons_append, paths_frontMatter hfront,
    paths_problemChapters hproblems, hchapters, hnames, himages, paths_specAppendices happendices, path_bookFile hbook]

end Draft
end Bookbinder
