import Bookbinder.Proofs.BackMatterPages
import Bookbinder.Proofs.ContainedPaths
/-!
# The images of a book

Once its topics are worked out, the images that they show are looked up in the store.  A bound book has one image for
each name that a reference in it has, with the bytes that the first lookup under the name yields; what cannot be found
is a problem of its topic, and topics that do not end up in the book are not looked at (`Bindery.images_of_bind`).
-/
namespace Bookbinder

variable {σ : Type}

/-! ## Problems that are listed -/

namespace ProblemLog

variable {log : ProblemLog} {t : Topic} {p : Problem} {ds : List TopicProblems}

/-- Whether a report is listed with the problems of its topic. -/
def Lists (log : ProblemLog) (r : Remark) : Prop :=
  ∃ d ∈ log.topics, d.topic.topicId = r.topicId ∧ r.problem ∈ d.items

theorem subset_addNew (items : List Problem) (p : Problem) : items ⊆ addNew items p := by
  unfold addNew
  split
  · exact List.Subset.refl _
  · exact List.subset_append_left _ _

theorem mem_addNew (items : List Problem) (p : Problem) : p ∈ addNew items p := by
  unfold addNew
  split
  · rename_i h
    exact List.contains_iff_mem.1 h
  · exact List.mem_append_right _ (List.mem_singleton_self p)

theorem exists_mem_file (t : Topic) (p : Problem) :
    ∀ ds : List TopicProblems, ∃ d ∈ file t p ds, d.topic.topicId = t.sourceId ∧ p ∈ d.items
  | [] => ⟨_, List.mem_singleton_self _, rfl, List.mem_singleton_self p⟩
  | d :: ds => by
    unfold file
    split
    · rename_i hd
      exact ⟨_, List.mem_cons_self, hd, mem_addNew d.items p⟩
    · obtain ⟨d', hd', h⟩ := exists_mem_file t p ds
      exact ⟨d', List.mem_cons_of_mem d hd', h⟩

/-- What is listed of a topic stays listed. -/
theorem exists_file_of_mem {d : TopicProblems} (h : d ∈ ds) :
    ∃ d' ∈ file t p ds, d'.topic = d.topic ∧ d.items ⊆ d'.items := by
  induction ds with
  | nil => exact absurd h List.not_mem_nil
  | cons c ds ih =>
    unfold file
    rcases List.mem_cons.1 h with rfl | h
    · split
      · exact ⟨_, List.mem_cons_self, rfl, subset_addNew d.items p⟩
      · exact ⟨d, List.mem_cons_self, rfl, List.Subset.refl _⟩
    · split
      · exact ⟨d, List.mem_cons_of_mem _ h, rfl, List.Subset.refl _⟩
      · obtain ⟨d', hd', hsame⟩ := ih h
        exact ⟨d', List.mem_cons_of_mem c hd', hsame⟩

theorem Lists.add {r : Remark} (h : log.Lists r) (s : Severity) (t : Topic) (message : String) :
    (log.add s t message).Lists r := by
  obtain ⟨d, hd, hid, hitem⟩ := h
  obtain ⟨d', hd', htopic, hitems⟩ := exists_file_of_mem (t := t) (p := ⟨s, message⟩) hd
  exact ⟨d', hd', by rw [htopic, hid], hitems hitem⟩

theorem Lists.addAll {r : Remark} : ∀ {rs : List Remark} {log : ProblemLog}, log.Lists r → (log.addAll rs).Lists r
  | [], _, h => h
  | r' :: _, log, h => (show (log.add r'.severity r'.topic r'.message).Lists r from h.add _ _ _).addAll

/-- **What is reported is listed.** -/
theorem lists_addAll {r : Remark} {rs : List Remark} (h : r ∈ rs) : (log.addAll rs).Lists r := by
  obtain ⟨before, after, rfl⟩ := List.append_of_mem h
  have hnew : ((log.addAll before).add r.severity r.topic r.message).Lists r := exists_mem_file r.topic r.problem _
  rw [addAll_append]
  exact hnew.addAll

end ProblemLog

/-! ## Images and their files -/

/-- **An image's name has no backslash, whatever its place is said to be.** -/
theorem ImageName.backslash_notMem_ofReference (fileref : String) : '\\' ∉ (ofReference fileref).toList := by
  unfold ofReference
  dsimp only
  split
  · rename_i hsafe
    unfold isSafe at hsafe
    intro hm
    rw [List.contains_iff_mem.2 hm] at hsafe
    cases hsafe
  · decide

namespace Draft

variable {b : Bindery σ} {d d' : Draft} {s s' : Session σ}

/-- Images that are those of a draft as a store tells them, and the log once they are collected. -/
structure Illustrates (b : Bindery σ) (d : Draft) (start : σ) (log : ProblemLog) (images : List Image) : Prop where
  nodup : (images.map (·.name)).Nodup
  /-- The images have the names of the references in the topics of the book. -/
  names : ∀ name, name ∈ images.map (·.name) ↔ ∃ r ∈ d.imageRefs, r.name = name
  inward : ∀ i ∈ images, Archive.StaysInside i.name ∧ '\\' ∉ i.name.toList
  /-- An image is what the first lookup under its name yields. -/
  bytes : ∀ i ∈ images, ∃ a, (d.lookups b start).find? (fun a => a.ref.name == i.name) = some a ∧
    ∃ rs, a.Yields b.store start i.bytes rs
  /-- Every lookup yields something, and what is reported of it is listed. -/
  reported : ∀ a ∈ d.lookups b start, ∃ bytes rs, a.Yields b.store start bytes rs ∧ ∀ r ∈ rs, log.Lists r
  /-- Nothing else is added to the log. -/
  problems : ∃ rss, List.Forall₂ (fun a rs => ∃ bytes, a.Yields b.store start bytes rs) (d.lookups b start) rss ∧
    log = d.problems.addAll rss.flatten

theorem illustrates_collectImages {images : List Image} (hrun : (d.collectImages b).Gives s (d', images) s') :
    d.Illustrates b s.store d'.problems images := by
  have hgathers := gathers_collectImages hrun
  have hcollected := collected_images hrun
  have hrefs : (d.lookups b s.store).map (·.ref) = d.imageRefs := b.map_ref_lookups _ _
  refine ⟨hcollected.nodup, fun name => ?_, fun i hi => ?_, fun i hi => ?_, fun a ha => ?_, hgathers.problems⟩
  · rw [hgathers.names, ← hrefs]
    simp
  · obtain ⟨fileref, hname⟩ := hcollected.named i hi
    rw [hname]
    exact ⟨Archive.staysInside_ofReference fileref, ImageName.backslash_notMem_ofReference fileref⟩
  · exact ((hgathers.kept i hi).resolve_left List.not_mem_nil).2
  · obtain ⟨rss, hrss, hproblems⟩ := hgathers.problems
    obtain ⟨rs, hrs, bytes, hyields⟩ := exists_of_forall₂_left hrss ha
    refine ⟨bytes, rs, hyields, fun r hr => ?_⟩
    rw [hproblems]
    exact ProblemLog.lists_addAll (List.mem_flatten_of_mem hrs hr)

/-- **An image is found in the archive under its name**: what is written after it has other paths. -/
theorem bytes?_imageFile {images : List Image} {fs : List File} (hrun : (d.files b images).Gives s fs s')
    (hnodup : (images.map (·.name)).Nodup) {i : Image} (hi : i ∈ images) :
    (Archive.ofFiles fs).bytes? (d.localePath (ImageRef.path i.name)) = some i.bytes := by
  obtain ⟨front, problems, chapters, topics, appendices, book, -, -, -, -, ⟨_, _, happendices⟩, ⟨_, _, hbook⟩, rfl⟩ :=
    exists_parts hrun
  obtain ⟨before, after, rfl⟩ := List.append_of_mem hi
  have hpage (page : String) (hslash : '/' ∉ page.toList) : ImageRef.path i.name ≠ page ++ ".xml" := by
    intro he
    have hkind := fileKind_image i.name
    rw [he, fileKind_page hslash] at hkind
    exact absurd hkind (by decide)
  have hlater : (d.imageFile i).path ∉ (after.map d.imageFile ++ appendices ++ [book]).map (·.path) := by
    rw [List.map_append, List.map_append, List.mem_append, List.mem_append, List.map_map,
      paths_specAppendices happendices, List.map_singleton, List.mem_singleton, path_bookFile hbook]
    rintro ((hm | hm) | he)
    · obtain ⟨i', hi', he⟩ := List.mem_map.1 hm
      rw [List.map_append, List.map_cons] at hnodup
      have hname : i'.name = i.name := path_injective (localePath_inj he)
      exact (List.nodup_cons.1 (List.nodup_append.1 hnodup).2.1).1 (List.mem_map.2 ⟨i', hi', hname⟩)
    · obtain ⟨file, hfile, he⟩ := List.mem_map.1 hm
      unfold specFiles at hfile
      split at hfile
      · exact absurd hfile List.not_mem_nil
      · rw [List.mem_singleton.1 hfile] at he
        exact hpage "Build_Content_Specification" (by decide) (localePath_inj he).symm
    · exact hpage d.name d.slash_notMem_name (localePath_inj he)
  have hsplit : front ++ problems ++ chapters ++ topics ++ (before ++ i :: after).map d.imageFile ++ appendices
        ++ [book] = (front ++ problems ++ chapters ++ topics ++ before.map d.imageFile)
        ++ d.imageFile i :: (after.map d.imageFile ++ appendices ++ [book]) := by
    simp only [List.map_append, List.map_cons, List.append_assoc, List.cons_append]
  rw [hsplit]
  exact Archive.bytes?_of_last _ hlater

end Draft

/-! ## Bound books -/

namespace Bindery

variable {b : Bindery σ} {spec : ContentSpec} {settings : Settings} {requester : Option String} {s s' : Session σ}

/-- A draft of a book in which every reference is worked out and no image has been moved yet. -/
def workOut (b : Bindery σ) (spec : ContentSpec) (settings : Settings) (requester : Option String) : Press σ Draft := do
  if let some fault := settings.fault? then throw (.settings fault)
  Press.check
  let d ← b.draft spec settings requester
  let d ← d.readTopics b
  d.processReferences b

theorem prepare_eq (b : Bindery σ) (spec : ContentSpec) (settings : Settings) (requester : Option String) :
    b.prepare spec settings requester = b.workOut spec settings requester >>= fun d => d.collectImages b := by
  rw [prepare, workOut]
  cases settings.fault? with
  | some fault => rfl
  | none => simp only [bind_assoc]

/-- **Which images a book has.**  A book is bound by working out its references, collecting its images and printing its
files.  The images have the names of the references in topics that end up in the book, none of which leads out of the
folder of images.  Each is found there with the bytes that the store has for the id in its name, or else with those of
the placeholder; and every reference without an id, or with one that the store does not know, is listed as an error of
its topic. -/
theorem images_of_bind {book : Book} (hbind : (b.bind spec settings requester).Gives s book s') :
    ∃ d₀ s₀ d images t, (b.workOut spec settings requester).Gives s d₀ s₀ ∧
      (d₀.collectImages b).Gives s₀ (d, images) t ∧ (b.print (d, images)).Gives t book s' ∧
      d₀.Illustrates b s₀.store d.problems images ∧
      ∀ i ∈ images, book.archive.bytes? (d.localePath (ImageRef.path i.name)) = some i.bytes := by
  have hrun := hbind
  rw [bind_eq] at hrun
  obtain ⟨⟨d, images⟩, t, hprepare, hprint⟩ := hrun.bind
  obtain ⟨fs, t', hfiles, harchive⟩ := exists_files_of_bind hbind hprepare
  rw [prepare_eq] at hprepare
  obtain ⟨d₀, s₀, hwork, hcollect⟩ := hprepare.bind
  have hillustrates := Draft.illustrates_collectImages hcollect
  refine ⟨d₀, s₀, d, images, t, hwork, hcollect, hprint, hillustrates, fun i hi => ?_⟩
  rw [harchive]
  exact Draft.bytes?_imageFile hfiles hillustrates.nodup hi

/-- A store with the image 7 and two topics that show images, of which the first shows one that there is, one that
there is not, and one outside the folder of images. -/
def illustrated : Session MemoryStore where
  store := (sampleSession ("<section><imagedata fileref=\"images/7.png\"/><imagedata fileref=\"8.png\"/>"
    ++ "<imagedata fileref=\"../7.png\"/></section>") "<section><imagedata fileref=\"9.png\"/></section>").store.addImage
      7 "seven".toUTF8

/-- A book with a chapter of the first topic, and the second outside all chapters. -/
def looseSpec : ContentSpec :=
  sampleSpec [.topic (.ofTopic 2 "B"), .level { kind := .chapter, title := "Guide" } [.topic (.ofTopic 1 "A")]]

/-- The book has an image for each reference of the first topic, two of them the placeholder, and none for the
second. -/
theorem images_of_illustrated : ∃ book s' d₀ s₀ d images t,
    (sample.bind looseSpec sampleSettings none).Gives illustrated book s' ∧
    (sample.workOut looseSpec sampleSettings none).Gives illustrated d₀ s₀ ∧
    (d₀.collectImages sample).Gives s₀ (d, images) t ∧ d₀.Illustrates sample s₀.store d.problems images ∧
    images.map (fun i => (i.name, i.bytes)) = [("7.png", "seven".toUTF8), ("8.png", "failpenguin".toUTF8),
      ("failpenguin.png", "failpenguin".toUTF8)] ∧
    d.problems.topics.map (fun p => p.items.map (·.severity)) = [[.error, .error]] ∧
    ∀ i ∈ images, book.archive.bytes? (d.localePath (ImageRef.path i.name)) = some i.bytes := by
  have hruns : ∃ book d images s' t, (sample.bind looseSpec sampleSettings none).Gives illustrated book s' ∧
      (sample.prepare looseSpec sampleSettings none).Gives illustrated (d, images) t ∧
      (images.map (fun i => (i.name, i.bytes)) = [("7.png", "seven".toUTF8), ("8.png", "failpenguin".toUTF8),
        ("failpenguin.png", "failpenguin".toUTF8)] ∧
      d.problems.topics.map (fun p => p.items.map (·.severity)) = [[.error, .error]]) ∧ True :=
    exists_bound_showing (P := fun p => p.2.map (fun i => (i.name, i.bytes)) = [("7.png", "seven".toUTF8),
      ("8.png", "failpenguin".toUTF8), ("failpenguin.png", "failpenguin".toUTF8)] ∧
      p.1.problems.topics.map (fun p => p.items.map (·.severity)) = [[.error, .error]]) (Q := fun _ _ => True)
      (by decide +kernel)
  obtain ⟨book, d, images, s', t, hbind, hprepare, ⟨himages, hproblems⟩, -⟩ := hruns
  obtain ⟨d₀, s₀, d', images', t', hwork, hcollect, -, hillustrates, hbytes⟩ := images_of_bind hbind
  rw [prepare_eq] at hprepare
  obtain ⟨he, rfl⟩ := hprepare.unique (hwork.andThen hcollect)
  cases he
  exact ⟨book, s', d₀, s₀, d, images, t, hbind, hwork, hcollect, hillustrates, himages, hproblems, hbytes⟩

end Bindery
end Bookbinder
