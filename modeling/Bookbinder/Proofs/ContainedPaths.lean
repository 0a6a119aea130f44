import Bookbinder.Proofs.DistinctPaths
import Bookbinder.Proofs.Placeholders
/-!
# Paths that stay in the archive

A path leads out of the archive, or to no file at all, if one of its steps is empty, `.` or `..`.  Every name that the
files of a book are put together from excludes that, except the book's own name, which is its title with nothing but
safe characters left: a title of two dots, or of no safe characters, leads out (`staysInside_iff`).
-/
namespace Bookbinder

/-! ## Steps of paths -/

namespace Archive

/-- A step of a path that leads to something in the folder where it starts. -/
def IsInward (step : List Char) : Prop :=
  step ≠ [] ∧ step ≠ ['.'] ∧ step ≠ ['.', '.']

instance : DecidablePred IsInward :=
  fun _ => inferInstanceAs (Decidable (_ ∧ _))

/-- A path all of whose steps lead further in. -/
def StaysInside (path : String) : Prop :=
  ∀ step ∈ Text.splitAt '/' path.toList, IsInward step

instance : DecidablePred StaysInside :=
  fun _ => inferInstanceAs (Decidable (∀ _ ∈ _, _))

theorem staysInside_join {a c : String} : StaysInside (a ++ "/" ++ c) ↔ StaysInside a ∧ StaysInside c := by
  have hpath : (a ++ "/" ++ c).toList = a.toList ++ '/' :: c.toList := by simp
  unfold StaysInside
  rw [hpath, Text.splitAt_append_cons, List.forall_mem_append]

/-- A path of one step. -/
theorem staysInside_iff_of_notMem {a : String} (h : '/' ∉ a.toList) : StaysInside a ↔ IsInward a.toList := by
  unfold StaysInside
  rw [Text.splitAt_of_notMem h, List.forall_mem_singleton]

theorem isInward_append {a : List Char} {ending : List Char} (h : 2 < ending.length) : IsInward (a ++ ending) := by
  have hlength : 2 < (a ++ ending).length := by
    rw [List.length_append]
    omega
  refine ⟨fun he => ?_, fun he => ?_, fun he => ?_⟩ <;> simp [he] at hlength

/-- The name of a file with an ending. -/
theorem staysInside_append {a ending : String} (ha : '/' ∉ a.toList) (hending : '/' ∉ ending.toList)
    (h : 2 < ending.toList.length) : StaysInside (a ++ ending) := by
  have hslash : '/' ∉ (a ++ ending).toList := slash_notMem_append.2 ⟨ha, hending⟩
  rw [staysInside_iff_of_notMem hslash, String.toList_append]
  exact isInward_append h

theorem staysInside_xml {a : String} (ha : '/' ∉ a.toList) : StaysInside (a ++ ".xml") :=
  staysInside_append ha (by decide) (by decide)

/-- **An image is stored in the folder of images, whatever its place is said to be.** -/
theorem staysInside_ofReference (fileref : String) : StaysInside (ImageName.ofReference fileref) := by
  unfold ImageName.ofReference
  dsimp only
  split
  · rename_i hsafe
    unfold ImageName.isSafe at hsafe
    rw [Bool.and_eq_true, List.all_eq_true] at hsafe
    intro step hstep
    have hstep := hsafe.2 step hstep
    simpa [IsInward, and_assoc] using hstep
  · decide

end Archive

/-! ## Addresses -/

namespace Topic

/-- Whether a topic's address, if it has one in force, is free of slashes, as slugs are. -/
def HasPlainAddress (t : Topic) : Prop :=
  ∀ a ∈ t.address?, '/' ∉ a.toList

instance (t : Topic) : Decidable t.HasPlainAddress :=
  inferInstanceAs (Decidable (∀ a ∈ t.address?, '/' ∉ a.toList))

theorem HasPlainAddress.of_properties {t u : Topic} (h : t.HasPlainAddress) (hu : t.properties = u.properties) :
    u.HasPlainAddress := by
  unfold HasPlainAddress address? at h ⊢
  rwa [← hu]

end Topic

theorem Slug.all_int (n : Int) : (toString n).toList.all isSlugChar = true := by
  cases n with
  | ofNat n => exact all_nat n
  | negSucc n =>
    rw [toList_negSucc, List.all_cons, all_nat]
    rfl

theorem slash_notMem_withDuplicate {s : String} (h : '/' ∉ s.toList) (n : Option Nat) :
    '/' ∉ (withDuplicate s n).toList := by
  cases n with
  | none => exact h
  | some n =>
    exact slash_notMem_append.2 ⟨slash_notMem_append.2 ⟨h, by decide⟩, Slug.slash_notMem (Slug.all_nat n)⟩

theorem Topic.slash_notMem_xrefId (t : Topic) : '/' ∉ t.xrefId.toList :=
  slash_notMem_append.2 ⟨by decide, Slug.slash_notMem (Slug.all_int t.sourceId)⟩

theorem Topic.HasPlainAddress.linkId {t : Topic} (h : t.HasPlainAddress) (stable : Bool) :
    '/' ∉ (t.linkId stable).toList := by
  unfold Topic.linkId
  cases ha : t.address? with
  | none => exact t.slash_notMem_xrefId
  | some a =>
    cases stable with
    | true => exact h a ha
    | false => exact t.slash_notMem_xrefId

theorem TopicEntry.slash_notMem_linkId {e : TopicEntry} (h : ∀ t ∈ e.topic, t.HasPlainAddress) (stable : Bool) :
    '/' ∉ (e.linkId stable).toList := by
  unfold TopicEntry.linkId
  apply slash_notMem_withDuplicate
  cases ht : e.topic with
  | none => exact slash_notMem_append.2 ⟨by decide, Slug.slash_notMem (Slug.all_int e.ref.topicId)⟩
  | some t => exact (h t ht).linkId stable

namespace Address

/-- An address that a build gives to a topic is a slug. -/
theorem all_candidate (t : Topic) (n : Nat) : (candidate (base t) n).toList.all Slug.isSlugChar = true := by
  have hbase : (base t).toList.all Slug.isSlugChar = true := by
    unfold base
    dsimp only
    split
    · exact Slug.all_append.2 ⟨by decide, Slug.all_int t.id⟩
    · exact Slug.all_ofTitle t.title
  cases n with
  | zero => exact hbase
  | succ n => exact Slug.all_append.2 ⟨hbase, Slug.all_nat (n + 1)⟩

theorem eq_of_mem_address?_give {address a : String} {t : Topic} (h : a ∈ (give address t).address?) : a = address := by
  obtain ⟨p, hp, rfl⟩ := Option.map_eq_some_iff.1 h
  have haddress : Topic.isAddress p = true := List.find?_some hp
  rcases List.mem_append.1 (List.mem_of_find?_eq_some hp) with hkept | hadded
  · have hother : p.id ≠ PropertyId.address := bne_iff_ne.1 (List.mem_filter.1 hkept).2
    unfold Topic.isAddress at haddress
    simp [hother] at haddress
  · rw [List.mem_singleton.1 hadded]
    rfl

theorem Tried.giveGranted {grants : List Grant} (h : Tried grants) (id : Int) {t : Topic} (ht : t.HasPlainAddress) :
    (giveGranted grants id t).HasPlainAddress := by
  unfold Address.giveGranted
  cases hgranted : granted? grants id with
  | none => exact ht
  | some address =>
    obtain ⟨g, hg, rfl⟩ := Option.map_eq_some_iff.1 hgranted
    obtain ⟨n, hn⟩ := h g (List.mem_reverse.1 (List.mem_of_find?_eq_some hg))
    intro a ha
    rw [eq_of_mem_address?_give ha, hn]
    exact Slug.slash_notMem (all_candidate g.1 n)

theorem Tried.apply {grants : List Grant} (h : Tried grants) {t : Topic} (ht : t.HasPlainAddress) :
    (apply grants t).HasPlainAddress :=
  (h.giveGranted t.id ht).of_properties rfl

end Address

/-! ## Topics that a store delivers -/

namespace Bindery

variable {σ : Type} {b : Bindery σ} {spec : ContentSpec} {settings : Settings} {requester : Option String}

/-- What holds of all topics that a build gets from its store: of those that it asks for, of their translations, and of
the topics that it comes across when it makes placeholders for translations. -/
structure Delivers (b : Bindery σ) (s : Session σ) (P : Topic → Prop) : Prop where
  topics : ∀ ids ts, (b.store.topics ids s.store).result = .ok ts → ∀ t ∈ ts, P t
  translations : ∀ ids locale ts, (b.store.translations ids locale s.store).result = .ok ts → ∀ t ∈ ts, P t
  sources : ∀ ids locale ids' ts, (b.store.topics ids' (b.store.translations ids locale s.store).state).result = .ok ts →
    ∀ t, Translation.Met ts t → P t

theorem delivers_of_memory {b : Bindery MemoryStore} (hstore : b.store = MemoryStore.store) {s : Session MemoryStore}
    {P : Topic → Prop} (htopics : ∀ t, Translation.Met s.store.topics t → P t)
    (htranslations : ∀ t ∈ s.store.translations, P t) : b.Delivers s P := by
  have hstored (ids : List Int) : ∀ t ∈ ids.filterMap s.store.topic?, t ∈ s.store.topics := by
    intro t ht
    obtain ⟨id, -, ht⟩ := List.mem_filterMap.1 ht
    exact List.mem_of_find?_eq_some ht
  constructor
  · intro ids ts hresult t ht
    rw [hstore] at hresult
    cases hresult
    exact htopics t (.source (hstored ids t ht))
  · intro ids locale ts hresult t ht
    rw [hstore] at hresult
    cases hresult
    obtain ⟨id, -, ht⟩ := List.mem_filterMap.1 ht
    exact htranslations t (List.mem_of_find?_eq_some ht)
  · intro ids locale ids' ts hresult t hmet
    rw [hstore] at hresult
    cases hresult
    refine htopics t ?_
    induction hmet with
    | source h => exact .source (hstored ids' _ h)
    | copy _ hc ih => exact ih.copy hc

end Bindery

namespace Translation

variable {σ : Type} {s s' : Session σ}

theorem eq_addAll_of_gives {locale : String} : ∀ {ids : List Int} {w w' : Work} {s : Session σ},
    (addSources locale ids w).Gives s w' s' → w' = addAll locale ids w
  | [], _, _, _, h => h.pure.1
  | id :: ids, w, _, _, h => by
    unfold addSources at h
    obtain ⟨_, s₁, -, hrest⟩ := h.bind
    exact eq_addAll_of_gives (w := addSource locale id w) hrest

end Translation

namespace Bindery

variable {σ : Type} {b : Bindery σ} {spec : ContentSpec} {settings : Settings} {requester : Option String}
  {s s' : Session σ}

theorem Delivers.fetchTopics (h : b.Delivers s Topic.HasPlainAddress) {ids : List Int} {ts : List Topic} {stable : Bool}
    (hrun : (b.fetchTopics settings ids).Gives s (ts, stable) s') : ∀ t ∈ ts, t.HasPlainAddress := by
  obtain ⟨found, s₁, gathered, hfound, hfrom, hgiven⟩ := exists_gathered_of_fetchTopics hrun
  have hgathered : ∀ t ∈ gathered, t.HasPlainAddress := by
    intro t ht
    obtain ⟨id, -, hin, -⟩ := exists_of_forall₂_right hfrom ht
    exact h.topics ids found hfound.ask.1 t hin
  rcases hgiven with rfl | ⟨grants, htried, rfl⟩
  · exact hgathered
  · exact List.forall_mem_map.2 fun t ht => htried.apply (hgathered t ht)

theorem Delivers.fetchTranslations (h : b.Delivers s Topic.HasPlainAddress) {ids : List Int} {locale : String}
    {ts : List Topic} (hrun : (Translation.fetch b.store ids locale).Gives s ts s') : ∀ t ∈ ts, t.HasPlainAddress := by
  obtain ⟨found, s₁, w, hfound, htaken, hwork⟩ := Translation.exists_work_of_fetch hrun
  obtain ⟨hresult, rfl⟩ := hfound.ask
  have hknown : ∀ t ∈ found, t.HasPlainAddress := h.translations ids locale found hresult
  intro t ht
  obtain ⟨id, -, hfind⟩ := exists_of_forall₂_right htaken ht
  have hdone : t ∈ w.done := List.mem_of_find?_eq_some hfind
  rcases hwork with rfl | ⟨sources, s₂, s₃, hsources, hadd⟩
  · exact hknown t hdone
  · cases Translation.eq_addAll_of_gives hadd
    -- What is made up for a missing translation has the address of the topic that it is made from.
    have hgrows : Translation.Work.Grows sources ⟨found, Translation.lastOfEach sources⟩
        (Translation.addAll locale (Translation.missingIds found ids) ⟨found, Translation.lastOfEach sources⟩) :=
      Translation.grows_addAll _ fun t ht => .source (Translation.mem_of_mem_lastOfEach t ht)
    rcases hgrows.met t hdone with hin | ⟨-, source, hmet, -, hproperties⟩
    · exact hknown t hin
    · exact (h.sources ids locale _ sources hsources.ask.1 source hmet).of_properties hproperties

/-- **A book's topics have plain addresses if the store's have**, since those that the build gives are slugs. -/
theorem Delivers.fetch (h : b.Delivers s Topic.HasPlainAddress) {ids : List Int} {locale : String} {ts : List Topic}
    {stable : Bool} (hrun : (b.fetch settings ids locale).Gives s (ts, stable) s') : ∀ t ∈ ts, t.HasPlainAddress := by
  unfold Bindery.fetch at hrun
  split at hrun
  · exact h.fetchTopics hrun
  · obtain ⟨topics, hfetch, he⟩ := hrun.map
    cases he
    exact h.fetchTranslations hfetch

end Bindery

/-! ## Paths of a book's files -/

namespace Draft

open Archive

variable {σ : Type} {b : Bindery σ} {d : Draft} {s s' : Session σ}

theorem staysInside_frontFiles (d : Draft) : ∀ file ∈ d.frontFiles, StaysInside file := by
  have hfixed : ∀ file ∈ ["Book_Info.xml", "Author_Group.xml", "Preface.xml", "Revision_History.xml"],
      StaysInside file := by decide
  have hassets : ∀ file ∈ d.assetFiles, StaysInside file := by
    unfold assetFiles
    split <;> decide
  refine List.forall_mem_append.2 ⟨List.forall_mem_append.2 ⟨hfixed, ?_⟩, hassets⟩
  exact List.forall_mem_singleton.2 (staysInside_append d.slash_notMem_name (by decide) (by decide))

theorem staysInside_hrefOf {e : TopicEntry} (h : '/' ∉ (e.linkId d.stable).toList) : StaysInside (d.hrefOf e) := by
  have hpath : d.hrefOf e = "topics" ++ "/" ++ (e.linkId d.stable ++ ".xml") := by
    apply String.toList_inj.1
    simp [hrefOf, Layout.topicFile]
  rw [hpath]
  exact staysInside_join.2 ⟨by decide, staysInside_xml h⟩

theorem staysInside_image (fileref : String) : StaysInside (ImageRef.path (ImageName.ofReference fileref)) := by
  change StaysInside ("images" ++ "/" ++ ImageName.ofReference fileref)
  exact staysInside_join.2 ⟨by decide, staysInside_ofReference fileref⟩

theorem staysInside_localFiles {topics : List String} {images : List Image}
    (htopics : topics.Sublist (d.outlinedEntries.map d.hrefOf))
    (hlinks : ∀ e ∈ d.registry.entries, '/' ∉ (e.linkId d.stable).toList) (himages : Collected images) :
    ∀ file ∈ d.localFiles topics images, StaysInside file := by
  have hproblems : ∀ file ∈ d.problemFiles, StaysInside file := by
    unfold problemFiles
    split <;> decide
  have hspecs : ∀ file ∈ d.specFiles, StaysInside file := by
    unfold specFiles
    split <;> decide
  have hchapters : ∀ file ∈ d.chapterFiles, StaysInside file :=
    List.forall_mem_map.2 fun l _ => staysInside_xml (Slug.slash_notMem (l.heading.all_linkId d.stable))
  have htopicFiles : ∀ file ∈ topics, StaysInside file := by
    intro file hfile
    obtain ⟨e, he, rfl⟩ := List.mem_map.1 (htopics.subset hfile)
    exact staysInside_hrefOf (hlinks e (List.mem_of_mem_filter he))
  have himageFiles : ∀ file ∈ images.map (fun i => ImageRef.path i.name), StaysInside file := by
    refine List.forall_mem_map.2 fun i hi => ?_
    obtain ⟨fileref, hname⟩ := himages.named i hi
    rw [hname]
    exact staysInside_image fileref
  have hbook : ∀ file ∈ [d.name ++ ".xml"], StaysInside file :=
    List.forall_mem_singleton.2 (staysInside_xml d.slash_notMem_name)
  unfold localFiles
  simp only [List.forall_mem_append]
  exact ⟨⟨⟨⟨⟨⟨d.staysInside_frontFiles, hproblems⟩, hchapters⟩, htopicFiles⟩, himageFiles⟩, hspecs⟩, hbook⟩

/-- **The files of a book stay in the archive if the book's name does.** -/
theorem staysInside_files_iff {images : List Image} {fs : List File} (hrun : (d.files b images).Gives s fs s')
    (hlocale : StaysInside d.locale) (hlinks : ∀ e ∈ d.registry.entries, '/' ∉ (e.linkId d.stable).toList)
    (himages : Collected images) : (∀ path ∈ fs.map (·.path), StaysInside path) ↔ StaysInside d.name := by
  obtain ⟨topics, htopics, hpaths⟩ := paths_files hrun
  have hconfig : d.name ++ "/publican.cfg" = d.name ++ "/" ++ "publican.cfg" := by
    apply String.toList_inj.1
    simp
  rw [hpaths, List.forall_mem_cons, hconfig, staysInside_join]
  constructor
  · exact fun h => h.1.1
  · refine fun hname => ⟨⟨hname, by decide⟩, List.forall_mem_map.2 fun file hfile => ?_⟩
    exact staysInside_join.2 ⟨staysInside_join.2 ⟨hname, hlocale⟩, staysInside_localFiles htopics hlinks himages file hfile⟩

theorem staysInside_name_iff (d : Draft) : StaysInside d.name ↔ Slug.escape d.spec.title ∉ ["", ".", ".."] := by
  rw [staysInside_iff_of_notMem d.slash_notMem_name]
  unfold IsInward name
  have hne (text : String) : (Slug.escape d.spec.title).toList ≠ text.toList ↔ Slug.escape d.spec.title ≠ text :=
    not_congr String.toList_inj
  simpa using and_congr (hne "") (and_congr (hne ".") (hne ".."))

end Draft

namespace Bindery

open Archive

variable {σ : Type} {b : Bindery σ} {spec : ContentSpec} {settings : Settings} {requester : Option String}
  {s s' : Session σ}

/-- The link ids of a prepared book hold no slash if the store's addresses hold none. -/
theorem slash_notMem_linkId {d : Draft} {images : List Image} (hstore : b.Delivers s Topic.HasPlainAddress)
    (hprepare : (b.prepare spec settings requester).Gives s (d, images) s') :
    ∀ e ∈ d.registry.entries, '/' ∉ (e.linkId d.stable).toList := by
  obtain ⟨d₀, s₀, hdraft, -, htopics, -⟩ := exists_draft_of_prepare hprepare
  obtain ⟨-, -, hfetch⟩ := exists_fetch_of_draft hdraft
  exact fun e he => TopicEntry.slash_notMem_linkId (fun t ht => hstore.fetch hfetch t (htopics e he t ht)) d.stable

/-- **Which books stay in their archives.**  Where the language is a proper name of a folder and the store's addresses
are slugs, the files of a bound book lead nowhere outside the archive, whatever the titles and the images' places are,
if and only if the book's title does not become empty, `.` or `..` when it is made safe. -/
theorem staysInside_iff {book : Book} (hbind : (b.bind spec settings requester).Gives s book s')
    (hlocale : StaysInside (localeOf spec settings)) (hstore : b.Delivers s Topic.HasPlainAddress) :
    (∀ path ∈ book.archive.paths, StaysInside path) ↔ Slug.escape spec.title ∉ ["", ".", ".."] := by
  have hrun := hbind
  rw [bind_eq] at hrun
  obtain ⟨⟨d, images⟩, t, hprepare, -⟩ := hrun.bind
  obtain ⟨fs, t', hfiles, harchive⟩ := exists_files_of_bind hbind hprepare
  obtain ⟨d₀, s₀, hdraft, hfollows, -, himages⟩ := exists_draft_of_prepare hprepare
  have hbegins := begins_draft hdraft
  have hfolder : StaysInside d.locale := by
    rw [hfollows.locale, hbegins.locale]
    exact hlocale
  have hpaths : (∀ path ∈ book.archive.paths, StaysInside path) ↔ ∀ path ∈ fs.map (·.path), StaysInside path := by
    rw [harchive]
    exact forall_congr' fun path => by rw [Draft.mem_paths_ofFiles]
  rw [hpaths, Draft.staysInside_files_iff hfiles hfolder (slash_notMem_linkId hstore hprepare) himages,
    d.staysInside_name_iff, hfollows.spec, hbegins.spec]

/-- A topic that has an address and shows an image. -/
def addressedTopic (address fileref : String) : Topic :=
  { Topic.ofText 1 "A" ("<section><imagedata fileref=\"" ++ fileref ++ "\"/></section>") with
    properties := [Address.property address] }

def addressed (address fileref : String) : Session MemoryStore where
  store := { MemoryStore.sample with
    topics := Topic.relateIn [addressedTopic address fileref, .ofText 2 "B" "<section/>"] 1 2 }

/-- A reference to an image outside the book, in a book whose title has a slash and dots. -/
theorem staysInside_of_slashes : ∃ book s', StaysInside (localeOf (titled "../Book") sampleSettings) ∧
    sample.Delivers (addressed "A-1" "images/../../7.png") Topic.HasPlainAddress ∧
    (sample.bind (titled "../Book") sampleSettings none).Gives (addressed "A-1" "images/../../7.png") book s' ∧
    ∀ path ∈ book.archive.paths, StaysInside path := by
  have hpasses : (sample.bind (titled "../Book") sampleSettings none).passes (addressed "A-1" "images/../../7.png")
      (fun _ _ => true) = true := by decide +kernel
  obtain ⟨book, s', hbind, -⟩ := Press.exists_of_passes hpasses
  have hlocale : StaysInside (localeOf (titled "../Book") sampleSettings) := by decide +kernel
  have hflat : ∀ t ∈ (addressed "A-1" "images/../../7.png").store.topics, ∀ c ∈ t.copies, c.copies = [] := by
    decide +kernel
  have hplain : ∀ t ∈ (addressed "A-1" "images/../../7.png").store.topics,
      t.HasPlainAddress ∧ ∀ c ∈ t.copies, c.HasPlainAddress := by decide +kernel
  have hstore : sample.Delivers (addressed "A-1" "images/../../7.png") Topic.HasPlainAddress := by
    refine delivers_of_memory rfl (fun t hmet => ?_) fun t ht => absurd ht List.not_mem_nil
    rcases hmet.mem_of_flat hflat with ht | ⟨u, hu, ht⟩
    · exact (hplain t ht).1
    · exact (hplain u hu).2 t ht
  exact ⟨book, s', hlocale, hstore, hbind, (staysInside_iff hbind hlocale hstore).2 (by decide +kernel)⟩

/-- A book with two dots for its title is written beside its archive. -/
theorem not_staysInside_of_dots : ∃ book s', StaysInside (localeOf (titled "..") sampleSettings) ∧
    (∀ t ∈ mixedSession.store.topics, t.HasPlainAddress ∧ ∀ c ∈ t.copies, c.HasPlainAddress) ∧
    (sample.bind (titled "..") sampleSettings none).Gives mixedSession book s' ∧
    "../publican.cfg" ∈ book.archive.paths ∧ ¬ StaysInside "../publican.cfg" := by
  have hpasses : (sample.bind (titled "..") sampleSettings none).passes mixedSession
      (fun book _ => book.archive.paths.contains "../publican.cfg") = true := by decide +kernel
  obtain ⟨book, s', hbind, hpath⟩ := Press.exists_of_passes hpasses
  exact ⟨book, s', by decide +kernel, by decide +kernel, hbind, List.contains_iff_mem.1 hpath, by decide⟩

end Bindery
end Bookbinder
