import Bookbinder.Proofs.BookFiles
import Bookbinder.Proofs.OutlinePages
/-!
# Ids of sections

What the cross references of a book can lead to: the sections of its topics, and the elements that the files of its
outline show.  Both are known from the draft (`mem_sectionIds_iff`): a reference shows its link id if it is published,
and a level if it holds a reference and its file is not written over.
-/
namespace Bookbinder

open Xml (Element Writes)

namespace Text

theorem escapeChar_append_inj {c d : Char} {r r' : List Char} (h : escapeChar c ++ r = escapeChar d ++ r') :
    c = d ∧ r = r' := by
  unfold escapeChar at h
  split at h <;> split at h <;> simp only [List.cons_append, List.nil_append, List.cons.injEq] at h <;> grind

theorem escapeChar_ne_nil (c : Char) : escapeChar c ≠ [] := by
  unfold escapeChar
  split <;> exact List.cons_ne_nil _ _

theorem escapeChars_inj : ∀ {cs ds : List Char}, escapeChars cs = escapeChars ds → cs = ds
  | [], [], _ => rfl
  | [], d :: ds, h => absurd (List.append_eq_nil_iff.1 h.symm).1 (escapeChar_ne_nil d)
  | c :: cs, [], h => absurd (List.append_eq_nil_iff.1 h).1 (escapeChar_ne_nil c)
  | c :: cs, d :: ds, h => by
    have hcons : escapeChar c ++ escapeChars cs = escapeChar d ++ escapeChars ds := h
    obtain ⟨rfl, hr⟩ := escapeChar_append_inj hcons
    rw [escapeChars_inj hr]

theorem escape_injective : Function.Injective escape := fun _ _ h =>
  String.toList_inj.1 (escapeChars_inj (String.ofList_injective h))

end Text

/-- The id of the element that a file begins with. -/
def File.rootId? (f : File) : Option String :=
  f.tags.head?.bind (·.attribute? "id")

/-! ## Outlines as they are shown -/

theorem LevelKind.isName_element (k : LevelKind) : Xml.isName k.element = true := by
  cases k <;> decide

namespace Layout

mutual

theorem named_itemNodes (r : Registry) (stable : Bool) : ∀ i : Item, outlineNamed (itemNodes r stable i)
  | .topic _ => ⟨trivial, trivial⟩
  | .level h children => by
    rw [itemNodes]
    split
    · exact ⟨⟨h.kind.isName_element, named_nodes r stable children⟩, trivial⟩
    · exact trivial

theorem named_nodes (r : Registry) (stable : Bool) : ∀ is : List Item, outlineNamed (nodes r stable is)
  | [] => trivial
  | i :: is => by
    rw [nodes, outlineNamed_iff]
    intro n hn
    rcases List.mem_append.1 hn with hn | hn
    · exact outlineNamed_iff.1 (named_itemNodes r stable i) n hn
    · exact outlineNamed_iff.1 (named_nodes r stable is) n hn

end

theorem named_topNode (stable : Bool) (l : Level) : (topNode stable l).Named := by
  rw [topNode]
  split
  · refine ⟨l.heading.kind.isName_element, outlineNamed_iff.2 fun n hn => ?_⟩
    obtain ⟨c, -, rfl⟩ := List.mem_map.1 hn
    trivial
  · trivial

end Layout

namespace Draft

variable {d : Draft}

theorem named_bookNodes (d : Draft) : outlineNamed d.bookNodes := by
  refine outlineNamed_iff.2 fun n hn => ?_
  simp only [bookNodes, List.mem_append] at hn
  rcases hn with (hn | hn) | hn
  · split at hn
    · exact absurd hn List.not_mem_nil
    · rw [List.mem_singleton.1 hn]
      trivial
  · obtain ⟨l, -, rfl⟩ := List.mem_map.1 hn
    exact Layout.named_topNode d.stable l
  · split at hn
    · exact absurd hn List.not_mem_nil
    · rw [List.mem_singleton.1 hn]
      trivial

/-- The pages of problems and of the specification are only included. -/
theorem outlineIds_bookNodes (d : Draft) :
    outlineIds d.bookNodes = outlineIds (Layout.topNodes d.stable d.outline) := by
  rw [bookNodes, outlineIds_append, outlineIds_append]
  have hpage (suppressed : Bool) (file : String) :
      outlineIds (if suppressed then [] else [.inclusion file]) = [] := by
    cases suppressed <;> rfl
  rw [hpage, hpage, List.nil_append, List.append_nil]

/-- The files of the outline by their names within the locale's folder, in the order in which they are written, with the
link ids that they show. -/
def outlineFiles (d : Draft) : List (String × List String) :=
  (Layout.chapters d.outline).map (fun l => (Layout.chapterFile d.stable l.heading,
    l.heading.linkId d.stable :: outlineIds (Layout.nodes d.registry d.stable l.children)))
    ++ [(d.name ++ ".xml", outlineIds (Layout.topNodes d.stable d.outline))]

/-- A file that is written for a part of the outline. -/
def IsOutlineFile (d : Draft) (o : String × List String) (f : File) : Prop :=
  f.path = d.localePath o.1 ∧ f.ids = o.2.map Text.escape

variable {σ : Type} {b : Bindery σ} {s s' : Session σ}

theorem isOutlineFile_chapter (hb : b.renderer = Renderer.pages) {l : Level} {f : File}
    (hrun : (chapter b d l).Gives s f s') : d.IsOutlineFile (Layout.chapterFile d.stable l.heading,
      l.heading.linkId d.stable :: outlineIds (Layout.nodes d.registry d.stable l.children)) f := by
  rw [chapter, renderFile, hb] at hrun
  obtain ⟨text, htext, rfl⟩ := hrun.map
  refine ⟨rfl, ?_⟩
  have hpage := htext.render.1
  rw [Template.render_file] at hpage
  have hname := l.heading.kind.isName_element
  have hpreamble : Writes (Template.preamble (d.chapterContext l)).toList [] :=
    writes_preamble_of_get rfl rfl (by cases l.heading.kind <;> decide) (by cases l.heading.kind <;> decide)
  have hwrites := Template.writes_chapterPage (c := d.chapterContext l) rfl rfl rfl rfl hpreamble hname
    (Layout.named_nodes d.registry d.stable l.children) hpage
  rw [File.ids, File.tags_ofText, hwrites.tags_eq, Xml.ids_append, ids_elementTags, ids_outlineTags]
  rfl

theorem isOutlineFile_bookFile (hb : b.renderer = Renderer.pages) {f : File} (hrun : (bookFile b d).Gives s f s') :
    d.IsOutlineFile (d.name ++ ".xml", outlineIds (Layout.topNodes d.stable d.outline)) f := by
  rw [bookFile, renderFile, hb] at hrun
  obtain ⟨text, htext, rfl⟩ := hrun.map
  refine ⟨rfl, ?_⟩
  have hpage := htext.render.1
  rw [Template.render_file] at hpage
  obtain ⟨before, after, hwrites, hbefore, hafter⟩ := Template.writes_bookPage rfl
    (writes_preamble_of_get rfl rfl (by decide) (by decide)) d.named_bookNodes hpage
  rw [File.ids, File.tags_ofText, hwrites.tags_eq, Xml.ids_append, Xml.ids_append, hbefore, hafter, ids_outlineTags,
    outlineIds_bookNodes, List.nil_append, List.append_nil]

/-- **Every file of the outline shows the elements of its part.** -/
theorem forall₂_outlineFiles (hb : b.renderer = Renderer.pages) {chapters : List File} {book : File}
    {t t' : Session σ} (hchapters : ((Layout.chapters d.outline).mapM (chapter b d)).Gives s chapters s')
    (hbook : (bookFile b d).Gives t book t') : List.Forall₂ d.IsOutlineFile d.outlineFiles (chapters ++ [book]) := by
  refine List.rel_append ?_ (.cons (isOutlineFile_bookFile hb hbook) .nil)
  refine List.forall₂_map_left_iff.2 (hchapters.mapM.imp fun l f hf => ?_)
  obtain ⟨_, _, hf⟩ := hf
  exact isOutlineFile_chapter hb hf

/-! ## Paths of the outline -/

/-- Whether a path is that of a file of the outline. -/
def isOutlinePath (d : Draft) (path : String) : Bool :=
  d.outlineFiles.any fun o => d.localePath o.1 == path

theorem isOutlinePath_iff {path : String} :
    d.isOutlinePath path = true ↔ ∃ o ∈ d.outlineFiles, d.localePath o.1 = path :=
  any_key_iff

theorem isOutlinePath_localePath {file : String} (h : d.isOutlinePath (d.localePath file) = true) :
    file.toList.take 2 ∈ chapterStarts ∨ file = d.name ++ ".xml" := by
  obtain ⟨o, ho, hpath⟩ := isOutlinePath_iff.1 h
  rcases List.mem_append.1 ho with ho | ho
  · obtain ⟨l, -, rfl⟩ := List.mem_map.1 ho
    exact .inl (localePath_inj hpath ▸ take_chapterFile d.stable l.heading)
  · rw [List.mem_singleton.1 ho] at hpath
    exact .inr (localePath_inj hpath).symm

theorem isOutlinePath_of_slash {file : String} (h : '/' ∈ file.toList) (hstart : file.toList.take 2 ∉ chapterStarts) :
    d.isOutlinePath (d.localePath file) = false := by
  rw [← Bool.not_eq_true]
  intro hpath
  rcases isOutlinePath_localePath hpath with ht | rfl
  · exact hstart ht
  · rw [String.toList_append, List.mem_append] at h
    exact h.elim d.slash_notMem_name (by decide)

theorem isOutlinePath_topicPath (d : Draft) (e : TopicEntry) : d.isOutlinePath (d.topicPath e) = false := by
  have hfile : (Layout.topicFile (e.linkId d.stable)).toList
      = "topics/".toList ++ ((e.linkId d.stable).toList ++ ".xml".toList) := by
    rw [Layout.topicFile, String.toList_append, String.toList_append, List.append_assoc]
  refine isOutlinePath_of_slash ?_ ?_
  · rw [hfile]
    exact List.mem_append_left _ (by decide)
  · rw [hfile]
    exact fun hm => absurd (show ['t', 'o'] ∈ chapterStarts from hm) (by decide)

theorem isOutlinePath_imageFile (d : Draft) (i : Image) : d.isOutlinePath (d.imageFile i).path = false := by
  have hfile : (ImageRef.path i.name).toList = "images/".toList ++ i.name.toList := by
    rw [ImageRef.path, String.toList_append]
  refine isOutlinePath_of_slash ?_ ?_
  · rw [hfile]
    exact List.mem_append_left _ (by decide)
  · rw [hfile]
    exact fun hm => absurd (show ['i', 'm'] ∈ chapterStarts from hm) (by decide)

theorem filter_isOutlinePath_topics (hb : b.renderer = Renderer.pages) (hd : d.Prepared) {topics : List File}
    {s s' : Session σ} (hrun : (topicFiles b d).Gives s topics s') :
    (topics.filter fun f => d.isOutlinePath f.path) = [] := by
  refine List.filter_eq_nil_iff.2 fun f hf => ?_
  have hmem : f.path ∈ topics.map (·.path) := List.mem_map.2 ⟨f, hf, rfl⟩
  rw [map_path_of_forall₂ (forall₂_topicFiles hb hd hrun)] at hmem
  obtain ⟨e, -, he⟩ := List.mem_map.1 hmem
  rw [← he, isOutlinePath_topicPath]
  exact Bool.false_ne_true

theorem filter_isOutlinePath_images (d : Draft) (images : List Image) :
    ((images.map d.imageFile).filter fun f => d.isOutlinePath f.path) = [] := by
  refine List.filter_eq_nil_iff.2 fun f hf => ?_
  obtain ⟨i, -, rfl⟩ := List.mem_map.1 hf
  rw [isOutlinePath_imageFile]
  exact Bool.false_ne_true

/-- **At the paths of the outline a book keeps the files of the outline**, whatever else is written there. -/
theorem Written.exists_outline (hb : b.renderer = Renderer.pages) (hd : d.Prepared) {images : List Image}
    {fs : List File} (h : Written b d images fs) : ∃ chapters book,
      (∃ s s', ((Layout.chapters d.outline).mapM (chapter b d)).Gives s chapters s') ∧
      (∃ s s', (bookFile b d).Gives s book s') ∧
      latestBy File.path (fs.filter fun f => d.isOutlinePath f.path) = latestBy File.path (chapters ++ [book]) := by
  obtain ⟨front, chapters, topics, appendices, book, -, ⟨_, _, hchapters⟩, ⟨_, _, htopics⟩, happendices,
    ⟨_, _, hbook⟩⟩ := h
  have hall := forall₂_outlineFiles hb hchapters hbook
  refine ⟨chapters, book, ⟨_, _, hchapters⟩, ⟨_, _, hbook⟩, ?_⟩
  have hkept {fs : List File} (hfs : fs ⊆ chapters ++ [book]) : (fs.filter fun f => d.isOutlinePath f.path) = fs :=
    List.filter_eq_self.2 fun f hf => by
      obtain ⟨o, ho, hof⟩ := exists_of_forall₂_right hall (hfs hf)
      exact isOutlinePath_iff.2 ⟨o, ho, hof.1.symm⟩
  -- What the front matter has at a path of the outline is written over by the outline's own file.
  have hfront : ∀ f ∈ front.filter fun f => d.isOutlinePath f.path, ∃ g ∈ chapters ++ [book], g.path = f.path :=
    fun f hf => by
      obtain ⟨o, ho, hpath⟩ := isOutlinePath_iff.1 (List.mem_filter.1 hf).2
      obtain ⟨g, hg, hof⟩ := exists_of_forall₂_left hall ho
      exact ⟨g, hg, hof.1.trans hpath⟩
  -- The specification's page starts like no chapter's file, so at a path of the outline it stands at the book's.
  have happendix : ∀ f ∈ appendices.filter fun f => d.isOutlinePath f.path, ∃ g ∈ [book], g.path = f.path :=
    fun f hf => by
      obtain ⟨hf, hpath⟩ := List.mem_filter.1 hf
      rw [happendices f hf] at hpath ⊢
      rcases isOutlinePath_localePath hpath with hstart | hname
      · exact absurd hstart (by decide)
      · exact ⟨book, List.mem_singleton_self _, by rw [path_bookFile hbook, ← hname]⟩
  simp only [List.filter_append, filter_isOutlinePath_topics hb hd htopics, filter_isOutlinePath_images,
    List.nil_append, hkept (List.subset_append_left chapters [book]),
    hkept (List.subset_append_right chapters [book]), List.append_assoc]
  rw [latestBy_append_left fun f hf => ?_, latestBy_append_middle happendix]
  obtain ⟨g, hg, hpath⟩ := hfront f hf
  refine ⟨g, ?_, hpath⟩
  rcases List.mem_append.1 hg with hg | hg
  · exact List.mem_append_left _ hg
  · exact List.mem_append_right _ (List.mem_append_right _ hg)

theorem Written.latest_outline (hb : b.renderer = Renderer.pages) (hd : d.Prepared) {images : List Image}
    {fs : List File} (h : Written b d images fs) : ∃ outline, List.Forall₂ d.IsOutlineFile d.outlineFiles outline ∧
      latestBy File.path (fs.filter fun f => d.isOutlinePath f.path) = latestBy File.path outline := by
  obtain ⟨chapters, book, ⟨_, _, hchapters⟩, ⟨_, _, hbook⟩, hlatest⟩ := h.exists_outline hb hd
  exact ⟨chapters ++ [book], forall₂_outlineFiles hb hchapters hbook, hlatest⟩

/-! ## Section ids -/

/-- The ids in an archive that cross references lead to: those of the sections that the files of topics begin with, and
those in the files of the outline. -/
def sectionIds (d : Draft) (a : Archive) : List String :=
  ((a.files.filter fun f => d.isTopicPath f.path).filterMap File.rootId?)
    ++ (a.files.filter fun f => d.isOutlinePath f.path).flatMap File.ids

/-- The link ids that a book shows: of the references that are published, and of the levels in those files of the
outline that no later one takes the place of. -/
def shownIds (d : Draft) : List String :=
  d.published.map (·.linkId d.stable) ++ (latestBy Prod.fst d.outlineFiles).flatMap Prod.snd

theorem IsFileOf.path_eq {e : TopicEntry} {f : File} (h : d.IsFileOf e f) : f.path = d.topicPath e := by
  obtain ⟨_, rfl, -⟩ := h
  rfl

theorem rootId?_of_isFileOf (h : d.Prepared) {e : TopicEntry} (he : e ∈ d.published) {f : File} (hf : d.IsFileOf e f) :
    f.rootId? = some (Text.escape (e.linkId d.stable)) := by
  obtain ⟨hmem, houtlined⟩ := mem_published he
  obtain ⟨text, rfl, htext⟩ := hf
  rw [File.rootId?, File.tags_ofText]
  cases htext with
  | document doc outcome document tags =>
    obtain ⟨doc', hdoc', htag⟩ := tag_root_of_valid h hmem houtlined outcome
    cases document.symm.trans hdoc'
    have hplain : doc.root.tag.isPlain = true := by
      rw [htag]
      exact Xml.isPlain_with "section" "id" (by decide) (Text.quote_notMem_escape _)
    have hkeys : (doc.root.attributes.map (·.1)).Nodup := by
      have hattributes : doc.root.tag.attributes = (d.sectionTag e).attributes := congrArg Element.attributes htag
      rw [show doc.root.attributes = (d.sectionTag e).attributes from hattributes]
      exact List.nodup_singleton _
    obtain ⟨es, hes⟩ := Xml.exists_tags_root hplain hkeys
    rw [tags, hes, htag]
    rfl
  | standIn content bugLink es outcome tags anonymous =>
    rw [tags]
    exact congrArg (fun id => some (Text.escape id)) linkId_view

theorem mem_filterMap_rootId?_iff (hb : b.renderer = Renderer.pages) (hd : d.Prepared) {images : List Image}
    {fs : List File} (h : Written b d images fs) {id : String} :
    id ∈ (((Archive.ofFiles fs).files.filter fun f => d.isTopicPath f.path).filterMap File.rootId?) ↔
      ∃ e ∈ d.published, Text.escape (e.linkId d.stable) = id := by
  obtain ⟨topics, hall, hperm⟩ := perm_topicFiles hb hd h
  rw [(hperm.filterMap _).mem_iff, List.mem_filterMap]
  constructor
  · rintro ⟨f, hf, hid⟩
    obtain ⟨e, he, hef⟩ := exists_of_forall₂_right hall (latestBy_subset _ _ hf)
    exact ⟨e, he, Option.some.inj ((rootId?_of_isFileOf hd he hef).symm.trans hid)⟩
  · rintro ⟨e, he, rfl⟩
    obtain ⟨f, hf, hef⟩ := exists_of_forall₂_left hall he
    -- Another reference may have written over the file, but only one with the same link id.
    obtain ⟨g, hg, hpath⟩ : ∃ g ∈ latestBy File.path topics, g.path = f.path := exists_mem_latestBy hf
    obtain ⟨e', he', heg⟩ := exists_of_forall₂_right hall (latestBy_subset _ _ hg)
    have hpaths : d.topicPath e' = d.topicPath e := by rw [← heg.path_eq, hpath, hef.path_eq]
    exact ⟨g, hg, by rw [rootId?_of_isFileOf hd he' heg, topicPath_inj hpaths]⟩

theorem mem_flatMap_ids_iff (hb : b.renderer = Renderer.pages) (hd : d.Prepared) {images : List Image}
    {fs : List File} (h : Written b d images fs) {id : String} :
    id ∈ ((Archive.ofFiles fs).files.filter fun f => d.isOutlinePath f.path).flatMap File.ids ↔
      ∃ l ∈ (latestBy Prod.fst d.outlineFiles).flatMap Prod.snd, Text.escape l = id := by
  obtain ⟨outline, hall, hlatest⟩ := h.latest_outline hb hd
  have hkept : List.Forall₂ d.IsOutlineFile (latestBy Prod.fst d.outlineFiles) (latestBy File.path outline) :=
    forall₂_latestBy hall fun o o' f f' hof hof' => by
      rw [hof.1, hof'.1]
      exact ⟨localePath_inj, congrArg d.localePath⟩
  rw [(((Archive.perm_files_ofFiles fs).filter _).flatMap_right _).mem_iff, filter_latestBy, hlatest, List.mem_flatMap]
  simp only [List.mem_flatMap]
  constructor
  · rintro ⟨f, hf, hid⟩
    obtain ⟨o, ho, hof⟩ := exists_of_forall₂_right hkept hf
    rw [hof.2] at hid
    obtain ⟨l, hl, he⟩ := List.mem_map.1 hid
    exact ⟨l, ⟨o, ho, hl⟩, he⟩
  · rintro ⟨l, ⟨o, ho, hl⟩, he⟩
    obtain ⟨f, hf, hof⟩ := exists_of_forall₂_left hkept ho
    exact ⟨f, hf, hof.2 ▸ List.mem_map.2 ⟨l, hl, he⟩⟩

/-- **A link leads to a section of the book just where its id is one that the book shows.** -/
theorem mem_sectionIds_iff (hb : b.renderer = Renderer.pages) (hd : d.Prepared) {images : List Image}
    {fs : List File} (h : Written b d images fs) (id : String) :
    Text.escape id ∈ d.sectionIds (.ofFiles fs) ↔ id ∈ d.shownIds := by
  rw [sectionIds, shownIds, List.mem_append, List.mem_append, mem_filterMap_rootId?_iff hb hd h,
    mem_flatMap_ids_iff hb hd h, List.mem_map]
  simp only [Text.escape_injective.eq_iff, exists_eq_right]

end Draft
end Bookbinder
