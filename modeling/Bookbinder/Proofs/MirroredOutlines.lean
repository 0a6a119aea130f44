import Bookbinder.Proofs.BackMatterPages
import Bookbinder.Proofs.FinishedRuns
import Bookbinder.Proofs.KeptAddresses
import Bookbinder.Proofs.OutlineFiles
import Bookbinder.Proofs.RegisteredOutlines
/-!
# Files that mirror the outline

The file of a chapter and the book's own file are read to elements that show their part of the outline: each level under
its id and title, and in order what is below it, inclusions with the names of their files and levels with the same all
over again (`OutlineNode.MirroredBy`).  Nothing else is among the elements, so what is shown can be told from them
(`OutlineNode.MirroredBy.unique`).
-/
namespace Bookbinder

open Xml (Adds AddsBefore Attributes Document Element Introduces Laid Node emptyTag endTag startTag tagsAround)

/-! ## Elements that show a part of an outline -/

namespace Xml.Element

/-- The text that the value of an attribute stands for. -/
def text? (e : Element) (key : String) : Option String :=
  (e.attribute? key).map Text.unescape

/-- An empty element that includes a file. -/
structure Includes (e : Element) (href : String) : Prop where
  name : e.name = "xi:include"
  keys : e.attributes.map (·.1) = ["href", "xmlns:xi"]
  href : e.text? "href" = some href
  space : e.text? "xmlns:xi" = some "http://www.w3.org/2001/XInclude"
  children : e.children = []

/-- A title that holds nothing but its text. -/
structure IsTitle (e : Element) (title : String) : Prop where
  name : e.name = "title"
  attributes : e.attributes = []
  text : e.raw?.map Text.unescape = some title

/-- An element with an id that holds a title and some elements after it. -/
structure Shows (e : Element) (name id title : String) (below : List Element) : Prop where
  name : e.name = name
  keys : e.attributes.map (·.1) = ["id"]
  id : e.text? "id" = some id
  parts : ∃ heading, e.inner = heading :: below ∧ heading.IsTitle title

end Xml.Element

mutual

/-- **An element mirrors a node of an outline**: it includes the file of an inclusion, or it shows a level and mirrors
what is below in the elements after its title. -/
def OutlineNode.MirroredBy : OutlineNode → Element → Prop
  | .inclusion href, e => e.Includes href
  | .element name id title children, e => ∃ below, e.Shows name id title below ∧ outlineMirroredBy children below

/-- Elements that mirror the nodes of an outline, one by one. -/
def outlineMirroredBy : List OutlineNode → List Element → Prop
  | [], es => es = []
  | n :: ns, es => ∃ e es', es = e :: es' ∧ n.MirroredBy e ∧ outlineMirroredBy ns es'

end

mutual

/-- **An element mirrors one node at most.** -/
theorem OutlineNode.MirroredBy.unique : ∀ {n m : OutlineNode} {e : Element}, n.MirroredBy e → m.MirroredBy e → n = m
  | .inclusion _, .inclusion _, _, h, h' => congrArg _ (Option.some.inj (h.href.symm.trans h'.href))
  | .inclusion _, .element .., _, h, ⟨_, hshows, _⟩ => absurd (h.keys.symm.trans hshows.keys) (by decide)
  | .element .., .inclusion _, _, ⟨_, hshows, _⟩, h => absurd (h.keys.symm.trans hshows.keys) (by decide)
  | .element .., .element .., _, ⟨_, hshows, hbelow⟩, ⟨_, hshows', hbelow'⟩ => by
    obtain ⟨heading, hinner, htitle⟩ := hshows.parts
    obtain ⟨heading', hinner', htitle'⟩ := hshows'.parts
    obtain ⟨rfl, rfl⟩ := List.cons.inj (hinner.symm.trans hinner')
    rw [← hshows.name, ← hshows'.name, Option.some.inj (hshows.id.symm.trans hshows'.id),
      Option.some.inj (htitle.text.symm.trans htitle'.text), outlineMirroredBy_unique hbelow hbelow']

theorem outlineMirroredBy_unique : ∀ {ns ms : List OutlineNode} {es : List Element}, outlineMirroredBy ns es →
    outlineMirroredBy ms es → ns = ms
  | [], [], _, _, _ => rfl
  | [], _ :: _, _, h, ⟨_, _, he, _⟩ => absurd (h.symm.trans he) (List.cons_ne_nil _ _).symm
  | _ :: _, [], _, ⟨_, _, he, _⟩, h => absurd (h.symm.trans he) (List.cons_ne_nil _ _).symm
  | _ :: _, _ :: _, _, ⟨_, _, he, hn, hns⟩, ⟨_, _, he', hn', hns'⟩ => by
    obtain ⟨rfl, rfl⟩ := List.cons.inj (he.symm.trans he')
    rw [hn.unique hn', outlineMirroredBy_unique hns hns']

end

theorem outlineMirroredBy_append {ns ms : List OutlineNode} {es fs : List Element} (h : outlineMirroredBy ns es)
    (h' : outlineMirroredBy ms fs) : outlineMirroredBy (ns ++ ms) (es ++ fs) := by
  induction ns generalizing es with
  | nil =>
    cases h
    exact h'
  | cons n ns ih =>
    obtain ⟨e, es', rfl, hn, hns⟩ := h
    exact ⟨e, es' ++ fs, rfl, hn, ih hns⟩

/-- A book that shows an outline between its preface and its history, and has an index at its end. -/
structure OutlineNode.BookOf (ns : List OutlineNode) (e : Element) : Prop where
  name : e.name = "book"
  attributes : e.attributes = []
  parts : ∃ es, e.inner = es ++ [⟨"index", [], []⟩] ∧
    outlineMirroredBy ([.inclusion "Book_Info.xml", .inclusion "Preface.xml"] ++ ns
      ++ [.inclusion "Revision_History.xml"]) es

/-! ## Texts of outlines -/

theorem Xml.exists_laid_title (title : String) :
    ∃ e : Element, e.IsTitle title ∧ Laid (tagsAround "title" [] (Text.escape title)) [e] := by
  obtain ⟨raws, hraws, hadds⟩ := (Xml.CharacterData.escape title).exists_raws
  have hplain : (⟨"title", [], []⟩ : Element).isPlain = true := by decide
  refine ⟨Xml.textual "title" raws, ⟨rfl, rfl, ?_⟩,
    .of_adds (Xml.begins_tagsAround _ _ _) (Xml.adds_tagsAround hplain List.nodup_nil hadds)⟩
  rw [Xml.raw?_textual, hraws]
  exact congrArg some (Text.unescape_escape title)

theorem Xml.isPlain_id {name : String} (h : Xml.isName name = true) (id : String) :
    (⟨name, [("id", Text.escape id)], []⟩ : Element).isPlain = true :=
  Xml.isPlain_with name "id" (by rw [h]; decide) (Text.quote_notMem_escape id)

/-- What an element of an outline is written as within its tags. -/
def titledBody (lead title content trail : String) : String :=
  lead ++ (tagsAround "title" [] (Text.escape title) ++ (content ++ trail))

theorem exists_laid_titledBody {lead trail : String} (hlead : Template.Running lead) (htrail : Template.Running trail)
    (title : String) {content : String} {es : List Element} (hcontent : Laid content es) :
    ∃ heading : Element, heading.IsTitle title ∧ Laid (titledBody lead title content trail) (heading :: es) := by
  obtain ⟨heading, hheading, hlaid⟩ := Xml.exists_laid_title title
  refine ⟨heading, hheading, ?_⟩
  have hrest := hcontent.append (.blank htrail)
  rw [List.append_nil] at hrest
  exact (hlaid.append hrest).prepend hlead

namespace Template

theorem inclusion_eq (href : String) : inclusion href =
    emptyTag "xi:include" [("href", href), ("xmlns:xi", "http://www.w3.org/2001/XInclude")] := by
  rw [← String.toList_inj]
  unfold inclusion emptyTag
  simp [Xml.attributesXml]

/-- **An inclusion is read with the name of its file.** -/
theorem exists_laid_inclusion (href : String) :
    ∃ e : Element, e.Includes href ∧ Laid (inclusion (Text.escape href)) [e] := by
  have hname : Xml.isName "xi:include" = true := by decide
  have hkey : Xml.isName "href" = true ∧ Xml.isName "xmlns:xi" = true := by decide
  have hplain : (inclusionTag (Text.escape href)).isPlain = true :=
    Xml.isPlain_iff.2 ⟨hname, List.forall_mem_cons.2 ⟨⟨hkey.1, Text.quote_notMem_escape href⟩,
      List.forall_mem_singleton.2 ⟨hkey.2, quote_notMem_xinclude⟩⟩⟩
  have hspace : Text.unescape "http://www.w3.org/2001/XInclude" = "http://www.w3.org/2001/XInclude" := by
    decide +kernel
  have hkeys : ["href", "xmlns:xi"].Nodup := by decide
  refine ⟨inclusionTag (Text.escape href),
    ⟨rfl, rfl, congrArg some (Text.unescape_escape href), congrArg some hspace, rfl⟩, ?_⟩
  rw [inclusion_eq]
  exact .of_adds (Xml.begins_emptyTag _ _) (Xml.adds_emptyTag hplain hkeys)

theorem outlineElement_eq (name id title content : String) :
    outlineElement name (Text.escape id) (Text.escape title) content =
      "\n\t" ++ tagsAround name [("id", Text.escape id)] (titledBody "\n\t\t" title content "\n\t") := by
  rw [← String.toList_inj]
  unfold outlineElement titledBody
  simp [tagsAround, startTag, endTag, Xml.attributesXml]

mutual

theorem exists_laid_outlineNode : ∀ n : OutlineNode, n.Named →
    ∃ text e, outlineNode n.value = .ok text ∧ n.MirroredBy e ∧ Laid text [e]
  | .inclusion href, _ => by
    obtain ⟨e, he, hlaid⟩ := exists_laid_inclusion href
    exact ⟨_, e, rfl, he, hlaid.prepend (by decide)⟩
  | .element name id title children, h => by
    obtain ⟨content, es, hcontent, hmirrored, hlaid⟩ := exists_laid_outline children h.2
    have hindent : Running "\n\t\t" ∧ Running "\n\t" := by decide
    obtain ⟨heading, hheading, hbody⟩ := exists_laid_titledBody hindent.1 hindent.2 title hlaid
    obtain ⟨ns, hns, helement⟩ := hbody.tags (Xml.isPlain_id h.1 id) (List.nodup_singleton _)
    refine ⟨outlineElement name (Text.escape id) (Text.escape title) content,
      ⟨name, [("id", Text.escape id)], ns⟩, ?_, ⟨es, ⟨rfl, rfl, ?_, heading, hns, hheading⟩, hmirrored⟩, ?_⟩
    · have hbelow : outlineBelow [("kind", .text "element"), ("element", .text name), ("id", .text id),
          ("title", .text title), ("children", .list (outlineValues children))] = .ok content := hcontent
      rw [OutlineNode.value, outlineNode, hbelow]
      rfl
    · exact congrArg some (Text.unescape_escape id)
    · rw [outlineElement_eq]
      exact helement.prepend (by decide)

/-- **An outline is written as elements that mirror it.** -/
theorem exists_laid_outline : ∀ ns : List OutlineNode, outlineNamed ns →
    ∃ text es, outlineAll (outlineValues ns) = .ok text ∧ outlineMirroredBy ns es ∧ Laid text es
  | [], _ => ⟨"", [], rfl, rfl, .blank (by decide)⟩
  | n :: ns, h => by
    obtain ⟨a, e, ha, hn, hlaidA⟩ := exists_laid_outlineNode n h.1
    obtain ⟨c, es, hc, hns, hlaidC⟩ := exists_laid_outline ns h.2
    refine ⟨a ++ c, e :: es, ?_, ⟨e, es, rfl, hn, hns⟩, hlaidA.append hlaidC⟩
    rw [outlineValues, outlineAll, ha, hc]

end

/-! ## Pages of outlines -/

theorem chapterPage_eq {c : Context} {name id title content : String} (helement : c.get "element" = .text name)
    (hid : c.get "id" = .text id) (htitle : c.get "title" = .text title)
    (hcontent : outline (c.get "children") = .ok content) : chapterPage c = .ok (preamble c ++ "\n"
      ++ (tagsAround name [("id", Text.escape id)] (titledBody "\n\t" title content "\n") ++ "")) := by
  rw [chapterPage, raw, xml, xml, helement, hid, htitle, hcontent]
  refine congrArg Except.ok ?_
  rw [← String.toList_inj]
  simp [titledBody, tagsAround, startTag, endTag, Xml.attributesXml, Value.print, Value.printXml]

/-- **The page of a chapter is read to a root that mirrors the chapter.** -/
theorem exists_read_chapterPage {c : Context} {name id title : String} {ns : List OutlineNode}
    (helement : c.get "element" = .text name) (hid : c.get "id" = .text id) (htitle : c.get "title" = .text title)
    (hchildren : c.get "children" = .list (outlineValues ns)) (hlead : Introduces (preamble c ++ "\n"))
    (hname : Xml.isName name = true) (hns : outlineNamed ns) : ∃ text doc, chapterPage c = .ok text ∧
      Document.read text = .ok doc ∧ (OutlineNode.element name id title ns).MirroredBy doc.root := by
  obtain ⟨content, es, hcontent, hmirrored, hlaid⟩ := exists_laid_outline ns hns
  have houtline : outline (c.get "children") = .ok content := by
    rw [hchildren]
    exact hcontent
  have hindent : Running "\n\t" ∧ Running "\n" := by decide
  obtain ⟨heading, hheading, hbody⟩ := exists_laid_titledBody hindent.1 hindent.2 title hlaid
  obtain ⟨nodes, hadds, hnodes⟩ := hbody.exists_addsBefore
  obtain ⟨doc, hread, hroot⟩ := Xml.exists_read_root hlead (Xml.isPlain_id hname id) (List.nodup_singleton _) hadds
    (.inl rfl)
  refine ⟨_, doc, chapterPage_eq helement hid htitle houtline, hread, es, ?_, hmirrored⟩
  rw [hroot]
  exact ⟨rfl, rfl, congrArg some (Text.unescape_escape id), heading, hnodes, hheading⟩

theorem bookPage_eq {c : Context} {content : String} (hcontent : outline (c.get "levels") = .ok content) :
    bookPage c = .ok (preamble c ++ "\n" ++ (tagsAround "book" [] ("\n\t" ++ inclusion "Book_Info.xml" ++ ("\n\t"
      ++ inclusion "Preface.xml") ++ (content ++ ("\n\t" ++ inclusion "Revision_History.xml" ++ ("\n\t"
      ++ emptyTag "index" [] ++ "\n")))) ++ "")) := by
  rw [bookPage, hcontent]
  refine congrArg Except.ok ?_
  rw [← String.toList_inj]
  simp [tagsAround, startTag, endTag, emptyTag, Xml.attributesXml]

/-- **The page of a book is read to a root that shows the outline between what all books include.** -/
theorem exists_read_bookPage {c : Context} {ns : List OutlineNode} (hlevels : c.get "levels" = .list (outlineValues ns))
    (hlead : Introduces (preamble c ++ "\n")) (hns : outlineNamed ns) : ∃ text doc, bookPage c = .ok text ∧
      Document.read text = .ok doc ∧ OutlineNode.BookOf ns doc.root := by
  obtain ⟨content, es, hcontent, hmirrored, hlaid⟩ := exists_laid_outline ns hns
  have houtline : outline (c.get "levels") = .ok content := by
    rw [hlevels]
    exact hcontent
  have hfixed (file : String) (hfile : Text.escape file = file) :
      ∃ e : Element, outlineMirroredBy [.inclusion file] [e] ∧ Laid ("\n\t" ++ inclusion file) [e] := by
    obtain ⟨e, he, hlaid⟩ := exists_laid_inclusion file
    rw [hfile] at hlaid
    exact ⟨e, ⟨e, [], rfl, he, rfl⟩, hlaid.prepend (by decide)⟩
  obtain ⟨info, hinfo, hlaidInfo⟩ := hfixed "Book_Info.xml" (by decide)
  obtain ⟨preface, hpreface, hlaidPreface⟩ := hfixed "Preface.xml" (by decide)
  obtain ⟨history, hhistory, hlaidHistory⟩ := hfixed "Revision_History.xml" (by decide)
  have hplain : (⟨"index", [], []⟩ : Element).isPlain = true := by decide
  have hindex : Laid ("\n\t" ++ emptyTag "index" [] ++ "\n") [⟨"index", [], []⟩] :=
    ((Laid.of_adds (Xml.begins_emptyTag _ _) (Xml.adds_emptyTag hplain List.nodup_nil)).prepend (by decide)).append
      (.blank (by decide))
  obtain ⟨nodes, hadds, hnodes⟩ := ((hlaidInfo.append hlaidPreface).append (hlaid.append
    (hlaidHistory.append hindex))).exists_addsBefore
  have hbook : (⟨"book", [], []⟩ : Element).isPlain = true := by decide
  obtain ⟨doc, hread, hroot⟩ := Xml.exists_read_root hlead hbook List.nodup_nil hadds (.inl rfl)
  refine ⟨_, doc, bookPage_eq houtline, hread, ?_⟩
  rw [hroot]
  refine ⟨rfl, rfl, [info, preface] ++ es ++ [history], ?_, ?_⟩
  · rw [Element.inner, hnodes]
    simp
  · have hlead := outlineMirroredBy_append hinfo hpreface
    exact outlineMirroredBy_append (outlineMirroredBy_append hlead hmirrored) hhistory

end Template

/-! ## Files of the outline -/

/-- A text that is read to a root of some kind. -/
def ReadsTo (text : String) (p : Element → Prop) : Prop :=
  ∃ doc, Document.read text = .ok doc ∧ p doc.root

theorem Archive.bytes?_of_mem {a : Archive} {f : File} (h : f ∈ a.files) : a.bytes? f.path = some f.bytes := by
  have hfind := (find?_eq_some_iff_of_nodup File.path a.nodup_paths).2 ⟨h, rfl⟩
  rw [Archive.bytes?, hfind]
  rfl

namespace Draft

variable {σ : Type} {b : Bindery σ} {d : Draft} {s s' : Session σ}

/-- A chapter as its own file shows it. -/
def chapterNode (d : Draft) (l : Level) : OutlineNode :=
  .element l.heading.kind.element (l.heading.linkId d.stable) l.heading.title
    (Layout.nodes d.registry d.stable l.children)

/-- The files of the outline by their names within the locale's folder, in the order in which they are written, with the
kinds of their roots. -/
def outlineRoots (d : Draft) : List (String × (Element → Prop)) :=
  (Layout.chapters d.outline).map (fun l => (Layout.chapterFile d.stable l.heading, (d.chapterNode l).MirroredBy))
    ++ [(d.name ++ ".xml", OutlineNode.BookOf d.bookNodes)]

/-- A file of the outline that is read to a root of its kind. -/
def IsRootFile (d : Draft) (o : String × (Element → Prop)) (f : File) : Prop :=
  ∃ text, f = .ofText (d.localePath o.1) text ∧ ReadsTo text o.2

theorem gives_renderFile (hb : b.renderer = Renderer.pages) {file text : String} (page : Template.PageName)
    {c : Template.Context} (h : page.page c = .ok text) (s : Session σ) :
    (renderFile b d file page c).Gives s (.ofText (d.localePath file) text) s := by
  rw [renderFile, hb]
  exact (Press.gives_render h s).andThen rfl

theorem exists_read_chapter (hb : b.renderer = Renderer.pages) (d : Draft) (l : Level) (s : Session σ) :
    ∃ text, (chapter b d l).Gives s (.ofText (d.localePath (Layout.chapterFile d.stable l.heading)) text) s ∧
      ReadsTo text (d.chapterNode l).MirroredBy := by
  have hlead : Introduces (Template.preamble (d.chapterContext l) ++ "\n") := by
    refine (Template.introduces_preamble rfl rfl ?_ ?_ d.quote_notMem_name).2
    all_goals cases l.heading.kind <;> decide
  have hnamed := Layout.named_nodes d.registry d.stable l.children
  obtain ⟨text, doc, hpage, hread, hmirrored⟩ := Template.exists_read_chapterPage (c := d.chapterContext l) rfl rfl rfl
    rfl hlead l.heading.kind.isName_element hnamed
  exact ⟨text, gives_renderFile hb .chapter hpage s, doc, hread, hmirrored⟩

theorem exists_read_bookFile (hb : b.renderer = Renderer.pages) (d : Draft) (s : Session σ) :
    ∃ text, (bookFile b d).Gives s (.ofText (d.localePath (d.name ++ ".xml")) text) s ∧
      ReadsTo text (OutlineNode.BookOf d.bookNodes) := by
  have hlead : Introduces
      (Template.preamble (d.baseContext "book" ++ [("levels", .list (outlineValues d.bookNodes))]) ++ "\n") :=
    (Template.introduces_preamble rfl rfl (by decide) (by decide) d.quote_notMem_name).2
  obtain ⟨text, doc, hpage, hread, hbook⟩ := Template.exists_read_bookPage rfl hlead d.named_bookNodes
  exact ⟨text, gives_renderFile hb .book hpage s, doc, hread, hbook⟩

/-- Every file of the outline is read to a root of its kind. -/
theorem forall₂_outlineRoots (hb : b.renderer = Renderer.pages) {chapters : List File} {book : File}
    {t t' : Session σ} (hchapters : ((Layout.chapters d.outline).mapM (chapter b d)).Gives s chapters s')
    (hbook : (bookFile b d).Gives t book t') : List.Forall₂ d.IsRootFile d.outlineRoots (chapters ++ [book]) := by
  refine List.rel_append (List.forall₂_map_left_iff.2 (hchapters.mapM.imp fun l f hf => ?_)) (.cons ?_ .nil)
  · obtain ⟨u, u', hf⟩ := hf
    obtain ⟨text, hgives, hreads⟩ := exists_read_chapter hb d l u
    exact ⟨text, (hf.unique hgives).1, hreads⟩
  · obtain ⟨text, hgives, hreads⟩ := exists_read_bookFile hb d t
    exact ⟨text, (hbook.unique hgives).1, hreads⟩

/-- **At the paths of the outline an archive has files that are read to its parts**, of those with one path to the last
one. -/
theorem Written.reads_outline (hb : b.renderer = Renderer.pages) (hd : d.Prepared) {images : List Image}
    {fs : List File} (h : Written b d images fs) : ∀ o ∈ latestBy Prod.fst d.outlineRoots,
    ∃ text, (Archive.ofFiles fs).text? (d.localePath o.1) = some text ∧ ReadsTo text o.2 := by
  intro o ho
  obtain ⟨chapters, book, ⟨_, _, hchapters⟩, ⟨_, _, hbook⟩, hlatest⟩ := h.exists_outline hb hd
  have hkept : List.Forall₂ d.IsRootFile (latestBy Prod.fst d.outlineRoots) (latestBy File.path (chapters ++ [book])) :=
    forall₂_latestBy (forall₂_outlineRoots hb hchapters hbook) fun o o' f f' hf hf' => by
      obtain ⟨_, rfl, -⟩ := hf
      obtain ⟨_, rfl, -⟩ := hf'
      exact ⟨localePath_inj, congrArg d.localePath⟩
  obtain ⟨f, hf, text, rfl, hreads⟩ := exists_of_forall₂_left hkept ho
  rw [← hlatest, ← filter_latestBy] at hf
  have hbytes := Archive.bytes?_of_mem ((Archive.perm_files_ofFiles fs).mem_iff.2 (List.mem_filter.1 hf).1)
  refine ⟨text, ?_, hreads⟩
  rw [Archive.text?, show (Archive.ofFiles fs).bytes? (d.localePath o.1) = _ from hbytes]
  exact File.fromUTF8?_bytes _ text

end Draft

namespace Bindery

variable {σ : Type} {b : Bindery σ}

/-- **The files of the outline mirror it.**  The file of every level and the book's own file are rendered, from any
draft, to texts that are read to roots that show their part of the outline.  In the archive of every bound book, whose
outline is that of the specification but for steps and repeat numbers, such files are found at their paths, of those
with one path the last one. -/
theorem mirrors_outline (hb : b.renderer = Renderer.pages) :
    (∀ (d : Draft) (l : Level) (s : Session σ), ∃ text,
      (d.chapter b l).Gives s (.ofText (d.localePath (Layout.chapterFile d.stable l.heading)) text) s ∧
        ReadsTo text (d.chapterNode l).MirroredBy) ∧
    (∀ (d : Draft) (s : Session σ), ∃ text,
      (d.bookFile b).Gives s (.ofText (d.localePath (d.name ++ ".xml")) text) s ∧
        ReadsTo text (OutlineNode.BookOf d.bookNodes)) ∧
    ∀ (spec : ContentSpec) (settings : Settings) (requester : Option String) (s : Session σ) (book : Book)
      (s' : Session σ), (b.bind spec settings requester).Gives s book s' → ∃ d images t,
        (b.prepare spec settings requester).Gives s (d, images) t ∧ d.outline.unnumbered = spec.root.unnumbered ∧
          ∀ o ∈ latestBy Prod.fst d.outlineRoots,
            ∃ text, book.archive.text? (d.localePath o.1) = some text ∧ ReadsTo text o.2 := by
  refine ⟨Draft.exists_read_chapter hb, Draft.exists_read_bookFile hb, ?_⟩
  intro spec settings requester s book s' hbind
  have hbound := hbind
  rw [bind_eq] at hbound
  obtain ⟨⟨d, images⟩, t, hprepare, -⟩ := hbound.bind
  obtain ⟨fs, t', hfiles, harchive⟩ := exists_files_of_bind hbind hprepare
  refine ⟨d, images, t, hprepare, ?_, ?_⟩
  · rw [outline_of_prepare hprepare, Registry.unnumbered_register]
  · rw [harchive]
    exact (Draft.written_files hfiles).reads_outline hb (prepared_prepare hb hprepare)

/-- In a book with a part, an empty section and repeats, the two chapters and the book itself are such files. -/
theorem mirrors_outline_mixed : ∃ book d images s' t,
    (sample.bind mixedSpec sampleSettings none).Gives mixedSession book s' ∧
    (sample.prepare mixedSpec sampleSettings none).Gives mixedSession (d, images) t ∧
    (latestBy Prod.fst d.outlineRoots).map Prod.fst = ["chap-First.xml", "chap-Second.xml", "Book.xml"] ∧
    outlineIds d.bookNodes = ["part-Basics"] ∧ outlineHrefs d.bookNodes = ["chap-First.xml", "chap-Second.xml"] ∧
    ∀ o ∈ latestBy Prod.fst d.outlineRoots,
      ∃ text, book.archive.text? (d.localePath o.1) = some text ∧ ReadsTo text o.2 := by
  have hruns : ∃ book d images s' t, (sample.bind mixedSpec sampleSettings none).Gives mixedSession book s' ∧
      (sample.prepare mixedSpec sampleSettings none).Gives mixedSession (d, images) t ∧
      ((latestBy Prod.fst d.outlineRoots).map Prod.fst = ["chap-First.xml", "chap-Second.xml", "Book.xml"] ∧
        outlineIds d.bookNodes = ["part-Basics"] ∧
        outlineHrefs d.bookNodes = ["chap-First.xml", "chap-Second.xml"]) ∧ True :=
    exists_bound (P := fun d =>
      (latestBy Prod.fst d.outlineRoots).map Prod.fst = ["chap-First.xml", "chap-Second.xml", "Book.xml"] ∧
        outlineIds d.bookNodes = ["part-Basics"] ∧
        outlineHrefs d.bookNodes = ["chap-First.xml", "chap-Second.xml"])
      (Q := fun _ _ => True) (by decide +kernel)
  obtain ⟨book, d, images, s', t, hbind, hprepare, ⟨hfiles, hids, hhrefs⟩, -⟩ := hruns
  obtain ⟨d', images', t', hprepare', -, hreads⟩ := (mirrors_outline rfl).2.2 _ _ _ _ _ _ hbind
  cases (hprepare.unique hprepare').1
  exact ⟨book, d, images, s', t, hbind, hprepare, hfiles, hids, hhrefs, hreads⟩

end Bindery
end Bookbinder
