import Bookbinder.Proofs.CollectedImages
import Bookbinder.Proofs.StandIns
/-!
# Where readers find images

The file of a topic names its images by raw values, and a reader decodes the references to characters in them before it
looks for a file.  The images themselves are stored under the raw values.  So a reader finds an image if what the raw
name reads as is the name of an image of the book or of a picture of its style, and not otherwise
(`Bindery.places_of_images`); a name without ampersands reads as it is (`Text.decode_of_notMem`).
-/
namespace Bookbinder

open Xml (Document Element filerefs)

namespace Text

/-! ## What raw values read as -/

/-- The value of a hexadecimal digit. -/
def hexDigit? (c : Char) : Option Nat :=
  if c.isDigit then some (c.toNat - '0'.toNat)
  else if 'a' ≤ c ∧ c ≤ 'f' then some (c.toNat - 'a'.toNat + 10)
  else if 'A' ≤ c ∧ c ≤ 'F' then some (c.toNat - 'A'.toNat + 10)
  else none

/-- The number that a nonempty run of hexadecimal digits writes. -/
def hexadecimal? (cs : List Char) : Option Nat :=
  if cs.isEmpty then none else cs.foldlM (fun n c => (hexDigit? c).map (16 * n + ·)) 0

def ofCode? (n : Nat) : Option Char :=
  if n.isValidChar then some (.ofNat n) else none

/-- The entities that need no declaration. -/
def predefined : List (String × Char) :=
  [("lt", '<'), ("gt", '>'), ("amp", '&'), ("apos", '\''), ("quot", '"')]

/-- The character that a reference stands for, by what is between its ampersand and its semicolon. -/
def referent? : List Char → Option Char
  | '#' :: 'x' :: digits => (hexadecimal? digits).bind ofCode?
  | '#' :: digits => (Decimal.nat? digits).bind ofCode?
  | name => predefined.lookup (String.ofList name)

/-- Characters with the references among them decoded.  `held` is what has followed an ampersand so far, before its
semicolon; what stands for no character stays as it is. -/
def decodeChars : Option (List Char) → List Char → List Char
  | none, [] => []
  | some held, [] => '&' :: held
  | none, c :: cs => if c = '&' then decodeChars (some []) cs else c :: decodeChars none cs
  | some held, c :: cs =>
    if c = ';' then
      match referent? held with
      | some r => r :: decodeChars none cs
      | none => '&' :: held ++ ';' :: decodeChars none cs
    else if c = '&' then '&' :: held ++ decodeChars (some []) cs
    else decodeChars (some (held ++ [c])) cs

/-- What a raw value reads as, once references to characters and to predefined entities are decoded.  Unlike `unescape`,
which only undoes `escape`, it also reads references to characters by their numbers. -/
def decode (raw : String) : String :=
  String.ofList (decodeChars none raw.toList)

theorem decodeChars_append {as : List Char} (h : '&' ∉ as) (cs : List Char) :
    decodeChars none (as ++ cs) = as ++ decodeChars none cs := by
  induction as with
  | nil => rfl
  | cons a as ih =>
    rw [List.mem_cons, not_or] at h
    rw [List.cons_append, decodeChars, if_neg (Ne.symm h.1), ih h.2, List.cons_append]

theorem decodeChars_escapeChar (c : Char) (cs : List Char) :
    decodeChars none (escapeChar c ++ cs) = c :: decodeChars none cs := by
  unfold escapeChar
  split
  · rfl
  · rfl
  · rfl
  · rfl
  · rfl
  · rename_i hamp _ _
    rw [List.singleton_append, decodeChars, if_neg hamp]

/-- **What is escaped reads as it was.** -/
theorem decode_escape (s : String) : decode (escape s) = s := by
  have hchars (cs : List Char) : decodeChars none (escapeChars cs) = cs := by
    induction cs with
    | nil => rfl
    | cons c cs ih =>
      exact (decodeChars_escapeChar c (escapeChars cs)).trans (congrArg (c :: ·) ih)
  rw [decode, escape, String.toList_ofList, hchars, String.ofList_toList]

theorem decode_append {a : String} (h : '&' ∉ a.toList) (raw : String) : decode (a ++ raw) = a ++ decode raw := by
  apply String.toList_inj.1
  rw [decode, decode, String.toList_append, String.toList_append, String.toList_ofList, String.toList_ofList,
    decodeChars_append h]

/-- **A value without ampersands reads as it is.** -/
theorem decode_of_notMem {raw : String} (h : '&' ∉ raw.toList) : decode raw = raw := by
  have hraw := decode_append h ""
  rwa [String.append_empty, show decode "" = "" from rfl, String.append_empty] at hraw

end Text

namespace ImageRef

theorem decode_path (name : String) : Text.decode (path name) = path (Text.decode name) :=
  Text.decode_append (by decide) name

end ImageRef

namespace Template

/-! ## Pages without images -/

/-- The elements that a page has besides those of its content. -/
def pageElements : List String :=
  ["section", "title", "itemizedlist", "listitem", "para", "xref", "ulink", "simplesect"]

theorem name_tag_mem (l : RelatedLink) : l.tag.name ∈ pageElements := by
  obtain ⟨link, _⟩ := l
  cases link with
  | xref target => exact show "xref" ∈ pageElements by decide
  | ulink url => exact show "ulink" ∈ pageElements by decide

theorem name_mem_of_listTags {role : String} {title : List Element} {ls : List RelatedLink}
    (htitle : ∀ x ∈ title, x.name ∈ pageElements) :
    ∀ x ∈ RelatedLink.listTags role title ls, x.name ∈ pageElements := by
  unfold RelatedLink.listTags
  simp only [List.forall_mem_append, List.forall_mem_cons, List.mem_flatMap, RelatedLink.itemTags]
  refine ⟨⟨⟨by decide, by decide, fun _ h => absurd h List.not_mem_nil⟩, htitle⟩, ?_⟩
  rintro x ⟨l, -, hx⟩
  simp only [List.mem_cons, List.not_mem_nil, or_false] at hx
  rcases hx with rfl | rfl | rfl
  · decide
  · decide
  · exact name_tag_mem l

theorem name_mem_of_linksTags {role : String} {title : List Element} {ls : List RelatedLink}
    (htitle : ∀ x ∈ title, x.name ∈ pageElements) : ∀ x ∈ linksTags role title ls, x.name ∈ pageElements := by
  unfold linksTags
  split
  · exact fun _ h => absurd h List.not_mem_nil
  · exact name_mem_of_listTags htitle

theorem name_mem_of_stepsTags {process : Option RelatedLink} {role : String} {ls : List RelatedLink} :
    ∀ x ∈ stepsTags process role ls, x.name ∈ pageElements := by
  cases process with
  | none => exact fun _ h => absurd h List.not_mem_nil
  | some p => exact name_mem_of_linksTags (List.forall_mem_singleton.2 (name_tag_mem p))

/-- **A page shows nothing but links besides its content.** -/
theorem TopicView.name_mem_of_tags {v : TopicView} {es : List Element} (h : ∀ x ∈ es, x.name ∈ pageElements) :
    ∀ x ∈ v.tags es, x.name ∈ pageElements := by
  have hnone : ∀ x ∈ ([] : List Element), x.name ∈ pageElements := fun _ h => absurd h List.not_mem_nil
  have hbug : ∀ x ∈ bugTags (v.bugLink.getD ""), x.name ∈ pageElements := by
    unfold bugTags
    split
    · exact hnone
    · simp only [List.forall_mem_cons]
      exact ⟨by decide, by decide, by decide, by decide, hnone⟩
  have hrelated : ∀ x ∈ v.related.flatMap relatedTags, x.name ∈ pageElements := by
    intro x hx
    obtain ⟨l, -, hx⟩ := List.mem_flatMap.1 hx
    exact name_mem_of_listTags hnone x hx
  unfold TopicView.tags
  simp only [List.forall_mem_append]
  refine ⟨⟨⟨⟨⟨⟨⟨?_, name_mem_of_linksTags hnone⟩, h⟩, name_mem_of_stepsTags⟩, name_mem_of_stepsTags⟩, hrelated⟩,
    name_mem_of_linksTags hnone⟩, hbug⟩
  simp only [List.forall_mem_cons]
  exact ⟨by decide, by decide, hnone⟩

/-- Nor does a body that stands in for a topic. -/
theorem name_mem_of_standIn (c : Context) : ∀ x ∈ (⟨"para", [], []⟩ : Element) ::
    (if (c.get "show_errors_page").truthy then [⟨"xref", [("linkend", xml c "topic_error_xref")], []⟩] else []),
    x.name ∈ pageElements := by
  refine List.forall_mem_cons.2 ⟨by decide, ?_⟩
  split
  · exact List.forall_mem_singleton.2 (show "xref" ∈ pageElements by decide)
  · exact fun _ h => absurd h List.not_mem_nil

end Template

theorem Xml.filerefs_eq_nil {es : List Element} (h : ∀ x ∈ es, x.name ≠ "imagedata") : filerefs es = [] :=
  List.filterMap_eq_nil_iff.2 fun x hx => if_neg (h x hx)

theorem Xml.filerefs_map_tag (es : List Element) : filerefs (es.map Element.tag) = filerefs es := by
  rw [filerefs, List.filterMap_map]
  rfl

namespace Draft

variable {σ : Type} {b : Bindery σ} {d : Draft} {e : TopicEntry} {f : File} {s s' : Session σ}

/-- **A file in which a body stands in for a topic shows no image.** -/
theorem filerefs_eq_nil_of_standIn (h : d.Covered) (he : e ∈ d.published) {content : String}
    (hcontent : e.outcome = .fallback content) (hf : d.IsFileOf e f) : filerefs f.tags = [] := by
  obtain ⟨text, rfl, htext⟩ := hf
  cases htext with
  | document doc outcome => cases hcontent.symm.trans outcome
  | standIn content' bugLink es outcome tags anonymous balanced written =>
    cases hcontent.symm.trans outcome
    obtain ⟨t, -, page, hpage, hrender⟩ := h e (mem_published he).1 content hcontent
    obtain ⟨shown, hshown, rfl⟩ := Template.exists_standIn_of_render hpage (d.topicId_standInContext t) hrender
    have hroles : ∀ l ∈ Template.TopicView.related { d.view e with bugLink }, '"' ∉ l.role.toList := quote_notMem_view
    have hpreamble : Xml.Writes (Template.preamble (d.baseContext "section")).toList [] :=
      d.writes_preamble_baseContext (by decide) (by decide)
    have hwrites := Template.writes_topicPage hroles hpreamble (Template.writes_standIn (d.standInContext t) hshown)
    rw [File.tags_ofText, written, hwrites.tags_eq]
    refine Xml.filerefs_eq_nil fun x hx hname => ?_
    have hmem := Template.TopicView.name_mem_of_tags (Template.name_mem_of_standIn _) x hx
    rw [hname] at hmem
    exact absurd hmem (by decide)

/-- **What the documents of a book show as images are the references that were looked up.** -/
theorem exists_imageRef_of_fileref {d₀ : Draft} {images : List Image} (hrun : (d₀.collectImages b).Gives s (d, images) s')
    (he : e ∈ d.published) {t : Topic} (htopic : e.topic = some t) {doc : Document} (hdocument : e.document = some doc)
    {v : String} (hv : v ∈ filerefs doc.root.elements) : ∃ r ∈ d₀.imageRefs, v = ImageRef.path r.name := by
  obtain ⟨hentry, houtlined⟩ := mem_published he
  have houtline : d.outline = d₀.outline := show d.bare.outline = d₀.bare.outline by rw [bare_collectImages hrun]
  rw [entries_collectImages hrun] at hentry
  obtain ⟨e₀, he₀, rfl⟩ := List.mem_map.1 hentry
  have hbare := bare_relocateEntry d₀.outline e₀
  have htopic₀ : e₀.topic = some t := (show e₀.bare.topic = _ by rw [← hbare]; exact htopic)
  have hstep : Layout.isOutlined d₀.outline e₀.ref.step = true := by
    rw [← houtline]
    exact (show (relocateEntry d₀.outline e₀).1.bare.ref = e₀.bare.ref by rw [hbare]) ▸ houtlined
  cases hdocument₀ : e₀.document with
  | none =>
    rw [relocateEntry, htopic₀, hdocument₀] at hdocument
    cases hdocument₀.symm.trans hdocument
  | some doc₀ =>
    rw [relocateEntry, htopic₀, hdocument₀] at hdocument
    dsimp only at hdocument
    rw [if_pos hstep] at hdocument
    cases hdocument
    rw [ImageRef.filerefs_relocateAll] at hv
    obtain ⟨fileref, hfileref, rfl⟩ := List.mem_map.1 hv
    refine ⟨.ofFileref t fileref, List.mem_flatMap.2 ⟨e₀, List.mem_filter.2 ⟨he₀, hstep⟩, ?_⟩, rfl⟩
    rw [TopicEntry.imageRefs, htopic₀, hdocument₀]
    exact List.mem_map_of_mem hfileref

/-- A raw value by which the file of a topic shows an image. -/
def ShowsImage (d : Draft) (a : Archive) (v : String) : Prop :=
  ∃ f ∈ a.files, d.isTopicPath f.path = true ∧ v ∈ filerefs f.tags

/-- The raw values of the images in the published documents of a book. -/
def documentImages (d : Draft) : List String :=
  (d.published.filter fun e => e.outcome == .valid).flatMap fun e =>
    (e.document.map fun doc => filerefs doc.root.elements).getD []

/-- **What is in the folder of images**: the pictures of the book's style and the images. -/
theorem path_mem_paths_iff {images : List Image} {fs : List File} (hrun : (d.files b images).Gives s fs s')
    (name : String) : d.localePath (ImageRef.path name) ∈ (Archive.ofFiles fs).paths ↔
      name ∈ d.pictures ++ images.map (·.name) := by
  obtain ⟨topics, htopics, hpaths⟩ := paths_files hrun
  have hkind {file : String} {k : Bool × Option Char} (hfile : fileKind file = k) (hne : k ≠ (true, some 'i')) :
      file ≠ ImageRef.path name := fun he => hne (by rw [← hfile, he, fileKind_image])
  rw [mem_paths_ofFiles, hpaths, List.mem_cons, or_iff_right (publicanCfg_ne_localePath d _).symm,
    List.mem_map_of_injective fun _ _ => localePath_inj, (d.perm_localFiles topics images).mem_iff, List.mem_append,
    List.mem_append, List.mem_append, List.mem_append, List.mem_map_of_injective path_injective]
  refine ⟨fun h => ?_, fun h => .inr (.inr (.inr (.inr h)))⟩
  rcases h with h | h | h | h | h
  · exact absurd rfl (hkind (d.fileKind_pages _ h) (by decide))
  · exact absurd (List.mem_singleton.1 h).symm (hkind d.fileKind_entities (by decide))
  · exact absurd rfl (hkind (fileKind_script h) (by decide))
  · obtain ⟨e, -, he⟩ := List.mem_map.1 (htopics.subset h)
    exact absurd he (hkind (fileKind_topicFile _) (by decide))
  · exact h

end Draft

namespace Bindery

variable {σ : Type} {b : Bindery σ} {spec : ContentSpec} {settings : Settings} {requester : Option String} {book : Book}
  {d : Draft} {images : List Image} {s s' t : Session σ}

/-- **Where readers find the images of a book.**  In a bound book every image that the file of a topic shows is named
by its place in the archive, as the file has it.  What this reads as is a place in the archive as well if and only if
the image's name reads as that of an image or of a picture of the book's style. -/
theorem places_of_images (hb : b.renderer = Renderer.pages) (hbind : (b.bind spec settings requester).Gives s book s')
    (hprepare : (b.prepare spec settings requester).Gives s (d, images) t) (hplain : d.PlainSources) :
    ∀ v, d.ShowsImage book.archive v → ∃ i ∈ images, v = ImageRef.path i.name ∧ d.localePath v ∈ book.archive.paths ∧
      (d.localePath (Text.decode v) ∈ book.archive.paths ↔ Text.decode i.name ∈ d.pictures ++ images.map (·.name)) := by
  rintro v ⟨f, hf, htopic, hv⟩
  have hprepared := prepared_prepare hb hprepare
  obtain ⟨fs, t', hfiles, harchive⟩ := exists_files_of_bind hbind hprepare
  rw [harchive] at hf ⊢
  obtain ⟨e, he, hfile⟩ : ∃ e ∈ d.published, d.IsFileOf e f := by
    obtain ⟨topics, htopics, hperm⟩ := Draft.perm_topicFiles hb hprepared (Draft.written_files hfiles)
    have hmem := latestBy_subset _ _ (hperm.mem_iff.1 (List.mem_filter.2 ⟨hf, htopic⟩))
    exact exists_of_forall₂_right htopics hmem
  obtain ⟨hentry, houtlined⟩ := Draft.mem_published he
  cases houtcome : e.outcome with
  | pending => exact absurd houtcome (bne_iff_ne.1 (List.mem_filter.1 he).2)
  | fallback content =>
    rw [Draft.filerefs_eq_nil_of_standIn (covered_prepare hb hprepare) he houtcome hfile] at hv
    exact absurd hv List.not_mem_nil
  | valid =>
    obtain ⟨t, _, _, _, htopic, -, -, hdocument⟩ := Draft.exists_of_valid hprepared hentry houtlined houtcome
    rw [Draft.tags_of_valid hprepared hplain he houtcome hfile hdocument, Xml.filerefs_map_tag] at hv
    obtain ⟨_, _, d₀, _, _, s₀, -, -, -, hcollect⟩ := passes_of_prepare hprepare
    obtain ⟨r, hr, rfl⟩ := Draft.exists_imageRef_of_fileref hcollect he htopic hdocument hv
    have hname := ((Draft.illustrates_collectImages hcollect).names r.name).2 ⟨r, hr, rfl⟩
    obtain ⟨i, hi, hname'⟩ := List.mem_map.1 hname
    refine ⟨i, hi, by rw [hname'], ?_, ?_⟩
    · exact (Draft.path_mem_paths_iff hfiles r.name).2 (List.mem_append_right _ hname)
    · rw [ImageRef.decode_path, Draft.path_mem_paths_iff hfiles, hname']

/-- **With link ids of their own, the topics' files show the images of their documents.** -/
theorem showsImage_of_document (hb : b.renderer = Renderer.pages)
    (hbind : (b.bind spec settings requester).Gives s book s')
    (hprepare : (b.prepare spec settings requester).Gives s (d, images) t) (hplain : d.PlainSources)
    (hlinks : d.linkIds.Nodup) {v : String} (hv : v ∈ d.documentImages) : d.ShowsImage book.archive v := by
  obtain ⟨e, he, hv⟩ := List.mem_flatMap.1 hv
  obtain ⟨he, hvalid⟩ := List.mem_filter.1 he
  cases hdocument : e.document with
  | none =>
    rw [hdocument] at hv
    exact absurd hv List.not_mem_nil
  | some doc =>
    rw [hdocument] at hv
    have hprepared := prepared_prepare hb hprepare
    obtain ⟨fs, harchive, hfs⟩ := written_of_bind hbind hprepare
    obtain ⟨topics, hall, hperm⟩ := Draft.perm_topicFiles_of_nodup hb hprepared hlinks hfs
    obtain ⟨f, hf, hfile⟩ := exists_of_forall₂_left hall he
    obtain ⟨hf, htopic⟩ := List.mem_filter.1 (hperm.mem_iff.2 hf)
    refine ⟨f, harchive ▸ hf, htopic, ?_⟩
    rw [Draft.tags_of_valid hprepared hplain he (beq_iff_eq.1 hvalid) hfile hdocument, Xml.filerefs_map_tag]
    exact hv

/-- A topic shows an image whose place holds no ampersand, and readers find it there. -/
theorem places_of_images_plain : ∃ book d images s' t,
    (sample.bind (titled "Book") sampleSettings none).Gives (showing "images/7.png") book s' ∧
    (sample.prepare (titled "Book") sampleSettings none).Gives (showing "images/7.png") (d, images) t ∧
    d.PlainSources ∧ d.ShowsImage book.archive "images/7.png" ∧
    d.localePath (Text.decode "images/7.png") ∈ book.archive.paths := by
  have hruns : ∃ book d images s' t,
      (sample.bind (titled "Book") sampleSettings none).Gives (showing "images/7.png") book s' ∧
      (sample.prepare (titled "Book") sampleSettings none).Gives (showing "images/7.png") (d, images) t ∧
      ((d.PlainSources ∧ d.linkIds.Nodup) ∧ "images/7.png" ∈ d.documentImages) ∧ True :=
    exists_bound (P := fun d => (d.PlainSources ∧ d.linkIds.Nodup) ∧ "images/7.png" ∈ d.documentImages)
      (Q := fun _ _ => True) (by decide +kernel)
  obtain ⟨book, d, images, s', t, hbind, hprepare, ⟨⟨hplain, hlinks⟩, hv⟩, -⟩ := hruns
  have hshown := showsImage_of_document rfl hbind hprepare hplain hlinks hv
  obtain ⟨i, hi, hname, -, hplaces⟩ := places_of_images rfl hbind hprepare hplain _ hshown
  refine ⟨book, d, images, s', t, hbind, hprepare, hplain, hshown, hplaces.2 ?_⟩
  have hreads : i.name = "7.png" := Draft.path_injective hname.symm
  rw [Text.decode_of_notMem (by rw [hreads]; decide)]
  exact List.mem_append_right _ (List.mem_map_of_mem hi)

/-- An ampersand in an image's place: readers look for the image where it is not. -/
theorem image_misplaced : ∃ book d images s' t,
    (sample.bind (titled "Book") sampleSettings none).Gives (showing "images/R&amp;D/7.png") book s' ∧
    (sample.prepare (titled "Book") sampleSettings none).Gives (showing "images/R&amp;D/7.png") (d, images) t ∧
    d.ShowsImage book.archive "images/R&amp;D/7.png" ∧
    d.localePath (Text.decode "images/R&amp;D/7.png") ∉ book.archive.paths := by
  have hruns : ∃ book d images s' t,
      (sample.bind (titled "Book") sampleSettings none).Gives (showing "images/R&amp;D/7.png") book s' ∧
      (sample.prepare (titled "Book") sampleSettings none).Gives (showing "images/R&amp;D/7.png") (d, images) t ∧
      ((d.PlainSources ∧ d.linkIds.Nodup) ∧ "images/R&amp;D/7.png" ∈ d.documentImages) ∧
      d.localePath (Text.decode "images/R&amp;D/7.png") ∉ book.archive.paths :=
    exists_bound (P := fun d => (d.PlainSources ∧ d.linkIds.Nodup) ∧ "images/R&amp;D/7.png" ∈ d.documentImages)
      (Q := fun d book => d.localePath (Text.decode "images/R&amp;D/7.png") ∉ book.archive.paths) (by decide +kernel)
  obtain ⟨book, d, images, s', t, hbind, hprepare, ⟨⟨hplain, hlinks⟩, hv⟩, hpath⟩ := hruns
  exact ⟨book, d, images, s', t, hbind, hprepare, showsImage_of_document rfl hbind hprepare hplain hlinks hv, hpath⟩

end Bindery
end Bookbinder
