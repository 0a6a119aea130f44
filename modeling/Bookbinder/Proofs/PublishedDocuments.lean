import Bookbinder.Book.Images
import Bookbinder.Proofs.FreshIds
import Bookbinder.Proofs.XmlSound
/-!
# The documents that files are written from

A valid page has its ids renamed and its images moved before it is written.  Neither adds or drops an element, changes
an attribute's name or puts a quote into a value (`plain_rewritten`, `plain_relocateAll`), so a file shows the very
elements of its document.
-/
namespace Bookbinder

open Xml (Attributes Document Element Writes)

namespace Xml

theorem isPlain_congr {e e' : Element} (hname : e'.name = e.name) (hkeys : ∀ a ∈ e'.attributes, ∃ a₀ ∈ e.attributes,
    a.1 = a₀.1 ∧ ('"' ∉ a₀.2.toList → '"' ∉ a.2.toList)) (h : e.isPlain = true) : e'.isPlain = true := by
  obtain ⟨hn, has⟩ := isPlain_iff.1 h
  refine isPlain_iff.2 ⟨hname ▸ hn, fun a ha => ?_⟩
  obtain ⟨a₀, ha₀, hkey, hvalue⟩ := hkeys a ha
  exact ⟨hkey ▸ (has a₀ ha₀).1, hvalue (has a₀ ha₀).2⟩

theorem Attributes.map_fst_set {as : Attributes} {name v : String} (h : as.get? name = some v) (value : String) :
    (as.set name value).map (·.1) = as.map (·.1) := by
  induction as with
  | nil => cases h
  | cons a as ih =>
    rw [Attributes.set]
    by_cases ha : a.1 = name
    · rw [if_pos ha, List.map_cons, List.map_cons, ha]
    · rw [if_neg ha, List.map_cons, List.map_cons]
      rw [get?_cons, if_neg ha] at h
      rw [ih h]

theorem Attributes.mem_set {as : Attributes} {name v : String} {a : String × String} (h : a ∈ as.set name v) :
    a = (name, v) ∨ a ∈ as := by
  induction as with
  | nil => exact .inl (List.mem_singleton.1 h)
  | cons b as ih =>
    rw [Attributes.set] at h
    split at h
    · exact (List.mem_cons.1 h).imp_right (List.mem_cons_of_mem _)
    · rcases List.mem_cons.1 h with rfl | h
      · exact .inr List.mem_cons_self
      · exact (ih h).imp_right (List.mem_cons_of_mem _)

theorem Attributes.mem_of_get? {as : Attributes} {name v : String} (h : as.get? name = some v) : (name, v) ∈ as := by
  obtain ⟨a, ha, rfl⟩ := Option.map_eq_some_iff.1 h
  have hname : a.1 = name := by simpa using List.find?_some ha
  rw [← hname]
  exact List.mem_of_find?_eq_some ha

end Xml

/-! ## Images -/

namespace ImageName

theorem subset_withoutFolder (cs : List Char) : withoutFolder cs ⊆ cs := by
  fun_induction withoutFolder cs with
  | case1 cs r h _ ih =>
    rw [Text.after?_eq_some h]
    exact List.Subset.trans ih (List.subset_append_right _ _)
  | case2 cs h => exact List.Subset.refl _

theorem quote_notMem_ofReference {fileref : String} (h : '"' ∉ fileref.toList) :
    '"' ∉ (ofReference fileref).toList := by
  rw [ofReference]
  split
  · rw [String.toList_ofList]
    exact fun hm => h (subset_withoutFolder _ hm)
  · decide

end ImageName

namespace Xml

/-- Where the image is that an element shows, as the element has it. -/
def Element.fileref? (e : Element) : Option String :=
  if e.name = "imagedata" then e.attribute? "fileref" else none

/-- Where the images are that elements show, in the order of the elements. -/
def filerefs (es : List Element) : List String :=
  es.filterMap Element.fileref?

end Xml

namespace ImageRef

/-- A topic's reference to the image in a place. -/
def ofFileref (t : Topic) (fileref : String) : ImageRef :=
  ⟨t, fileref, ImageName.ofReference fileref⟩

theorem relocate_of_ne {name : String} (h : name ≠ "imagedata") (t : Topic) (as : Attributes) (refs : List ImageRef) :
    relocate t name as refs = (as, refs) := if_neg h

theorem map_fst_relocate (t : Topic) (name : String) (as : Attributes) (refs : List ImageRef) :
    (relocate t name as refs).1.map (·.1) = as.map (·.1) := by
  rw [relocate]
  split
  · split
    · rename_i hfileref
      exact Attributes.map_fst_set hfileref _
    · rfl
  · rfl

theorem get?_relocate {key : String} (hkey : key ≠ "fileref") (t : Topic) (name : String) (as : Attributes)
    (refs : List ImageRef) : (relocate t name as refs).1.get? key = as.get? key := by
  rw [relocate]
  split
  · split
    · exact Attributes.get?_set_of_ne as _ hkey
    · rfl
  · rfl

theorem quote_relocate {t : Topic} {name : String} {as : Attributes} {refs : List ImageRef} {a : String × String}
    (h : a ∈ (relocate t name as refs).1) : ∃ a₀ ∈ as, a.1 = a₀.1 ∧ ('"' ∉ a₀.2.toList → '"' ∉ a.2.toList) := by
  rw [relocate] at h
  split at h
  · split at h
    · rename_i fileref hfileref
      rcases Attributes.mem_set h with rfl | h
      · refine ⟨_, Attributes.mem_of_get? hfileref, rfl, fun hq => ?_⟩
        rw [path, String.toList_append, List.mem_append]
        exact fun hm => hm.elim (by decide) (ImageName.quote_notMem_ofReference hq)
      · exact ⟨a, h, rfl, id⟩
    · exact ⟨a, h, rfl, id⟩
  · exact ⟨a, h, rfl, id⟩

section Relocating

variable {t : Topic} {doc : Document}

theorem sound_relocateAll (h : doc.root.toNode.Sound) : (relocateAll t doc).1.root.toNode.Sound :=
  Xml.Node.Sound.mapAttributes (map_fst_relocate t) [] h

/-- **Moving images puts no quote into a value.** -/
theorem plain_relocateAll (h : ∀ e ∈ doc.root.elements, e.isPlain = true) :
    ∀ e ∈ (relocateAll t doc).1.root.elements, e.isPlain = true := by
  intro e he
  obtain ⟨e₀, he₀, _, hname, has⟩ := Xml.Node.exists_of_mem_mapAttributes (relocate t) doc.root.toNode [] he
  refine Xml.isPlain_congr hname (fun a ha => ?_) (h e₀ he₀)
  rw [has] at ha
  exact quote_relocate ha

/-- **The references to images are those of the document's elements, in their order.** -/
theorem refs_relocateAll : (relocateAll t doc).2 = (Xml.filerefs doc.root.elements).map (ofFileref t) := by
  have hgathered (name : String) (as : Attributes) (refs : List ImageRef) : (relocate t name as refs).2
      = refs ++ ((⟨name, as, []⟩ : Element).fileref?.map (ofFileref t)).toList := by
    unfold relocate Element.fileref? Element.attribute?
    by_cases hname : name = "imagedata"
    · simp only [if_pos hname]
      cases as.get? "fileref" with
      | some fileref => rfl
      | none => exact (List.append_nil refs).symm
    · simp only [if_neg hname]
      exact (List.append_nil refs).symm
  rw [Xml.filerefs, List.map_filterMap, List.filterMap_eq_flatMap_toList]
  exact (Xml.Node.gathered_mapAttributes hgathered doc.root.toNode []).trans (List.nil_append _)

/-- **Moving the images puts each into the folder of images, under its name.** -/
theorem filerefs_relocateAll : Xml.filerefs (relocateAll t doc).1.root.elements
    = (Xml.filerefs doc.root.elements).map fun fileref => path (ImageName.ofReference fileref) := by
  have hmoved (name : String) (as : Attributes) (refs : List ImageRef) :
      (⟨name, (relocate t name as refs).1, []⟩ : Element).fileref?
        = (⟨name, as, []⟩ : Element).fileref?.map fun fileref => path (ImageName.ofReference fileref) := by
    unfold relocate Element.fileref? Element.attribute?
    by_cases hname : name = "imagedata"
    · simp only [if_pos hname]
      cases hfileref : as.get? "fileref" with
      | some fileref => exact Attributes.get?_set as _ _
      | none => exact hfileref
    · simp only [if_neg hname]
      rfl
  have hmap := Xml.Node.map_elements_mapAttributes (fun name as => (⟨name, as, []⟩ : Element).fileref?)
    (Option.map fun fileref => path (ImageName.ofReference fileref)) (relocate t) hmoved doc.root.toNode []
  have hlisted (es : List Element) : Xml.filerefs es
      = (es.map fun e => (⟨e.name, e.attributes, []⟩ : Element).fileref?).filterMap id := by
    rw [List.filterMap_map]
    rfl
  refine (hlisted _).trans ((congrArg (List.filterMap id) hmap).trans ?_)
  rw [List.filterMap_map, Xml.filerefs, List.map_filterMap]
  rfl

theorem innerIds_relocateAll : IdLedger.innerIds (relocateAll t doc).1.root = IdLedger.innerIds doc.root :=
  (Xml.nodesValues_mapAttributes "id" id (relocate t)
    (fun name as refs => by rw [get?_relocate (by decide), Option.map_id]; rfl) doc.root.children _).trans
      (List.map_id _)

theorem tag_relocateAll (h : doc.root.name ≠ "imagedata") : (relocateAll t doc).1.root.tag = doc.root.tag := by
  rw [relocateAll, Element.mapAttributes, relocate_of_ne h]
  rfl

end Relocating

end ImageRef

/-- The references to images in a reference's document, in document order. -/
def TopicEntry.imageRefs (e : TopicEntry) : List ImageRef :=
  match e.topic, e.document with
  | some t, some doc => (Xml.filerefs doc.root.elements).map (ImageRef.ofFileref t)
  | _, _ => []

/-! ## New names -/

namespace IdLedger

theorem quote_notMem_numbered {base : String} (h : '"' ∉ base.toList) (n : Nat) : '"' ∉ (numbered base n).toList := by
  rw [toList_numbered, List.mem_append, List.mem_cons]
  rintro (hm | hm | hm)
  · exact h hm
  · exact absurd hm (by decide)
  · exact notMem_digits (by decide) n hm

theorem quote_notMem_withDuplicate {base : String} (h : '"' ∉ base.toList) : ∀ duplicate : Option Nat,
    '"' ∉ (withDuplicate base duplicate).toList
  | none => h
  | some n => quote_notMem_numbered h n

theorem quote_notMem_candidate {base : String} (h : '"' ∉ base.toList) (step : Nat) : ∀ k : Nat,
    '"' ∉ (candidate base step k).toList
  | 0 => h
  | 1 => quote_notMem_numbered h step
  | k + 2 => quote_notMem_numbered (quote_notMem_numbered h step) (k + 1)

theorem quote_notMem_assign (l : IdLedger) (others originals : List String) (duplicate : Option Nat) (step : Nat) :
    ∀ {olds : List String} {given : List (String × String)}, (∀ old ∈ olds, '"' ∉ old.toList) →
      (∀ n ∈ given, '"' ∉ n.2.toList) → ∀ n ∈ l.assign others duplicate step originals olds given, '"' ∉ n.2.toList
  | [], _, _, hgiven => hgiven
  | old :: olds, given, holds, hgiven => by
    rw [assign]
    refine quote_notMem_assign l others originals duplicate step (fun o ho => holds o (List.mem_cons_of_mem _ ho)) ?_
    intro n hn
    rcases List.mem_append.1 hn with hn | hn
    · exact hgiven n hn
    · obtain ⟨k, -, he, -⟩ := exists_firstFree_eq (l.isFree others duplicate originals (given.map (·.2)) old)
        (candidate (withDuplicate old duplicate) step)
        (l.taken.length + others.length + (given.map (·.2)).length + originals.length) 0
      rw [List.mem_singleton.1 hn, he]
      exact quote_notMem_candidate (quote_notMem_withDuplicate (holds old List.mem_cons_self) duplicate) step _

theorem quote_notMem_renameValue {names : List (String × String)} (h : ∀ n ∈ names, '"' ∉ n.2.toList) {value : String}
    (hvalue : '"' ∉ value.toList) : '"' ∉ (renameValue names value).toList := by
  rw [renameValue]
  cases hf : names.find? fun n => n.1 == value with
  | none => exact hvalue
  | some n => exact h n (List.mem_of_find?_eq_some hf)

theorem map_fst_renameAll (names : List (String × String)) (as : Attributes) :
    (renameAll names as).map (·.1) = as.map (·.1) := by
  rw [renameAll, List.map_map]
  rfl

section Renaming

variable {names : List (String × String)} {root : Element}

theorem sound_renameIn (h : root.toNode.Sound) : (renameIn names root).toNode.Sound := by
  refine ⟨?_, Xml.nodesSound_mapAttributes (fun _ as _ => map_fst_renameAll names as) () h.2⟩
  rw [renameIn, List.map_map]
  exact h.1

theorem plain_renameIn (hnames : ∀ n ∈ names, '"' ∉ n.2.toList) (h : ∀ e ∈ root.elements, e.isPlain = true) :
    ∀ e ∈ (renameIn names root).elements, e.isPlain = true := by
  intro e he
  rcases List.mem_cons.1 he with rfl | he
  · refine Xml.isPlain_congr (e := root) rfl (fun a ha => ?_) (h root List.mem_cons_self)
    obtain ⟨a₀, ha₀, rfl⟩ := List.mem_map.1 ha
    refine ⟨a₀, ha₀, rfl, fun hq => ?_⟩
    dsimp only
    split
    · exact hq
    · exact quote_notMem_renameValue hnames hq
  · obtain ⟨e₀, he₀, _, hname, has⟩ := Xml.exists_of_mem_nodesMapAttributes _ _ _ he
    refine Xml.isPlain_congr hname (fun a ha => ?_) (h e₀ (List.mem_cons_of_mem _ he₀))
    rw [has] at ha
    obtain ⟨a₀, ha₀, rfl⟩ := List.mem_map.1 ha
    exact ⟨a₀, ha₀, rfl, quote_notMem_renameValue hnames⟩

end Renaming

section Rewriting

variable (l : IdLedger) (topicId : Int) (duplicate : Option Nat) (step : Nat) {root : Element}

theorem sound_rewritten (h : root.toNode.Sound) : (l.rewritten topicId duplicate step root).toNode.Sound := by
  rw [rewritten, enforce]
  dsimp only
  split
  · exact h
  · exact sound_renameIn h

/-- **Renaming puts no quote into a value.** -/
theorem plain_rewritten (h : ∀ e ∈ root.elements, e.isPlain = true) :
    ∀ e ∈ (l.rewritten topicId duplicate step root).elements, e.isPlain = true := by
  have hids : ∀ id ∈ innerIds root, '"' ∉ id.toList := fun id hid => by
    obtain ⟨e, he, hid⟩ := List.mem_filterMap.1 hid
    exact ((Xml.isPlain_iff.1 (h e (List.mem_cons_of_mem _ he))).2 _ (Attributes.mem_of_get? hid)).2
  have hnames : ∀ n ∈ l.namesFor topicId duplicate step root, '"' ∉ n.2.toList :=
    quote_notMem_assign l (l.elsewhere topicId) (innerIds root) duplicate step
      (fun old hold => hids old (List.mem_eraseDups.1 hold)) fun _ hn => absurd hn List.not_mem_nil
  rw [rewritten, enforce]
  dsimp only
  split
  · exact h
  · exact plain_renameIn (fun n hn => hnames n (List.mem_of_mem_filter hn)) h

theorem tag_rewritten (h : ∀ a ∈ root.attributes, a.1 = "id") :
    (l.rewritten topicId duplicate step root).tag = root.tag := by
  rw [rewritten, enforce]
  dsimp only
  split
  · rfl
  · rw [Element.tag, Element.tag, renameIn]
    congr 1
    refine (List.map_congr_left fun a ha => ?_).trans (List.map_id _)
    dsimp only
    rw [if_pos (h a ha)]
    rfl

end Rewriting

end IdLedger

/-! ## Writing -/

namespace Xml

/-- **A document of plain elements is written with the tags of its elements.** -/
theorem writes_root {root : Element} (h : root.toNode.Sound) (hp : ∀ e ∈ root.elements, e.isPlain = true) :
    Writes root.toXml.toList (root.elements.map Element.tag) :=
  writes_node h hp

theorem exists_tags_root {root : Element} (h : root.tag.isPlain = true) (hkeys : (root.attributes.map (·.1)).Nodup) :
    ∃ es, tags root.toXml.toList = root.tag :: es := by
  obtain ⟨name, as, cs⟩ := root
  cases cs with
  | nil =>
    have hw := writes_empty h hkeys [] fun _ hc => absurd hc List.not_mem_nil
    rw [Element.toXml, Element.toNode, toList_toXml_leaf]
    exact ⟨[], hw.tags_eq⟩
  | cons n ns =>
    have hw := writes_opening h hkeys
    rw [Element.toXml, Element.toNode, toList_toXml_cons, List.append_assoc]
    exact ⟨_, hw _⟩

end Xml
end Bookbinder
