import Bookbinder.Book.BackMatter
import Bookbinder.Proofs.BookIds
import Bookbinder.Proofs.ElementContent
import Bookbinder.Proofs.XmlExtents
/-!
# The listing of a content specification

The appendix of a book lists the text of its specification in sections of character data.  The listing holds just that
text, less what XML does not allow, if and only if the text is sealed (`listsText_iff`).  Where it is not, one section
ends too early, and what would be left of the sections has no room in the file.
-/
namespace Bookbinder
namespace Xml

open Reading

/-! ## Texts that XML allows -/

def Legal (s : String) : Prop :=
  ∀ c ∈ s.toList, isLegal c = true

instance (s : String) : Decidable (Legal s) :=
  inferInstanceAs (Decidable (∀ c ∈ s.toList, isLegal c = true))

section Legal

variable {s t name : String}

theorem Legal.append (hs : Legal s) (ht : Legal t) : Legal (s ++ t) := fun c hc => by
  rw [String.toList_append, List.mem_append] at hc
  exact hc.elim (hs c) (ht c)

theorem Legal.cleanText_eq (h : Legal s) : cleanText s = s := by
  rw [cleanText, List.filter_eq_self.2 h, String.ofList_toList]

theorem legal_of_slug (h : s.toList.all Slug.isSlugChar = true) : Legal s := fun c hc => by
  have hslug := List.all_eq_true.1 h c hc
  simp only [Slug.isSlugChar, Char.isAlphanum, Bool.or_eq_true, beq_iff_eq] at hslug
  have hrange : 0x20 ≤ c.toNat ∧ c.toNat ≤ 0xD7FF := by
    rcases hslug with (((h | h) | rfl) | rfl) | rfl
    · rcases Bool.or_eq_true_iff.1 h with h | h
      · have hupper : 65 ≤ c.toNat ∧ c.toNat ≤ 90 := of_decide_eq_true (p := c.val ≥ 'A'.val ∧ c.val ≤ 'Z'.val) h
        omega
      · obtain ⟨hlow, hhigh⟩ := Bool.and_eq_true_iff.1 h
        have hlower : 97 ≤ c.toNat ∧ c.toNat ≤ 122 :=
          ⟨of_decide_eq_true (p := c.val ≥ 'a'.val) hlow, of_decide_eq_true (p := c.val ≤ 'z'.val) hhigh⟩
        omega
    · obtain ⟨hlow, hhigh⟩ := Bool.and_eq_true_iff.1 h
      have hdigit : 48 ≤ c.toNat ∧ c.toNat ≤ 57 :=
        ⟨of_decide_eq_true (p := c.val ≥ '0'.val) hlow, of_decide_eq_true (p := c.val ≤ '9'.val) hhigh⟩
      omega
    all_goals decide
  simp [isLegal, hrange]

theorem Legal.startTag (hname : Legal name) {key value : String} (hkey : Legal key) (hvalue : Legal value) :
    Legal (startTag name [(key, value)]) := by
  have hattribute : Legal (attributesXml [(key, value)]) :=
    (((((show Legal " " by decide).append hkey).append (by decide)).append hvalue).append (by decide)).append (by decide)
  exact (((show Legal "<" by decide).append hname).append hattribute).append (by decide)

end Legal

/-! ## Pieces without terminators -/

theorem terminatorsFrom_le {k l : Nat} (h : l ≤ k) (cs : List Char) :
    terminatorsFrom k cs ≤ terminatorsFrom l cs + 1 := by
  induction cs generalizing k l with
  | nil => exact Nat.zero_le _
  | cons c cs ih =>
    rw [terminatorsFrom, terminatorsFrom]
    by_cases hc : c = ']'
    · have hend (j : Nat) : ¬ (j = 2 ∧ c = '>') := fun hj => absurd (hc.symm.trans hj.2) (by decide)
      rw [if_neg (hend k), if_neg (hend l)]
      have := ih (brackets_mono h c)
      omega
    · rw [show brackets k c = 0 from if_neg hc, show brackets l c = 0 from if_neg hc]
      split <;> omega

/-- Each of the terminators in a text begins in another piece than it ends in. -/
theorem terminatorsFrom_join_le {pieces : List String} (h : ∀ p ∈ pieces, terminators p.toList = 0) (k : Nat) :
    terminatorsFrom k (String.join pieces).toList ≤ pieces.length := by
  induction pieces generalizing k with
  | nil => exact Nat.zero_le _
  | cons p ps ih =>
    have hfirst := terminatorsFrom_le (Nat.zero_le k) p.toList
    rw [terminatorsFrom_zero (h p List.mem_cons_self)] at hfirst
    have hrest := ih (fun q hq => h q (List.mem_cons_of_mem p hq)) (p.toList.foldl brackets k)
    rw [String.join_cons, String.toList_append, terminatorsFrom_append, List.length_cons]
    omega

theorem terminators_join_le {pieces : List String} (h : ∀ p ∈ pieces, terminators p.toList = 0) :
    terminators (String.join pieces).toList ≤ pieces.length - 1 := by
  cases pieces with
  | nil => exact Nat.zero_le _
  | cons p ps =>
    rw [terminators_eq, String.join_cons, String.toList_append, terminatorsFrom_append,
      terminatorsFrom_zero (h p List.mem_cons_self), Nat.zero_add]
    exact terminatorsFrom_join_le (fun q hq => h q (List.mem_cons_of_mem p hq)) _

/-- What a section holds has no terminator. -/
theorem terminators_of_legible {content : String} (h : (Node.cdata content).Legible) :
    terminators content.toList = 0 := by
  obtain ⟨m, hm, c, cs, hsource, hnext⟩ := h
  cases m with
  | cdata cs' =>
    cases hm
    cases hsource
    have hread : Markup.nextBang ("[CDATA[".toList ++ (cs' ++ "]]>".toList ++ [])) = .ok (.cdata cs', []) :=
      hnext [] fun hc => absurd hc (by decide)
    have hhead : ("[CDATA[".toList ++ (cs' ++ "]]>".toList ++ [])).head? = some '[' := rfl
    unfold Markup.nextBang at hread
    simp only [hhead, Text.after?_self_append, Option.bind_some] at hread
    split at hread
    · rename_i a r hcut
      cases hread
      rw [String.toList_ofList]
      exact terminators_of_cut? hcut
    · cases hread
  | _ => cases hm

end Xml

namespace Template

theorem legal_preamble {c : Context} {element name : String} (hroot : c.get "root_element" = .text element)
    (htitle : c.get "escaped_book_title" = .text name) (helement : Xml.Legal element) (hname : Xml.Legal name) :
    Xml.Legal (preamble c) := by
  unfold preamble
  rw [raw, raw, hroot, htitle]
  refine ((((Xml.Legal.append ?_ helement).append ?_).append ?_).append hname).append ?_
  all_goals decide

end Template

namespace Draft

open Xml

/-! ## The page -/

def specId (name : String) : String :=
  "appe-" ++ Text.escape name ++ "-Build_Content_Specification"

def specHeading : String :=
  "\n\t" ++ (tagsAround "title" [] "Build Content Specification" ++ "\n\t")

/-- The appendix up to where its listing begins. -/
def specOpening (name : String) : String :=
  startTag "appendix" [("id", specId name)] ++ specHeading

/-- The appendix from where its listing ends. -/
def specClosing : String :=
  endTag "programlisting" ++ ("\n" ++ (endTag "appendix" ++ "\n"))

theorem specAppendixText_eq (preamble name text : String) : specAppendixText preamble name text =
    Text.trimEnd preamble ++ "\n"
      ++ (specOpening name ++ (startTag "programlisting" [] ++ (wrapInCdata text ++ specClosing))) := by
  have hopen : "\n<appendix id=\"appe-" = "\n" ++ ("<" ++ ("appendix" ++ (" " ++ ("id" ++ ("=\"" ++ "appe-"))))) := by
    decide
  have hheading : "-Build_Content_Specification\">\n\t<title>Build Content Specification</title>\n\t<programlisting>"
      = "-Build_Content_Specification" ++ ("\"" ++ ("" ++ (">" ++ (specHeading ++ startTag "programlisting" [])))) := by
    decide
  have hclose : "</programlisting>\n</appendix>\n" = specClosing := by decide
  rw [specOpening, startTag, attributesXml, attributesXml, specId]
  simp only [specAppendixText, hopen, hheading, hclose, String.append_assoc]

variable {lead name : String}

theorem cleanText_specAppendixText {preamble : String} (hpreamble : Legal preamble)
    (htrim : Text.trimEnd preamble = preamble) (hname : name.toList.all Slug.isSlugChar = true) (text : String) :
    cleanText (specAppendixText preamble name text) = preamble ++ "\n"
      ++ (specOpening name ++ (startTag "programlisting" [] ++ (cleanText (wrapInCdata text) ++ specClosing))) := by
  have hid : Legal (specId name) := by
    rw [specId, escape_of_slug hname]
    exact ((show Legal "appe-" by decide).append (legal_of_slug hname)).append (by decide +kernel)
  have hopening : Legal (specOpening name) :=
    (Legal.startTag (by decide) (by decide +kernel) hid).append (by decide +kernel)
  have hline : cleanText "\n" = "\n" := by decide
  have hlisting : cleanText (startTag "programlisting" []) = startTag "programlisting" [] := by decide
  have hclosing : cleanText specClosing = specClosing := by decide
  rw [specAppendixText_eq, htrim, cleanText_append, cleanText_append, cleanText_append, cleanText_append,
    cleanText_append, hpreamble.cleanText_eq, hopening.cleanText_eq, hline, hlisting, hclosing]

/-- A file that lists a text, in sections of character data that hold all of it but what XML does not allow. -/
def ListsText (file text : String) : Prop :=
  ∃ d listing pieces, Document.read file = .ok d ∧ d.root.name = "appendix" ∧
    d.root.firstChild? "programlisting" = some listing ∧ listing.children = pieces.map .cdata ∧
    String.join pieces = cleanText text

/-- What stands before the listing. -/
def specNodes : List Node :=
  [.text "\n\t", .element "title" [] [.text "Build Content Specification"], .text "\n\t"]

theorem addsBefore_specHeading : AddsBefore specHeading specNodes := by
  have hline : AddsBefore "\n\t" [.text "\n\t"] := addsBefore_running (by decide) (by decide)
  have htitle : Adds (tagsAround "title" [] "Build Content Specification")
      [.element "title" [] [.text "Build Content Specification"]] :=
    adds_tagsAround (by decide) (by decide) (addsBefore_running (by decide) (by decide))
  exact hline.append_before ((begins_tagsAround _ _ _).append _) (htitle.append_before hline)

theorem isPlain_appendix (name : String) : (⟨"appendix", [("id", specId name)], []⟩ : Element).isPlain = true := by
  refine isPlain_with "appendix" "id" (by decide) ?_
  rw [specId, String.toList_append, String.toList_append, List.mem_append, List.mem_append, not_or, not_or]
  exact ⟨⟨by decide, Text.quote_notMem_escape name⟩, by decide +kernel⟩

theorem isPlain_listing : (⟨"programlisting", [], []⟩ : Element).isPlain = true := by decide

/-- The file of an appendix, from what stands before its root. -/
def specPage (lead name sections : String) : String :=
  lead ++ (specOpening name ++ (startTag "programlisting" [] ++ (sections ++ specClosing)))

/-- What is read of the appendix when its listing begins. -/
theorem exists_run_listing (hlead : Introduces lead) (name sections : String) : ∃ r : Reading, r.root = none ∧
    r.opened = [⟨"programlisting", [], []⟩, ⟨"appendix", [("id", specId name)], specNodes.reverse⟩] ∧
    Document.read (specPage lead name sections) = r.run (sections.toList ++ specClosing.toList) := by
  obtain ⟨r, hroot, ho, hread⟩ := exists_run_root hlead (isPlain_appendix name) (List.nodup_singleton _)
    addsBefore_specHeading ((begins_startTag "programlisting" []).append (sections ++ specClosing))
  refine ⟨{ r with opened := ⟨"programlisting", [], []⟩ :: r.opened }, hroot, by rw [ho], ?_⟩
  rw [specPage, specOpening, hread, String.toList_append, run_startTag isPlain_listing List.nodup_nil,
    String.toList_append]

theorem listsText_of_sealed (hlead : Introduces lead) (name : String) {text : String} (h : Sealed text) :
    ListsText (specPage lead name (cleanText (wrapInCdata text))) text := by
  obtain ⟨pieces, hjoin, hpieces⟩ := exists_adds_wrapInCdata (cleanText text)
  have hline : AddsBefore "\n" [.text "\n"] := addsBefore_running (by decide) (by decide)
  have hlisting := adds_tagsAround isPlain_listing List.nodup_nil hpieces.before
  have hinner := addsBefore_specHeading.append_before ((begins_tagsAround "programlisting" [] _).append "\n")
    (hlisting.append_before hline)
  obtain ⟨d, hread, hroot⟩ := exists_read_root hlead (isPlain_appendix name) (List.nodup_singleton _) hinner (.inr rfl)
  have hpage : specPage lead name (cleanText (wrapInCdata text)) = lead ++ (tagsAround "appendix" [("id", specId name)]
      (specHeading ++ (tagsAround "programlisting" [] (wrapInCdata (cleanText text)) ++ "\n")) ++ "\n") := by
    rw [specPage, cleanText_wrapInCdata h, specOpening, specClosing, tagsAround, tagsAround]
    simp only [String.append_assoc]
  exact ⟨d, ⟨"programlisting", [], pieces.map .cdata⟩, pieces, by rw [hpage]; exact hread, by rw [hroot],
    by rw [hroot]; rfl, rfl, hjoin⟩

/-- What is read as the listing is the first child of its name. -/
theorem listing_of_run {name : String} {r : Reading} (ho : r.opened =
    [⟨"programlisting", [], []⟩, ⟨"appendix", [("id", specId name)], specNodes.reverse⟩]) {cs : List Char} {d : Document}
    (h : r.run cs = .ok d) : ∃ inner after, d.root.firstChild? "programlisting" = some ⟨"programlisting", [], inner⟩ ∧
      d.root.toNode = .element "appendix" [("id", specId name)]
        (specNodes ++ .element "programlisting" [] inner :: after) := by
  have hwithin := Reading.within_of_run h
  rw [Reading.Within, ho] at hwithin
  obtain ⟨-, inner, after, hroot⟩ := hwithin
  rw [List.reverse_reverse] at hroot
  have hnode : d.root.toNode = .element "appendix" [("id", specId name)]
      (specNodes ++ .element "programlisting" [] inner :: after) := hroot
  refine ⟨inner, after, ?_, hnode⟩
  have hchildren : d.root.children = specNodes ++ .element "programlisting" [] inner :: after :=
    (Node.element.inj hnode).2.2
  rw [Element.firstChild?, hchildren]
  rfl

theorem length_sections (text : String) : (cleanText (wrapInCdata text)).toList.length
    = (cleanText text).toList.length + 12 * terminators text.toList + 12 := by
  have hopen : (cleanChars "<![CDATA[".toList).length = 9 := by decide
  have hend : (cleanChars "]]>".toList).length = 3 := by decide
  rw [toList_cleanText, toList_wrapInCdata, cleanChars_append, cleanChars_append, List.length_append, List.length_append,
    length_clean_splitFrom, hopen, hend, ← toList_cleanText, ← terminators_eq]
  omega

theorem sealed_of_listsText (hlead : Introduces lead) (name : String) {text : String}
    (h : ListsText (specPage lead name (cleanText (wrapInCdata text))) text) : Sealed text := by
  obtain ⟨d, listing, pieces, hread, -, hlisting, hpieces, hjoin⟩ := h
  obtain ⟨r, hempty, ho, hrun⟩ := exists_run_listing hlead name (cleanText (wrapInCdata text))
  rw [hread] at hrun
  obtain ⟨inner, after, hfirst, hroot⟩ := listing_of_run ho hrun.symm
  cases hlisting.symm.trans hfirst
  change inner = _ at hpieces
  subst hpieces
  -- The sections have room between the listing's tags, so there are hardly more than were written.
  have hextent := Reading.extent_le_of_run hrun.symm
  have hcount : pieces.length ≤ terminators text.toList + 1 := by
    have hroom : r.extent = nodesExtent specNodes := by
      simp [Reading.extent, hempty, ho, nodesExtent_reverse]
    have hclosing : specClosing.toList.length = 30 := by decide
    have happendix : "appendix".toList.length = 8 := by decide
    have htag : "programlisting".toList.length = 14 := by decide
    rw [hroot, Node.extent, nodesExtent_append, nodesExtent, Node.extent, nodesExtent_cdata, hjoin, hroom,
      List.length_append, length_sections, hclosing, happendix, htag] at hextent
    omega
  -- Each terminator of the listed text lies between two sections.
  have hlegible := spreads_legible.read hread
  rw [hroot, Node.Legible, nodesLegible_iff] at hlegible
  have hlisted := hlegible.2.2 _ (List.mem_append_right _ List.mem_cons_self)
  rw [Node.Legible, nodesLegible_iff] at hlisted
  have hsections : ∀ p ∈ pieces, terminators p.toList = 0 := fun p hp =>
    terminators_of_legible (hlisted.2.2 _ (List.mem_map_of_mem hp))
  have hbetween := terminators_join_le hsections
  rw [hjoin] at hbetween
  have hkept := terminatorsFrom_le_clean (Nat.le_refl 0) (by omega) text.toList
  rw [← toList_cleanText, ← terminators_eq, ← terminators_eq] at hkept
  unfold Sealed
  omega

/-- **A listing holds the text of a specification if and only if the text is sealed.** -/
theorem listsText_iff (hlead : Introduces lead) (name text : String) :
    ListsText (specPage lead name (cleanText (wrapInCdata text))) text ↔ Sealed text :=
  ⟨sealed_of_listsText hlead name, listsText_of_sealed hlead name⟩

end Draft
end Bookbinder
