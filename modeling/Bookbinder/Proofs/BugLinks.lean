import Bookbinder.Proofs.ImagePlaces
import Bookbinder.Proofs.TopicPages
/-!
# Links for bug reports

What a link fills in for the reader of a topic is read off it again: its query is cut at the ampersands and the equals
signs, and the values are decoded (`BugReport.parameters?_url`).  So whatever a topic's tags, a specification and the
settings hold, the tracker is told just that (`Draft.bugLink_reads`).
-/
namespace Bookbinder

namespace Percent

/-! ## Reading percent encoding -/

/-- The bytes that a text in percent encoding stands for.  A percent sign and two hexadecimal digits stand for one byte,
any other character for the bytes of its UTF-8 form. -/
def decodeBytes : List Char → List UInt8
  | '%' :: a :: b :: cs => match Text.hexDigit? a, Text.hexDigit? b with
    | some high, some low => .ofNat (16 * high + low) :: decodeBytes cs
    | _, _ => String.utf8EncodeChar '%' ++ decodeBytes (a :: b :: cs)
  | c :: cs => String.utf8EncodeChar c ++ decodeBytes cs
  | [] => []

/-- The text that a text in percent encoding stands for, if its bytes are one. -/
def decode? (cs : List Char) : Option String :=
  String.fromUTF8? (decodeBytes cs).toByteArray

theorem decodeBytes_cons {c : Char} (h : c ≠ '%') (cs : List Char) :
    decodeBytes (c :: cs) = String.utf8EncodeChar c ++ decodeBytes cs := by
  rw [decodeBytes]
  exact fun _ _ _ hc => absurd hc h

theorem hexDigit?_hexDigit {n : Nat} (h : n < 16) : Text.hexDigit? (hexDigit n) = some n := by
  have hall : ∀ n : Fin 16, Text.hexDigit? (hexDigit n) = some n.val := by decide
  exact hall ⟨n, h⟩

theorem isAlphanum_hexDigit {n : Nat} (h : n < 16) : (hexDigit n).isAlphanum = true := by
  have hall : ∀ n : Fin 16, (hexDigit n).isAlphanum = true := by decide
  exact hall ⟨n, h⟩

/-- A letter or digit is its own byte. -/
theorem utf8EncodeChar_of_isPlain {b : UInt8} (h : isPlain b = true) : String.utf8EncodeChar (Char.ofUInt8 b) = [b] := by
  have hall : ∀ n : Fin 256, isPlain (.ofNat n) = true → String.utf8EncodeChar (Char.ofUInt8 (.ofNat n)) = [.ofNat n] := by
    decide +kernel
  have hb := hall ⟨b.toNat, b.toNat_lt⟩
  rw [UInt8.ofNat_toNat] at hb
  exact hb h

theorem decodeBytes_encodeByte (b : UInt8) (cs : List Char) : decodeBytes (encodeByte b ++ cs) = b :: decodeBytes cs := by
  rw [encodeByte]
  split
  · rename_i hplain
    have hne : Char.ofUInt8 b ≠ '%' := fun he => by
      rw [isPlain, he] at hplain
      exact absurd hplain (by decide)
    rw [List.singleton_append, decodeBytes_cons hne, utf8EncodeChar_of_isPlain hplain, List.singleton_append]
  · have hb := b.toNat_lt
    have hvalue : 16 * (b.toNat / 16) + b.toNat % 16 = b.toNat := by omega
    simp only [List.cons_append, List.nil_append, decodeBytes, hexDigit?_hexDigit (show b.toNat / 16 < 16 by omega),
      hexDigit?_hexDigit (show b.toNat % 16 < 16 by omega), hvalue, UInt8.ofNat_toNat]

theorem decodeBytes_encodeBytes (bs : List UInt8) (cs : List Char) :
    decodeBytes (bs.flatMap encodeByte ++ cs) = bs ++ decodeBytes cs := by
  induction bs with
  | nil => rfl
  | cons b bs ih => rw [List.flatMap_cons, List.append_assoc, decodeBytes_encodeByte, ih, List.cons_append]

theorem decodeBytes_encodeChars (cs : List Char) : decodeBytes (encodeChars cs) = cs.flatMap String.utf8EncodeChar := by
  induction cs with
  | nil => rfl
  | cons c cs ih =>
    have hcons : encodeChars (c :: cs) = (String.utf8EncodeChar c).flatMap encodeByte ++ encodeChars cs := rfl
    rw [hcons, decodeBytes_encodeBytes, ih, List.flatMap_cons]

/-- **Percent encoding is undone exactly.** -/
theorem decode?_encode (s : String) : decode? (encode s).toList = some s := by
  have hbytes : (decodeBytes (encode s).toList).toByteArray = s.toByteArray := by
    rw [encode, String.toList_ofList, decodeBytes_encodeChars, ← String.utf8Encode_toList]
    rfl
  rw [decode?, hbytes, String.fromUTF8?]
  exact dif_pos s.isValidUTF8

/-- An encoded text holds letters, digits and percent signs only. -/
theorem mem_encode {s : String} {c : Char} (h : c ∈ (encode s).toList) : c.isAlphanum = true ∨ c = '%' := by
  rw [encode, String.toList_ofList, encodeChars] at h
  obtain ⟨_, -, h⟩ := List.mem_flatMap.1 h
  obtain ⟨b, -, h⟩ := List.mem_flatMap.1 h
  have hb := b.toNat_lt
  rw [encodeByte] at h
  split at h
  · rename_i hplain
    rw [List.mem_singleton.1 h]
    exact .inl hplain
  · simp only [List.mem_cons, List.not_mem_nil, or_false] at h
    rcases h with rfl | rfl | rfl
    · exact .inr rfl
    · exact .inl (isAlphanum_hexDigit (by omega))
    · exact .inl (isAlphanum_hexDigit (by omega))

end Percent

namespace Text

theorem notMem_intercalate {c sep : Char} (hsep : c ≠ sep) : ∀ {ws : List (List Char)}, (∀ w ∈ ws, c ∉ w) →
    c ∉ [sep].intercalate ws
  | [], _ => by simp
  | [w], h => by simpa using h
  | w :: v :: ws, h => by
    rw [List.intercalate_cons_cons, List.mem_append, List.mem_append, not_or, not_or, List.mem_singleton]
    exact ⟨⟨h w List.mem_cons_self, hsep⟩, notMem_intercalate hsep fun u hu => h u (List.mem_cons_of_mem _ hu)⟩

end Text

namespace BugReport

/-! ## Reading links -/

/-- What follows the last question mark of an address. -/
def queryOf (url : String) : List Char :=
  (url.toList.reverse.takeWhile (· != '?')).reverse

/-- The name and the value of a parameter, as it stands in a query. -/
def parameter? (part : List Char) : Option (String × String) :=
  match Text.splitAt '=' part with
  | [name, value] => (Percent.decode? value).map fun v => (String.ofList name, v)
  | _ => none

/-- The parameters that an address hands over. -/
def parameters? (url : String) : Option (List (String × String)) :=
  (Text.splitAt '&' (queryOf url)).mapM parameter?

theorem queryOf_append {query : String} (h : '?' ∉ query.toList) (base : String) :
    queryOf (base ++ "?" ++ query) = query.toList := by
  have hplain : ∀ c ∈ query.toList.reverse, (c != '?') = true := by
    simp only [List.mem_reverse, bne_iff_ne]
    exact fun c hc he => h (he ▸ hc)
  rw [queryOf, String.toList_append, List.reverse_append, List.takeWhile_append_of_pos hplain]
  simp

/-- A name that cannot be mistaken for anything else in an address. -/
def IsName (name : String) : Prop :=
  '?' ∉ name.toList ∧ '&' ∉ name.toList ∧ '=' ∉ name.toList

instance (name : String) : Decidable (IsName name) :=
  inferInstanceAs (Decidable (_ ∧ _ ∧ _))

theorem notMem_encode {c : Char} (h : c.isAlphanum = false) (hpercent : c ≠ '%') (s : String) :
    c ∉ (Percent.encode s).toList := fun hmem =>
  (Percent.mem_encode hmem).elim (fun halpha => by simp [halpha] at h) hpercent

/-- A parameter as it stands in a query. -/
def part (p : String × String) : List Char :=
  p.1.toList ++ '=' :: (Percent.encode p.2).toList

theorem parameter?_part {p : String × String} (h : IsName p.1) : parameter? (part p) = some p := by
  rw [parameter?, part, Text.splitAt_append_cons, Text.splitAt_of_notMem h.2.2,
    Text.splitAt_of_notMem (notMem_encode (by decide) (by decide) p.2), List.singleton_append]
  simp [Percent.decode?_encode]

theorem notMem_part {c : Char} {p : String × String} (hname : c ∉ p.1.toList) (heq : c ≠ '=')
    (h : c.isAlphanum = false) (hpercent : c ≠ '%') : c ∉ part p := by
  simp [part, hname, heq, notMem_encode h hpercent]

theorem toList_query (ps : List (String × String)) : (query ps).toList = ['&'].intercalate (ps.map part) := by
  rw [query, String.toList_intercalate, List.map_map]
  congr 1
  refine List.map_congr_left fun p _ => ?_
  simp [part]

theorem mapM_parameter?_part : ∀ {ps : List (String × String)}, (∀ p ∈ ps, IsName p.1) →
    (ps.map part).mapM parameter? = some ps
  | [], _ => rfl
  | p :: ps, h => by
    rw [List.map_cons, List.mapM_cons, parameter?_part (h p List.mem_cons_self),
      mapM_parameter?_part fun q hq => h q (List.mem_cons_of_mem _ hq)]
    rfl

/-- **Parameters are read off the address that hands them over.** -/
theorem parameters?_query {ps : List (String × String)} (hne : ps ≠ []) (h : ∀ p ∈ ps, IsName p.1) (base : String) :
    parameters? (base ++ "?" ++ query ps) = some ps := by
  have hquery : '?' ∉ (query ps).toList := by
    rw [toList_query]
    refine Text.notMem_intercalate (by decide) (List.forall_mem_map.2 fun p hp => ?_)
    exact notMem_part (h p hp).1 (by decide) (by decide) (by decide)
  have hparts : Text.splitAt '&' (query ps).toList = ps.map part := by
    rw [toList_query, Text.splitAt_intercalate (by simpa using hne)]
    exact List.forall_mem_map.2 fun p hp => notMem_part (h p hp).2.1 (by decide) (by decide) (by decide)
  rw [parameters?, queryOf_append hquery, hparts, mapM_parameter?_part h]

theorem isName_of_mem_optional {name : String} (h : IsName name) {v : Option String} :
    ∀ p ∈ optional name v, IsName p.1 := by
  cases v with
  | none => exact fun _ hp => absurd hp List.not_mem_nil
  | some value => exact List.forall_mem_singleton.2 h

theorem isName_of_mem_parameters {r : BugReport} : ∀ p ∈ r.parameters, IsName p.1 := by
  simp only [parameters, List.forall_mem_append, List.forall_mem_cons]
  exact ⟨⟨⟨by decide, by decide, by decide, by decide, fun _ hp => absurd hp List.not_mem_nil⟩,
    isName_of_mem_optional (by decide)⟩, isName_of_mem_optional (by decide)⟩

/-- The link on a report hands over the report's parameters, wherever the tracker is. -/
theorem parameters?_url (r : BugReport) (tracker : String) : parameters? (r.url tracker) = some r.parameters := by
  have hurl : r.url tracker = trimSlashes tracker ++ "/enter_bug.cgi" ++ "?" ++ query r.parameters := by
    rw [url, show "/enter_bug.cgi?" = "/enter_bug.cgi" ++ "?" by decide, ← String.append_assoc]
  rw [hurl, parameters?_query (by simp [parameters]) isName_of_mem_parameters]

end BugReport

/-! ## What a topic is reported under -/

namespace Topic

/-- What a topic's tags say of a property: the value that the first tag with the property has for it, if there is one. -/
inductive TagsSay (t : Topic) (id : Int) : Option String → Prop
  | first (before : List Tag) (tag : Tag) (after : List Tag) (value : String) (tags : t.tags = before ++ tag :: after)
    (has : tag.property? id = some value) (before_none : ∀ other ∈ before, other.property? id = none) :
    TagsSay t id (some value)
  | nothing (no_tag : ∀ tag ∈ t.tags, tag.property? id = none) : TagsSay t id none

theorem tagsSay_iff {t : Topic} {id : Int} {v : Option String} : t.TagsSay id v ↔ t.tagProperty? id = v := by
  rw [tagProperty?]
  constructor
  · rintro (⟨before, tag, after, value, htags, hvalue, hbefore⟩ | hnone)
    · exact List.findSome?_eq_some_iff.2 ⟨before, tag, after, htags, hvalue, hbefore⟩
    · exact List.findSome?_eq_none_iff.2 hnone
  · rintro rfl
    cases h : t.tags.findSome? (·.property? id) with
    | none => exact .nothing (List.findSome?_eq_none_iff.1 h)
    | some value =>
      obtain ⟨before, tag, after, htags, hvalue, hbefore⟩ := List.findSome?_eq_some_iff.1 h
      exact .first before tag after value htags hvalue hbefore

end Topic

namespace Draft

open Xml (Element)

/-- **A tracker is told what is known of a topic.**  Where links for bug reports are wanted, the page of a topic has one
whose parameters are the topic's product, component and version, the build, its locale and the topic, and then the
keywords and the assignee if there are any.  What the tags of the topic say comes first, and then the specification. -/
theorem bugLink_reads {d : Draft} (hlinks : d.settings.insertBugLinks = true) (t : Topic) (root : Element)
    (c : Template.Context) : ∃ url product component version keywords assignee,
      (d.pageContext t root c).get "bug_link" = .text url ∧
      t.TagsSay PropertyId.bugProduct product ∧ t.TagsSay PropertyId.bugComponent component ∧
      t.TagsSay PropertyId.bugVersion version ∧ t.TagsSay PropertyId.bugKeywords keywords ∧
      t.TagsSay PropertyId.bugAssignee assignee ∧
      BugReport.parameters? url = some (
        [("product", (product.or d.spec.product).getD ""), ("component", component.getD "documentation"),
          ("version", (version.or d.spec.version).getD ""),
          ("cf_environment", "Build Name: " ++ d.settings.buildName.getD d.name ++ "\nBuild Locale: " ++ d.locale
            ++ "\nTopic ID: " ++ toString t.sourceId ++ "-" ++ toString t.sourceRevision)]
        ++ (keywords.map ("keywords", ·)).toList ++ (assignee.map ("assigned_to", ·)).toList) := by
  have hsay (id : Int) : t.TagsSay id (t.tagProperty? id) := Topic.tagsSay_iff.2 rfl
  refine ⟨d.bugLink t, _, _, _, _, _, ?_, hsay _, hsay _, hsay _, hsay _, hsay _, ?_⟩
  · rw [pageContext, if_pos hlinks, Template.Context.get_set_ne (by decide), Template.Context.get_set_ne (by decide),
      Template.Context.get_set_self]
  · have hoptional (name : String) (v : Option String) : BugReport.optional name v = (v.map (name, ·)).toList := by
      cases v <;> rfl
    rw [bugLink, BugReport.parameters?_url, BugReport.parameters, hoptional, hoptional]
    rfl

/-- A topic whose second and third tags name products, with a value that has to be encoded throughout. -/
def taggedTopic : Topic :=
  { Topic.ofText 7 "A" "" with
    tags := [{ id := 1, name := "a" }, { id := 2, name := "b", properties := [⟨21, "R&D = 50%?", true⟩] },
      { id := 3, name := "c", properties := [⟨21, "x", true⟩, ⟨24, "é+", true⟩] }] }

/-- A draft with links for bug reports. -/
def trackedDraft : Draft where
  spec := { Bindery.sampleSpec [] with product := some "p", version := some "1.0" }
  settings := { bugzillaUrl := "https://bugs.example/?a=b&c//" }
  requester := none
  locale := "en-US"
  outline := ⟨{ kind := .base, title := "Book" }, []⟩
  registry := {}
  topics := []
  stable := false
  problems := { locale := "en-US" }
  validator := .dtd none

/-- The first tag with a product wins over the specification; keywords are handed over, and no assignee is. -/
theorem bugLink_reads_of_tagged : trackedDraft.settings.insertBugLinks = true ∧
    ∃ url, (trackedDraft.pageContext taggedTopic (.ofName "a") []).get "bug_link" = .text url ∧
      BugReport.parameters? url = some [("product", "R&D = 50%?"), ("component", "documentation"), ("version", "1.0"),
        ("cf_environment", "Build Name: Book\nBuild Locale: en-US\nTopic ID: 7-1"), ("keywords", "é+")] := by
  have hlinks : trackedDraft.settings.insertBugLinks = true := rfl
  obtain ⟨url, product, component, version, keywords, assignee, hurl, hproduct, hcomponent, hversion, hkeywords,
    hassignee, hread⟩ := bugLink_reads hlinks taggedTopic (.ofName "a") []
  have hsaid : product = some "R&D = 50%?" ∧ component = none ∧ version = none ∧ keywords = some "é+" ∧ assignee = none :=
    ⟨(Topic.tagsSay_iff.1 hproduct).symm, (Topic.tagsSay_iff.1 hcomponent).symm, (Topic.tagsSay_iff.1 hversion).symm,
      (Topic.tagsSay_iff.1 hkeywords).symm, (Topic.tagsSay_iff.1 hassignee).symm⟩
  obtain ⟨rfl, rfl, rfl, rfl, rfl⟩ := hsaid
  refine ⟨hlinks, url, hurl, hread.trans ?_⟩
  decide +kernel

end Draft
end Bookbinder
