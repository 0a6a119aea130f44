import Bookbinder.Proofs.DtdTexts
import Bookbinder.Proofs.ElementContent
import Bookbinder.Proofs.PlainDocuments
/-!
# Elements that the library builds

Elements are built from names, values and texts (`Built`), and the values and texts are escaped.  So whatever they hold,
what is written of a built element is read to an element that shows just what was given: the names, the nesting, the
values and the running texts (`read_built`).
-/
namespace Bookbinder
namespace Xml

open Reading

/-! ## What trees show -/

/-- What is to be seen of a tree: characters of running text, elements with their values, and other markup. -/
inductive Shown where
  | char (c : Char)
  | element (name : String) (values : List (String × String)) (content : List Shown)
  | markup (xml : String)

def chars (s : String) : List Shown :=
  s.toList.map .char

mutual

/-- What a node shows that is no running text. -/
def Node.shown : Node → Shown
  | .element name as cs => .element name (as.map fun a => (a.1, Text.unescape a.2)) (nodesShown "" cs)
  | n => .markup n.toXml

/-- What nodes show after a run of text that is right before them. -/
def nodesShown (run : String) : List Node → List Shown
  | [] => chars (Text.unescape run)
  | n :: ns => match n.raw? with
    | some raw => nodesShown (run ++ raw) ns
    | none => chars (Text.unescape run) ++ n.shown :: nodesShown "" ns

end

/-! ## Building -/

/-- Nodes that are built, and what is given for them. -/
inductive Built : List Node → List Shown → Prop
  | nil : Built [] []
  | append {ns ms : List Node} {gs hs : List Shown} : Built ns gs → Built ms hs → Built (ns ++ ms) (gs ++ hs)
  | ofText (text : String) : Built [.ofText text] (chars text)
  | ofName (name : Name) : Built [Element.ofName name.text] [.element name.text [] []]
  | withAttribute {e : Element} {n : String} {vs : Attributes} {gs : List Shown} (name : Name) (value : String) :
    Built [e] [.element n vs gs] → Built [e.withAttribute name.text value] [.element n (vs.set name.text value) gs]
  | withText {e : Element} {n : String} {vs : Attributes} {gs : List Shown} (text : String) :
    Built [e] [.element n vs gs] → Built [e.withText text] [.element n vs (gs ++ chars text)]
  | withChild {e : Element} {n : String} {vs : Attributes} {gs hs : List Shown} {child : Node} :
    Built [e] [.element n vs gs] → Built [child] hs → Built [e.withChild child] [.element n vs (gs ++ hs)]
  | xref (linkend : String) : Built [DocBook.xref linkend] [.element "xref" [("linkend", linkend)] []]
  | ulink (url text : String) : Built [DocBook.ulink url text] [.element "ulink" [("url", url)] (chars text)]
  | emphasis (text : String) : Built [DocBook.emphasis text] [.element "emphasis" [] (chars text)]
  | title (text : String) : Built [DocBook.title text] [.element "title" [] (chars text)]
  | para (text : String) : Built [DocBook.para text] [.element "para" [] (chars text)]
  | markedLink {link : Element} {gs : List Shown} (isOptional : Bool) : Built [link] gs →
    Built (DocBook.markedLink link isOptional)
      ((if isOptional then [.element "emphasis" [] (chars DocBook.optionalMark)] else []) ++ gs)
  | listItem {content : List Node} {gs : List Shown} : Built content gs →
    Built [DocBook.listItem content] [.element "listitem" [] [.element "para" [] gs]]
  | orderedList {items : List Element} {gs : List Shown} : Built (items.map Element.toNode) gs →
    Built [DocBook.orderedList items] [.element "orderedlist" [] gs]
  | itemizedList {items : List Element} {gs : List Shown} : Built (items.map Element.toNode) gs →
    Built [DocBook.itemizedList items] [.element "itemizedlist" [] gs]

/-! ## Names -/

theorem isNameChar_of_continuesName {c : Char} (h : continuesName c = true) : isNameChar c = true := by
  have hne (d : Char) (hd : continuesName d = false) : c ≠ d := by
    rintro rfl
    rw [h] at hd
    cases hd
  have hspace : Text.isSpace c = false := by
    simp [Text.isSpace, hne ' ' (by decide), hne '\t' (by decide), hne '\n' (by decide), hne '\r' (by decide)]
  simp [isNameChar, hspace, hne '<' (by decide), hne '>' (by decide), hne '"' (by decide), hne '\'' (by decide),
    hne '/' (by decide), hne '=' (by decide), hne '!' (by decide), hne '?' (by decide)]

theorem Name.isName_text (n : Name) : isName n.text = true := by
  rw [isName_iff, Name.text, String.toList_ofList]
  exact ⟨List.cons_ne_nil _ _, fun c hc => isNameChar_of_continuesName (Name.continuesName_of_mem hc)⟩

/-! ## Written nodes -/

/-- Values as they are written. -/
def escaped (vs : Attributes) : Attributes :=
  vs.map fun a => (a.1, Text.escape a.2)

/-- Nodes that are written as what is given: texts and values escaped, and the names all plain. -/
inductive Written : List Node → List Shown → Prop
  | nil : Written [] []
  | text (s : String) {ns : List Node} {gs : List Shown} (rest : Written ns gs) :
    Written (.text (Text.escape s) :: ns) (chars s ++ gs)
  | element {name : String} {vs : Attributes} {cs ns : List Node} {gs hs : List Shown} (plain : isName name = true)
    (plainKeys : ∀ a ∈ vs, isName a.1 = true) (keys : (vs.map (·.1)).Nodup) (children : Written cs hs)
    (rest : Written ns gs) : Written (.element name (escaped vs) cs :: ns) (.element name vs hs :: gs)

theorem chars_append (s t : String) : chars (s ++ t) = chars s ++ chars t := by
  rw [chars, String.toList_append, List.map_append]
  rfl

theorem set_escaped (name value : String) (vs : Attributes) :
    (escaped vs).set name (Text.escape value) = escaped (vs.set name value) := by
  induction vs with
  | nil => rfl
  | cons v vs ih =>
    change Attributes.set name (Text.escape value) ((v.1, Text.escape v.2) :: escaped vs) = _
    rw [Attributes.set, Attributes.set, ih]
    dsimp only
    split <;> rfl

theorem map_fst_escaped (vs : Attributes) : (escaped vs).map (·.1) = vs.map (·.1) := by
  rw [escaped, List.map_map]
  rfl

theorem map_unescape_escaped (vs : Attributes) : (escaped vs).map (fun a => (a.1, Text.unescape a.2)) = vs := by
  rw [escaped, List.map_map]
  refine (List.map_congr_left fun a _ => ?_).trans (List.map_id vs)
  change (a.1, Text.unescape (Text.escape a.2)) = a
  rw [Text.unescape_escape]

theorem isPlain_escaped {name : String} {vs : Attributes} (hname : isName name = true)
    (hkeys : ∀ a ∈ vs, isName a.1 = true) : (⟨name, escaped vs, []⟩ : Element).isPlain = true := by
  refine isPlain_iff.2 ⟨hname, fun a ha => ?_⟩
  obtain ⟨v, hv, rfl⟩ := List.mem_map.1 ha
  exact ⟨hkeys v hv, Text.quote_notMem_escape v.2⟩

namespace Written

variable {name : String} {as vs : Attributes} {ns ms cs : List Node} {gs hs : List Shown}

theorem ofText (s : String) : Written [.ofText s] (chars s) := by
  have h := Written.text s .nil
  rwa [List.append_nil] at h

theorem named (name : String) (hname : isName name = true) (h : Written cs gs) :
    Written [.element name [] cs] [.element name [] gs] :=
  Written.element hname (fun _ ha => absurd ha List.not_mem_nil) List.nodup_nil h .nil

theorem valued (name key value : String) (hname : isName name = true) (hkey : isName key = true) (h : Written cs gs) :
    Written [.element name [(key, Text.escape value)] cs] [.element name [(key, value)] gs] := by
  change Written [.element name (escaped [(key, value)]) cs] _
  refine .element hname (fun a ha => ?_) (List.nodup_singleton _) h .nil
  rwa [List.mem_singleton.1 ha]

theorem append (h : Written ns gs) (h' : Written ms hs) : Written (ns ++ ms) (gs ++ hs) := by
  induction h with
  | nil => exact h'
  | text s rest ih =>
    rw [List.append_assoc]
    exact .text s ih
  | element plain plainKeys keys children rest _ ih => exact .element plain plainKeys keys children ih

/-- A single element is written with escaped values, around content that is written as what is given for it. -/
theorem of_element (h : Written [.element name as cs] [.element n vs gs]) :
    name = n ∧ as = escaped vs ∧ isName name = true ∧ (∀ a ∈ vs, isName a.1 = true) ∧ (vs.map (·.1)).Nodup ∧
      Written cs gs := by
  cases h with
  | element plain plainKeys keys children rest => exact ⟨rfl, rfl, plain, plainKeys, keys, children⟩

end Written

/-- **What is built is written as what was given.** -/
theorem Built.written {ns : List Node} {gs : List Shown} (h : Built ns gs) : Written ns gs := by
  induction h with
  | nil => exact .nil
  | append _ _ ih ih' => exact ih.append ih'
  | ofText text => exact .ofText text
  | ofName name => exact .named _ name.isName_text .nil
  | @withAttribute e n vs gs name value _ ih =>
    obtain ⟨rfl, has, plain, plainKeys, keys, children⟩ := ih.of_element
    change Written [.element e.name (e.attributes.set name.text (Text.escape value)) e.children] _
    rw [has, set_escaped]
    refine .element plain (fun a ha => ?_) (Attributes.nodup_keys_set keys _ _) children .nil
    rcases Attributes.mem_set ha with rfl | ha
    · exact name.isName_text
    · exact plainKeys a ha
  | @withText e n vs gs text _ ih =>
    obtain ⟨rfl, has, plain, plainKeys, keys, children⟩ := ih.of_element
    change Written [.element e.name e.attributes (e.children ++ [.ofText text])] _
    rw [has]
    exact .element plain plainKeys keys (children.append (.ofText text)) .nil
  | @withChild e n vs gs hs child _ _ ih ih' =>
    obtain ⟨rfl, has, plain, plainKeys, keys, children⟩ := ih.of_element
    change Written [.element e.name e.attributes (e.children ++ [child])] _
    rw [has]
    exact .element plain plainKeys keys (children.append ih') .nil
  | xref linkend => exact .valued "xref" "linkend" linkend (by decide) (by decide) .nil
  | ulink url text => exact .valued "ulink" "url" url (by decide) (by decide) (.ofText text)
  | emphasis text => exact .named "emphasis" (by decide) (.ofText text)
  | title text => exact .named "title" (by decide) (.ofText text)
  | para text => exact .named "para" (by decide) (.ofText text)
  | @markedLink link gs isOptional _ ih =>
    cases isOptional with
    | true => exact (Written.named "emphasis" (by decide) (.ofText _)).append ih
    | false => exact ih
  | listItem _ ih => exact .named "listitem" (by decide) (.named "para" (by decide) ih)
  | orderedList _ ih => exact .named "orderedlist" (by decide) ih
  | itemizedList _ ih => exact .named "itemizedlist" (by decide) ih

/-! ## Reading -/

theorem nodesShown_texts (run : String) (raws : List String) (ns : List Node) :
    nodesShown run (raws.map .text ++ ns) = nodesShown (run ++ String.join raws) ns := by
  induction raws generalizing run with
  | nil => rw [String.join_nil, String.append_empty, List.map_nil, List.nil_append]
  | cons raw raws ih =>
    change nodesShown (run ++ raw) (raws.map .text ++ ns) = _
    rw [ih, String.join_cons, String.append_assoc]

theorem nodesShown_element (s name : String) (as : Attributes) (cs ns : List Node) :
    nodesShown (Text.escape s) (.element name as cs :: ns)
      = chars s ++ (Node.element name as cs).shown :: nodesShown "" ns := by
  change chars (Text.unescape (Text.escape s)) ++ _ = _
  rw [Text.unescape_escape]

/-- An element that is not empty is written as tags around what it holds. -/
theorem toXml_eq_tagsAround (name : String) (as : Attributes) {cs : List Node} (hne : cs ≠ []) :
    (Node.element name as cs).toXml = tagsAround name as (nodesXml cs) := by
  obtain ⟨c, cs, rfl⟩ := List.exists_cons_of_ne_nil hne
  simp only [Node.toXml, nodesXml, tagsAround, startTag, endTag, String.append_assoc]

section Elements

variable {name : String} {as : Attributes} {cs ms : List Node}

theorem run_emptyElement (hplain : (⟨name, as, []⟩ : Element).isPlain = true) (hkeys : (as.map (·.1)).Nodup)
    {r r' : Reading} (hadd : r.add (.element name as []) = .ok r') (rest : List Char) :
    r.run ((Node.element name as []).toXml.toList ++ rest) = r'.run rest := by
  have hnone : ∀ c ∈ ([] : List Char), Text.isSpace c = true := fun _ hc => absurd hc List.not_mem_nil
  have hshape : (Node.element name as []).toXml.toList ++ rest
      = '<' :: (name.toList ++ (attributesXml as).toList ++ ([] ++ ['/', '>']) ++ rest) := by
    rw [toList_toXml_leaf]
    rfl
  rw [hshape]
  exact run_emptyTag hplain hkeys hnone hadd rest

/-- What the nodes that an element holds are read as, which are none if it holds none. -/
structure ReadAs (cs ms : List Node) : Prop where
  adds : AddsBefore (nodesXml cs) ms
  none : cs = [] → ms = []

theorem adds_element (hplain : (⟨name, as, []⟩ : Element).isPlain = true) (hkeys : (as.map (·.1)).Nodup)
    (h : ReadAs cs ms) : Adds (Node.element name as cs).toXml [.element name as ms] := by
  by_cases hcs : cs = []
  · rw [hcs, h.none hcs]
    exact fun r rest ho => run_emptyElement hplain hkeys (add_put ho _) rest
  · rw [toXml_eq_tagsAround name as hcs]
    exact adds_tagsAround hplain hkeys h.adds

theorem exists_read_element (hplain : (⟨name, as, []⟩ : Element).isPlain = true) (hkeys : (as.map (·.1)).Nodup)
    (h : ReadAs cs ms) : ∃ d, Document.read (Node.element name as cs).toXml = .ok d ∧ d.root = ⟨name, as, ms⟩ := by
  by_cases hcs : cs = []
  · obtain ⟨r, ho, hroot, hread⟩ := introduces_empty (Node.element name as []).toXml (by rw [toList_toXml_leaf]; rfl)
    have hadd : r.add (.element name as []) = .ok { r with root := some ⟨name, as, []⟩ } := by
      simp only [Reading.add, attach, ho, hroot]
      rfl
    have hrun := run_emptyElement hplain hkeys hadd []
    rw [List.append_nil, ← hread, String.empty_append] at hrun
    rw [hcs, h.none hcs, hrun]
    exact ⟨_, run_blank (r := { r with root := some ⟨name, as, []⟩ }) ho rfl (.inl rfl), rfl⟩
  · obtain ⟨d, hread, hroot⟩ := exists_read_root introduces_empty hplain hkeys h.adds (.inl rfl)
    rw [String.empty_append, String.append_empty, ← toXml_eq_tagsAround name as hcs] at hread
    exact ⟨d, hread, hroot⟩

end Elements

theorem Written.exists_readAs {cs : List Node} {gs : List Shown} (h : Written cs gs)
    (hadds : ∃ ms, AddsBefore (Text.escape "" ++ nodesXml cs) ms ∧ nodesShown "" ms = chars "" ++ gs) :
    ∃ ms, ReadAs cs ms ∧ nodesShown "" ms = gs := by
  by_cases hcs : cs = []
  · subst hcs
    cases h
    exact ⟨[], ⟨adds_empty.before, fun _ => rfl⟩, rfl⟩
  · obtain ⟨ms, hadds, hshown⟩ := hadds
    rw [show Text.escape "" = "" from rfl, String.empty_append] at hadds
    exact ⟨ms, ⟨hadds, fun hnone => absurd hnone hcs⟩, hshown⟩

/-- **What is written is read, after running text, to nodes that show what was given.** -/
theorem Written.exists_adds {ns : List Node} {gs : List Shown} (h : Written ns gs) :
    ∀ s : String, ∃ ms, AddsBefore (Text.escape s ++ nodesXml ns) ms ∧ nodesShown "" ms = chars s ++ gs := by
  -- Whatever comes next, the running text before it adds text nodes that it is put together from.
  have hrun (s : String) (ms : List Node) : ∃ raws : List String, AddsBefore (Text.escape s) (raws.map .text) ∧
      nodesShown "" (raws.map .text ++ ms) = nodesShown (Text.escape s) ms := by
    obtain ⟨raws, hraws, hadds⟩ := (CharacterData.escape s).exists_raws
    exact ⟨raws, hadds, by rw [nodesShown_texts, hraws, String.empty_append]⟩
  induction h with
  | nil =>
    intro s
    obtain ⟨raws, hadds, hshown⟩ := hrun s []
    rw [List.append_nil] at hshown
    refine ⟨raws.map .text, by rwa [nodesXml, String.append_empty], ?_⟩
    rw [hshown, nodesShown, Text.unescape_escape, List.append_nil]
  | text t rest ih =>
    intro s
    obtain ⟨ms, hadds, hshown⟩ := ih (s ++ t)
    refine ⟨ms, ?_, ?_⟩
    · rwa [Text.escape_append, String.append_assoc] at hadds
    · rw [hshown, chars_append, List.append_assoc]
  | @element name vs cs ns gs hs plain plainKeys keys children rest ihc ihr =>
    intro s
    obtain ⟨held, hheld, hcontent⟩ := children.exists_readAs (ihc "")
    obtain ⟨ms, hrest, hafter⟩ := ihr ""
    rw [show Text.escape "" = "" from rfl, String.empty_append] at hrest
    obtain ⟨raws, hadds, hshown⟩ := hrun s (.element name (escaped vs) held :: ms)
    have helement := adds_element (isPlain_escaped plain plainKeys) (by rwa [map_fst_escaped]) hheld
    obtain ⟨tail, htail⟩ := exists_toXml ⟨name, escaped vs, cs⟩
    have hbegins : Begins (Node.element name (escaped vs) cs).toXml := ⟨'<', tail, htail, rfl⟩
    rw [nodesXml]
    refine ⟨_, hadds.append_before (hbegins.append _) (helement.append_before hrest), ?_⟩
    rw [List.singleton_append, hshown, nodesShown_element, Node.shown, map_unescape_escaped, hcontent, hafter]
    rfl

/-- What is written shows what was given. -/
theorem Written.nodesShown_eq {ns : List Node} {gs : List Shown} (h : Written ns gs) :
    ∀ s : String, nodesShown (Text.escape s) ns = chars s ++ gs := by
  induction h with
  | nil =>
    intro s
    rw [nodesShown, Text.unescape_escape, List.append_nil]
  | @text t ns gs rest ih =>
    intro s
    change nodesShown (Text.escape s ++ Text.escape t) ns = _
    rw [← Text.escape_append, ih, chars_append, List.append_assoc]
  | @element name vs cs ns gs hs plain plainKeys keys children rest ihc ihr =>
    intro s
    rw [nodesShown_element, Node.shown, map_unescape_escaped]
    exact congrArg₂ (fun held after => chars s ++ .element name vs held :: after) (ihc "") (ihr "")

/-- **What is built is read to what was given.**  Whatever values and texts elements are built with, by themselves or as
lists and links, what is written of them is read, to an element that shows just what the built one does: the names, the
nesting, the values and the running texts that were given.  So no value and no text is taken for markup. -/
theorem read_built {e : Element} {gs : List Shown} (h : Built [e] gs) :
    ∃ d, Document.read e.toXml = .ok d ∧ [d.root.toNode.shown] = gs ∧ [e.toNode.shown] = gs := by
  obtain ⟨name, as, cs⟩ := e
  have hwritten := h.written
  have hself : [(Node.element name as cs).shown] = gs :=
    (nodesShown_element "" name as cs []).symm.trans (hwritten.nodesShown_eq "")
  cases hwritten with
  | @element name vs cs ns gs hs plain plainKeys keys children rest =>
    cases rest
    obtain ⟨held, hheld, hcontent⟩ := children.exists_readAs (children.exists_adds "")
    obtain ⟨d, hread, hroot⟩ := exists_read_element (isPlain_escaped plain plainKeys) (by rwa [map_fst_escaped]) hheld
    refine ⟨d, hread, ?_, hself⟩
    rw [hroot, Element.toNode, Node.shown, map_unescape_escaped, hcontent]

/-- An element whose value and texts look like markup. -/
def lookalike : Element :=
  ((((Element.ofName "a").withAttribute "k" "\"<b/>'&amp;").withText "</a>&").withText "lt;").withChild
    (DocBook.listItem (DocBook.markedLink (DocBook.ulink "?x=1&y=2" "]]>") true))

/-- Markup in a value and in texts is read as the text it is. -/
theorem read_lookalike : Built [lookalike] [.element "a" [("k", "\"<b/>'&amp;")] (chars "</a>&" ++ chars "lt;" ++
      [.element "listitem" [] [.element "para" [] [.element "emphasis" [] (chars "Optional: "),
        .element "ulink" [("url", "?x=1&y=2")] (chars "]]>")]]])] ∧
    ∃ d, Document.read lookalike.toXml = .ok d ∧ [d.root.toNode.shown] = [.element "a" [("k", "\"<b/>'&amp;")]
      (chars "</a>&" ++ chars "lt;" ++ [.element "listitem" [] [.element "para" []
        [.element "emphasis" [] (chars "Optional: "), .element "ulink" [("url", "?x=1&y=2")] (chars "]]>")]]])] := by
  have hbuilt : Built [lookalike] _ :=
    .withChild (.withText "lt;" (.withText "</a>&" (.withAttribute ⟨'k', [], by decide, nofun⟩ "\"<b/>'&amp;"
      (.ofName ⟨'a', [], by decide, nofun⟩)))) (.listItem (.markedLink true (.ulink "?x=1&y=2" "]]>")))
  obtain ⟨d, hread, hshown, -⟩ := read_built hbuilt
  exact ⟨hbuilt, d, hread, hshown⟩

end Xml
end Bookbinder
