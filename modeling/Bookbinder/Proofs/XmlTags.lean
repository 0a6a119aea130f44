import Bookbinder.Proofs.XmlTrees
import Bookbinder.Xml.Document
/-!
# The tags of a text

The start tags and empty tags of a text, up to the first piece that cannot be read.  Where the text is a document, they
are those of its elements, in document order (`tags_of_read`).  A text that is put together from parts has the tags of
its parts: `Writes cs es` says that a part adds the tags `es`, whatever follows it.
-/
namespace Bookbinder
namespace Xml

open Text (after? cut? isSpace)

/-! ## Pieces -/

namespace Markup

/-- The pieces of a text, up to the first that cannot be read. -/
def pieces (cs : List Char) : List Markup :=
  match cs with
  | [] => []
  | c :: cs => match h : next c cs with
    | .error _ => []
    | .ok (m, rest) =>
      have : rest.length ≤ cs.length := length_le_of_next h
      m :: pieces rest
termination_by cs.length

/-- The element that a start tag or an empty tag writes, without what it holds. -/
def tag? : Markup → Option Element
  | .opening content => (Tag.element content).toOption
  | .empty content => (Tag.element content).toOption
  | _ => none

/-- The node that a piece within an element is read as, if it is neither a tag nor a declaration. -/
def leaf? : Markup → Option Node
  | .text raw => some (.text (String.ofList raw))
  | .reference name => some (.text ("&" ++ String.ofList name ++ ";"))
  | .cdata content => some (.cdata (String.ofList content))
  | .comment content => some (.comment (String.ofList content))
  | .instruction content => some (.instruction (String.ofList content))
  | _ => none

theorem tag?_of_leaf? {m : Markup} {n : Node} (h : m.leaf? = some n) : m.tag? = none ∧ n.elements = [] := by
  cases m <;> cases h <;> exact ⟨rfl, rfl⟩

theorem pieces_nil : pieces [] = [] := by
  rw [pieces]

theorem pieces_of_next {c : Char} {cs rest : List Char} {m : Markup} (h : next c cs = .ok (m, rest)) :
    pieces (c :: cs) = m :: pieces rest := by
  rw [pieces]
  split
  · rename_i e
    rw [h] at e
    cases e
  · rename_i e
    rw [h] at e
    cases e
    rfl

end Markup

/-- The start tags and empty tags of a text, as elements that hold nothing. -/
def tags (cs : List Char) : List Element :=
  (Markup.pieces cs).filterMap Markup.tag?

theorem children_element {content : List Char} {e : Element} (h : Tag.element content = .ok e) : e.children = [] := by
  rw [Tag.element] at h
  split at h
  · cases h
    rfl
  · cases h

theorem children_of_mem_tags {cs : List Char} {e : Element} (h : e ∈ tags cs) : e.children = [] := by
  obtain ⟨m, -, hm⟩ := List.mem_filterMap.1 h
  have helement {content : List Char} (h : (Tag.element content).toOption = some e) : e.children = [] := by
    cases he : Tag.element content with
    | error _ =>
      rw [he] at h
      cases h
    | ok e' =>
      rw [he] at h
      cases h
      exact children_element he
  cases m with
  | opening content => exact helement hm
  | empty content => exact helement hm
  | _ => cases hm

theorem tags_nil : tags [] = [] := by
  rw [tags, Markup.pieces_nil]
  rfl

theorem tags_of_next {c : Char} {cs rest : List Char} {m : Markup} (h : Markup.next c cs = .ok (m, rest)) :
    tags (c :: cs) = m.tag?.toList ++ tags rest := by
  rw [tags, Markup.pieces_of_next h, List.filterMap_cons]
  cases m.tag? <;> rfl

/-! ## Documents -/

/-- An element without what it holds. -/
def Element.tag (e : Element) : Element := ⟨e.name, e.attributes, []⟩

/-- The ids of elements, in their order. -/
def ids (es : List Element) : List String :=
  es.filterMap (·.attribute? "id")

theorem ids_append (es fs : List Element) : ids (es ++ fs) = ids es ++ ids fs :=
  List.filterMap_append

/-- The tags of nodes, in document order. -/
def nodesTags (ns : List Node) : List Element :=
  (nodesElements ns).map Element.tag

theorem nodesTags_append (ns ms : List Node) : nodesTags (ns ++ ms) = nodesTags ns ++ nodesTags ms := by
  rw [nodesTags, nodesElements_append, List.map_append]
  rfl

theorem nodesTags_cons (n : Node) (ns : List Node) :
    nodesTags (n :: ns) = n.elements.map Element.tag ++ nodesTags ns := by
  rw [nodesTags, nodesElements, List.map_append]
  rfl

namespace Reading

/-- The tags of open elements and of what they hold so far, the outermost first. -/
def openTags : List Element → List Element
  | [] => []
  | e :: es => openTags es ++ e.tag :: nodesTags e.children.reverse

/-- The tags of all that has been read. -/
def tags (r : Reading) : List Element :=
  (match r.root with
    | some root => root.elements.map Element.tag
    | none => []) ++ openTags r.opened

/-- A node that is added joins the children of the innermost open element, or becomes the root, or stands outside the
root and is let go. -/
inductive Added (r : Reading) (n : Node) : Reading → Prop
  | child (e : Element) (es : List Element) (opened : r.opened = e :: es) :
      Added r n { r with opened := ⟨e.name, e.attributes, n :: e.children⟩ :: es }
  | root (e : Element) (element : n = e.toNode) (opened : r.opened = []) (unrooted : r.root = none) :
      Added r n { r with root := some e }
  | outside (leaf : n.elements = []) : Added r n r

theorem added_of_add {r r' : Reading} {n : Node} (h : r.add n = .ok r') : r.Added n r' := by
  have ha : r.attach n = .ok r' := by
    rw [add] at h
    split at h
    · rename_i ha
      rw [ha]
      exact congrArg _ (Except.ok.inj h)
    · cases h
  obtain ⟨declared, doctype, opened, root⟩ := r
  cases opened with
  | cons e es =>
    cases ha
    exact .child e es rfl
  | nil =>
    cases n with
    | element name as cs =>
      simp only [attach] at ha
      split at ha
      · cases ha
      · rename_i hroot
        cases ha
        exact .root ⟨name, as, cs⟩ rfl rfl (Option.not_isSome_iff_eq_none.1 hroot)
    | text raw =>
      simp only [attach] at ha
      split at ha
      · cases ha
        exact .outside rfl
      · cases ha
    | cdata content => cases ha
    | comment content =>
      cases ha
      exact .outside rfl
    | instruction content =>
      cases ha
      exact .outside rfl

/-- A piece that is read is added as a node, or opens an element, or closes one, or stands before the root. -/
inductive Stepped (r r' : Reading) : Markup → Prop
  | leaf {m : Markup} (n : Node) (leaf : m.leaf? = some n) (added : r.Added n r') : Stepped r r' m
  | opening (content : List Char) (e : Element) (tagged : tagged content = .ok e)
      (eq : r' = { r with opened := e :: r.opened }) : Stepped r r' (.opening content)
  | empty (content : List Char) (e : Element) (tagged : tagged content = .ok e) (added : r.Added e.toNode r') :
      Stepped r r' (.empty content)
  | closing (name : List Char) (e : Element) (es : List Element) (opened : r.opened = e :: es)
      (added : Added { r with opened := es } (.element e.name e.attributes e.children.reverse) r') :
      Stepped r r' (.closing name)
  | passed {m : Markup} (tag : m.tag? = none) (opened : r'.opened = r.opened) (root : r'.root = r.root) :
      Stepped r r' m

theorem exists_of_step_opening {r r' : Reading} {content : List Char} (h : r.step (.opening content) = .ok r') :
    ∃ e, tagged content = .ok e ∧ r' = { r with opened := e :: r.opened } := by
  rw [step] at h
  cases he : tagged content with
  | error e =>
    rw [he] at h
    cases h
  | ok e =>
    rw [he] at h
    cases h
    exact ⟨e, rfl, rfl⟩

theorem exists_of_step_empty {r r' : Reading} {content : List Char} (h : r.step (.empty content) = .ok r') :
    ∃ e, tagged content = .ok e ∧ r.add e.toNode = .ok r' := by
  rw [step] at h
  cases he : tagged content with
  | error e =>
    rw [he] at h
    cases h
  | ok e =>
    rw [he] at h
    exact ⟨e, rfl, h⟩

/-- An end tag closes the innermost element that is open, which has its name. -/
theorem exists_of_step_closing {r r' : Reading} {name : List Char} (h : r.step (.closing name) = .ok r') :
    ∃ e es, r.opened = e :: es ∧ e.name = String.ofList name ∧
      { r with opened := es }.add (.element e.name e.attributes e.children.reverse) = .ok r' := by
  rw [step, close] at h
  split at h
  · cases h
  · rename_i e es ho
    split at h
    · rename_i hname
      exact ⟨e, es, ho, hname, h⟩
    · cases h

theorem stepped_of_step {r r' : Reading} {m : Markup} (h : r.step m = .ok r') : r.Stepped r' m := by
  cases m with
  | text raw => exact .leaf _ rfl (added_of_add h)
  | reference name => exact .leaf _ rfl (added_of_add h)
  | cdata content => exact .leaf _ rfl (added_of_add h)
  | comment content => exact .leaf _ rfl (added_of_add h)
  | instruction content => exact .leaf _ rfl (added_of_add h)
  | declaration =>
    cases h
    exact .passed rfl rfl rfl
  | doctype content =>
    cases h
    exact .passed rfl rfl rfl
  | opening content =>
    obtain ⟨e, he, hr⟩ := exists_of_step_opening h
    exact .opening content e he hr
  | empty content =>
    obtain ⟨e, he, hadd⟩ := exists_of_step_empty h
    exact .empty content e he (added_of_add hadd)
  | closing name =>
    obtain ⟨e, es, ho, -, hadd⟩ := exists_of_step_closing h
    exact .closing name e es ho (added_of_add hadd)

theorem tags_added {r r' : Reading} {n : Node} (h : r.Added n r') : r'.tags = r.tags ++ n.elements.map Element.tag := by
  cases h with
  | child e es opened =>
    have hc : nodesTags (e.children.reverse ++ [n]) = nodesTags e.children.reverse ++ n.elements.map Element.tag := by
      rw [nodesTags_append, nodesTags_cons]
      exact congrArg _ (List.append_nil _)
    simp only [tags, opened, openTags, List.reverse_cons, hc, List.append_assoc]
    rfl
  | root e element opened unrooted =>
    rw [tags, tags, opened, unrooted, element]
    exact List.append_nil _
  | outside leaf =>
    rw [leaf]
    exact (List.append_nil _).symm

theorem tag?_of_tagged {content : List Char} {e : Element} (h : tagged content = .ok e) :
    (Tag.element content).toOption = some e ∧ e.children = [] := by
  rw [tagged] at h
  split at h
  · rename_i he
    cases h
    exact ⟨by rw [he]; rfl, children_element he⟩
  · cases h

theorem tags_step {r r' : Reading} {m : Markup} (h : r.step m = .ok r') : r'.tags = r.tags ++ m.tag?.toList := by
  cases stepped_of_step h with
  | leaf n leaf added =>
    obtain ⟨htag, helements⟩ := Markup.tag?_of_leaf? leaf
    rw [tags_added added, htag, helements]
    rfl
  | opening content e tagged eq =>
    obtain ⟨ht, hc⟩ := tag?_of_tagged tagged
    have htag : e.tag = e := by rw [Element.tag, ← hc]
    rw [eq, Markup.tag?, ht, tags, openTags, hc, htag, ← List.append_assoc]
    rfl
  | empty content e tagged added =>
    obtain ⟨ht, hc⟩ := tag?_of_tagged tagged
    have htag : e.tag = e := by rw [Element.tag, ← hc]
    rw [Markup.tag?, ht, tags_added added, Element.toNode, Node.elements, hc]
    exact congrArg (fun t => r.tags ++ [t]) htag
  | closing name e es opened added =>
    rw [tags_added added, tags, tags, opened, openTags, List.append_assoc]
    exact (List.append_nil _).symm
  | passed tag opened root =>
    rw [tag, tags, tags, opened, root]
    exact (List.append_nil _).symm

/-- **Where a text is read to a document, what was read before and the text's tags are those of the document.** -/
theorem tags_of_run {r : Reading} {cs : List Char} {d : Document} (h : r.run cs = .ok d) :
    d.root.elements.map Element.tag = r.tags ++ Xml.tags cs := by
  fun_induction run r cs with
  | case1 r =>
    rw [tags_nil, List.append_nil]
    rw [finish] at h
    split at h
    · cases h
    · cases h
    · rename_i root ho hr
      cases h
      rw [tags, ho, hr]
      exact (List.append_nil _).symm
  | case2 => cases h
  | case3 => cases h
  | case4 r c cs m rest hn _ r' hs ih =>
    rw [ih h, tags_step hs, tags_of_next hn, List.append_assoc]

end Reading

/-- **The tags of a document's text are the tags of its elements.** -/
theorem tags_of_read {s : String} {d : Document} (h : Document.read s = .ok d) :
    tags (dropMark s.toList) = d.root.elements.map Element.tag :=
  (Reading.tags_of_run h).symm

end Xml
end Bookbinder
