import Bookbinder.Proofs.LinkMarkers
import Bookbinder.Proofs.NumberedNames
/-!
# Injected texts

A marker that asks for the text of a topic gives way to what the root of that topic holds, less its first title and less
the elements that one of their roles keeps out (`gives_way_to_text`).  A node stays if and only if neither it nor an
element that it is in is kept out, and all that stays is where it was (`Xml.nodesLines_retain`); as nodes are known by
their lines, that leaves no choice (`Xml.nodesLines_injective`).
-/
namespace Bookbinder

namespace Text

/-- A text lists a word: the word stands between separators or ends of the text. -/
def Lists (sep : Char) (cs word : List Char) : Prop :=
  sep ∉ word ∧ ∃ before after, cs = before ++ (word ++ after) ∧ (∀ c ∈ before.getLast?, c = sep) ∧
    ∀ c ∈ after.head?, c = sep

theorem mem_splitAt_of_lists {sep : Char} {cs word : List Char} (h : Lists sep cs word) : word ∈ splitAt sep cs := by
  obtain ⟨hword, before, after, rfl, hbefore, hafter⟩ := h
  have hrest : word ∈ splitAt sep (word ++ after) := by
    cases after with
    | nil => simp [splitAt_of_notMem hword]
    | cons c after =>
      obtain rfl : c = sep := hafter c rfl
      simp [splitAt_append_cons, splitAt_of_notMem hword]
  rcases List.eq_nil_or_concat before with rfl | ⟨b, c, rfl⟩
  · exact hrest
  · obtain rfl : c = sep := hbefore c (by simp)
    simp [splitAt_append_cons, hrest]

theorem lists_of_mem_splitAt {sep : Char} {cs word : List Char} (h : word ∈ splitAt sep cs) : Lists sep cs word := by
  by_cases hsep : sep ∈ cs
  · obtain ⟨a, b, rfl, ha⟩ := List.eq_append_cons_of_mem hsep
    rw [splitAt_append_cons, splitAt_of_notMem ha, List.singleton_append, List.mem_cons] at h
    rcases h with rfl | h
    · exact ⟨ha, [], sep :: b, rfl, by simp, by simp⟩
    · obtain ⟨hword, before, after, rfl, hbefore, hafter⟩ := lists_of_mem_splitAt h
      refine ⟨hword, a ++ sep :: before, after, by simp, ?_, hafter⟩
      cases before with
      | nil => simp
      | cons c before => simpa [List.getLast?_cons_cons] using hbefore
  · rw [splitAt_of_notMem hsep, List.mem_singleton] at h
    subst h
    exact ⟨hsep, [], [], by simp, by simp, by simp⟩
termination_by cs.length

/-- **The pieces of a text are the words that it lists.** -/
theorem mem_splitAt_iff {sep : Char} {cs word : List Char} : word ∈ splitAt sep cs ↔ Lists sep cs word :=
  ⟨lists_of_mem_splitAt, mem_splitAt_of_lists⟩

end Text

namespace Xml

/-! ## Lines of nodes -/

/-- A node without what is in it. -/
def Node.shell : Node → Node
  | .element name attributes _ => .element name attributes []
  | n => n

def Node.children : Node → List Node
  | .element _ _ children => children
  | _ => []

mutual

/-- A node and the nodes in it, in document order.  Each is given as the line that leads to it: the elements that it is
in, the outermost first, and then itself, all of them without what is in them. -/
def Node.lines : Node → List (List Node)
  | .element name attributes children =>
    [.element name attributes []] :: (nodesLines children).map (.element name attributes [] :: ·)
  | n => [[n]]

def nodesLines : List Node → List (List Node)
  | [] => []
  | n :: ns => n.lines ++ nodesLines ns

end

theorem Node.lines_eq (n : Node) : n.lines = [n.shell] :: (nodesLines n.children).map (n.shell :: ·) := by
  cases n <;> rfl

theorem Node.eq_of_shell {n m : Node} (hshell : n.shell = m.shell) (hchildren : n.children = m.children) : n = m := by
  cases n <;> cases m <;> simp_all [shell, children]

theorem nodesLines_append (ns ms : List Node) : nodesLines (ns ++ ms) = nodesLines ns ++ nodesLines ms := by
  induction ns with
  | nil => rfl
  | cons n ns ih => simp [nodesLines, ih]

theorem ne_nil_of_mem_nodesLines : ∀ {ns : List Node}, ∀ line ∈ nodesLines ns, line ≠ []
  | [], _, h => absurd h List.not_mem_nil
  | n :: ns, line, h => by
    rw [nodesLines, Node.lines_eq, List.mem_append, List.mem_cons, List.mem_map] at h
    rcases h with (rfl | ⟨below, -, rfl⟩) | h
    · exact List.cons_ne_nil _ _
    · exact List.cons_ne_nil _ _
    · exact ne_nil_of_mem_nodesLines line h

/-- What is below the first node of some and what comes after it can be told apart by the lengths of the lines. -/
theorem split_lines {shell : Node} {cs cs' ns ms : List Node}
    (h : (nodesLines cs).map (shell :: ·) ++ nodesLines ns = (nodesLines cs').map (shell :: ·) ++ nodesLines ms) :
    nodesLines cs = nodesLines cs' ∧ nodesLines ns = nodesLines ms := by
  have hbelow (cs : List Node) : ∀ line ∈ (nodesLines cs).map (shell :: ·), 1 < line.length := by
    refine List.forall_mem_map.2 fun line hline => ?_
    have := List.length_pos_iff.2 (ne_nil_of_mem_nodesLines line hline)
    rw [List.length_cons]
    omega
  have hafter (ns : List Node) : ∀ line ∈ (nodesLines ns).head?, ¬ 1 < line.length := by
    intro line hline
    cases ns with
    | nil => cases hline
    | cons n ns =>
      rw [nodesLines, Node.lines_eq] at hline
      cases hline
      simp
  obtain ⟨hlines, hrest⟩ := append_inj_of_boundary (hafter ns) (hafter ms) (hbelow cs) (hbelow cs') h
  exact ⟨List.map_injective_iff.2 List.cons_injective hlines, hrest⟩

theorem eq_of_nodesLines_eq : ∀ {ns ms : List Node}, nodesLines ns = nodesLines ms → ns = ms
  | [], [], _ => rfl
  | [], m :: ms, h => by simp [nodesLines, Node.lines_eq] at h
  | n :: ns, [], h => by simp [nodesLines, Node.lines_eq] at h
  | n :: ns, m :: ms, h => by
    rw [nodesLines, nodesLines, Node.lines_eq, Node.lines_eq, List.cons_append, List.cons_append, List.cons.injEq] at h
    obtain ⟨hshell, hrest⟩ := h
    obtain hshell : n.shell = m.shell := by simpa using hshell
    rw [hshell] at hrest
    obtain ⟨hchildren, hafter⟩ := split_lines hrest
    have hsize : sizeOf n.children < 1 + sizeOf n + sizeOf ns := by cases n <;> simp [Node.children] <;> omega
    rw [Node.eq_of_shell hshell (eq_of_nodesLines_eq hchildren), eq_of_nodesLines_eq hafter]

/-- **Nodes are known by their lines.** -/
theorem nodesLines_injective : Function.Injective nodesLines :=
  fun _ _ => eq_of_nodesLines_eq

/-! ## What stays of nodes -/

/-- Whether a node is kept where it stands, if only elements are put to the test. -/
def Node.passes (keep : Element → Bool) (n : Node) : Bool :=
  n.element?.all keep

section Retain

variable {keep : Element → Bool}

mutual

theorem Node.lines_retain (hkeep : ∀ e, keep e.tag = keep e) : ∀ n : Node,
    nodesLines (n.retain keep) = n.lines.filter fun line => line.all (Node.passes keep)
  | .element name attributes children => by
    have hshell : (Node.element name attributes []).passes keep = keep ⟨name, attributes, children⟩ :=
      hkeep ⟨name, attributes, children⟩
    rw [Node.retain]
    split
    · rename_i hkept
      rw [nodesLines, Node.lines, nodesLines_retain hkeep children]
      simp [Node.lines, List.filter_map, Function.comp_def, hshell, hkept, nodesLines]
    · rename_i hdropped
      simp [Node.lines, hshell, hdropped, nodesLines]
  | .text _ => rfl
  | .cdata _ => rfl
  | .comment _ => rfl
  | .instruction _ => rfl

/-- **A node stays just where it and the elements that it is in are kept**, and the nodes that stay are left as they
are. -/
theorem nodesLines_retain (hkeep : ∀ e, keep e.tag = keep e) : ∀ ns : List Node,
    nodesLines (nodesRetain keep ns) = (nodesLines ns).filter fun line => line.all (Node.passes keep)
  | [] => rfl
  | n :: ns => by
    rw [nodesRetain, nodesLines_append, Node.lines_retain hkeep n, nodesLines_retain hkeep ns, nodesLines,
      List.filter_append]

end

end Retain

mutual

theorem Node.exists_line : ∀ {n : Node}, ∀ e ∈ n.elements, ∃ line ∈ n.lines, e.tag.toNode ∈ line
  | .element name attributes children, e, h => by
    rw [Node.elements, List.mem_cons] at h
    rcases h with rfl | h
    · exact ⟨_, List.mem_cons_self, List.mem_cons_self⟩
    · obtain ⟨line, hline, he⟩ := exists_line e h
      exact ⟨_, List.mem_cons_of_mem _ (List.mem_map_of_mem hline), List.mem_cons_of_mem _ he⟩
  | .text _, _, h => absurd h List.not_mem_nil
  | .cdata _, _, h => absurd h List.not_mem_nil
  | .comment _, _, h => absurd h List.not_mem_nil
  | .instruction _, _, h => absurd h List.not_mem_nil

/-- A line leads to every element. -/
theorem exists_line : ∀ {ns : List Node}, ∀ e ∈ nodesElements ns, ∃ line ∈ nodesLines ns, e.tag.toNode ∈ line
  | [], _, h => absurd h List.not_mem_nil
  | n :: ns, e, h => by
    rw [nodesLines]
    rcases List.mem_append.1 h with h | h
    · obtain ⟨line, hline, he⟩ := Node.exists_line e h
      exact ⟨line, List.mem_append_left _ hline, he⟩
    · obtain ⟨line, hline, he⟩ := exists_line e h
      exact ⟨line, List.mem_append_right _ hline, he⟩

end

/-! ## The first element of a name -/

/-- Nodes with the first element of a name among them dropped, if there is one. -/
inductive DropsFirst (name : String) : List Node → List Node → Prop
  | dropped (before : List Node) (n : Node) (after : List Node) (named : n.isNamed name = true)
    (first : ∀ b ∈ before, b.isNamed name = false) : DropsFirst name (before ++ n :: after) (before ++ after)
  | none {ns : List Node} (unnamed : ∀ n ∈ ns, n.isNamed name = false) : DropsFirst name ns ns

theorem dropsFirst_iff {name : String} {ns rest : List Node} :
    DropsFirst name ns rest ↔ rest = ns.eraseP (·.isNamed name) := by
  constructor
  · rintro (⟨before, n, after, named, first⟩ | unnamed)
    · rw [List.eraseP_append_right _ (by simpa using first), List.eraseP_cons_of_pos named]
    · rw [List.eraseP_of_forall_not (by simpa using unnamed)]
  · rintro rfl
    by_cases hnone : ∀ n ∈ ns, n.isNamed name = false
    · rw [List.eraseP_of_forall_not (by simpa using hnone)]
      exact .none hnone
    · simp only [not_forall, Bool.not_eq_false] at hnone
      obtain ⟨n, hn, named⟩ := hnone
      obtain ⟨m, before, after, first, named, hns, herase⟩ := List.exists_of_eraseP hn named
      rw [herase, hns]
      exact .dropped before m after named (by simpa using first)

/-! ## Roles -/

/-- An element has a role if its attribute for roles lists it, as it is written, between commas. -/
def Element.HasRole (e : Element) (role : String) : Prop :=
  ∃ roles, e.attribute? "role" = some roles ∧ Text.Lists ',' roles.toList role.toList

instance (e : Element) (role : String) : Decidable (e.HasRole role) :=
  match h : e.attribute? "role" with
  | some roles => decidable_of_iff (role.toList ∈ Text.splitAt ',' roles.toList) (by
      simp [Element.HasRole, h, Text.mem_splitAt_iff])
  | none => isFalse (by simp [Element.HasRole, h])

/-- A node that is an element with a role. -/
def Node.HasRole (n : Node) (role : String) : Prop :=
  ∃ e, n.element? = some e ∧ e.HasRole role

instance (n : Node) (role : String) : Decidable (n.HasRole role) :=
  match h : n.element? with
  | some e => decidable_of_iff (e.HasRole role) (by simp [Node.HasRole, h])
  | none => isFalse (by simp [Node.HasRole, h])

end Xml

namespace Injection

open Xml (Document DropsFirst Element Node nodesElements nodesLines)

theorem isKept_iff {e : Element} : isKept e = true ↔ ¬ e.HasRole "noinject" := by
  rw [isKept]
  split
  · rename_i roles h
    simp [Element.HasRole, h, ← Text.mem_splitAt_iff, noInjectRole]
  · rename_i h
    simp [Element.HasRole, h]

theorem passes_isKept_iff {n : Node} : n.passes isKept = true ↔ ¬ n.HasRole "noinject" := by
  rw [Node.passes, Node.HasRole]
  cases n.element? with
  | none => simp
  | some e => simp [isKept_iff]

/-- The nodes that a topic's text is, by the topic's root: what the root holds, less the first title and less every node
that a role keeps out or that is in such an element. -/
def IsTextOf (root : Element) (nodes : List Node) : Prop :=
  ∃ rest, DropsFirst "title" root.children rest ∧
    nodesLines nodes = (nodesLines rest).filter fun line => ∀ n ∈ line, ¬ n.HasRole "noinject"

theorem nodesLines_retain_isKept (ns : List Node) : nodesLines (Xml.nodesRetain isKept ns)
    = (nodesLines ns).filter fun line => ∀ n ∈ line, ¬ n.HasRole "noinject" := by
  rw [Xml.nodesLines_retain fun _ => rfl]
  refine List.filter_congr fun line _ => ?_
  rw [Bool.eq_iff_iff, List.all_eq_true, decide_eq_true_iff]
  exact forall₂_congr fun n _ => passes_isKept_iff

/-- **The body of a root is the one list of nodes that is its text.** -/
theorem isTextOf_iff {root : Element} {nodes : List Node} :
    IsTextOf root nodes ↔ nodes = ((root.dropFirstChild "title").retain isKept).children := by
  simp only [IsTextOf, Xml.dropsFirst_iff, exists_eq_left, ← nodesLines_retain_isKept]
  exact Xml.nodesLines_injective.eq_iff

theorem IsTextOf.not_hasRole {root : Element} {nodes : List Node} (h : IsTextOf root nodes) :
    ∀ e ∈ nodesElements nodes, ¬ e.HasRole "noinject" := by
  obtain ⟨rest, -, hlines⟩ := h
  intro e he hrole
  obtain ⟨line, hline, hmem⟩ := Xml.exists_line e he
  rw [hlines, List.mem_filter, decide_eq_true_iff] at hline
  exact hline.2 _ hmem ⟨e.tag, rfl, hrole⟩

/-- What a marker gives way to if it asks for the text of a related topic. -/
theorem stead?_of_text (targets : LinkTargets) (tolerant : Bool) {t related : Topic} {m : Marker} {body : String}
    {id : MarkerId} (hread : Marker.read? body = some m) (hkind : m.kind = .text) (hid : id ∈ m.ids)
    (hrelated : t.related? id.topicId = some related) : stead? targets t tolerant body = some (bodyOf related) := by
  obtain ⟨-, hone⟩ := Marker.ids_of_read? hread
  obtain ⟨id', hids⟩ := List.length_eq_one_iff.1 (hone (by rw [hkind]; rfl))
  obtain rfl : id = id' := by simpa [hids] using hid
  have hresolve : resolve? targets t .text id = some related := by simp [resolve?, MarkerKind.isLink, hrelated]
  have hsettled : Settled targets t m := by
    rw [← missing_eq_nil_iff, missing, hids, List.filter_eq_nil_iff]
    simp [hkind, ← isNone_resolve?, hresolve]
  rw [stead?, hread, Option.bind_some, if_pos (.inr hsettled), resolved, hids, hkind]
  simp [hresolve, nodes]

/-- **What a marker for a topic's text gives way to.**  If it names a related topic, the comment gives way to nothing
where that topic cannot be read.  Else it gives way to what the topic's root holds, less its first title and less the
elements, however deep, that the role `noinject` keeps out with all that is in them: all other nodes are as they are, and
no element among them has that role. -/
theorem gives_way_to_text (targets : LinkTargets) (tolerant : Bool) {t related : Topic} {m : Marker} {body : String}
    {id : MarkerId} (hread : Marker.read? body = some m) (hkind : m.kind = .text) (hid : id ∈ m.ids)
    (hrelated : t.related? id.topicId = some related) :
    ∃ nodes, stead? targets t tolerant body = some nodes ∧
      (∀ root, (process targets tolerant t root).1 = root.splice (stead? targets t tolerant)) ∧
      (∀ e, Document.read related.xml = .error e → nodes = []) ∧
      ∀ d, Document.read related.xml = .ok d →
        (∀ ns, IsTextOf d.root ns ↔ ns = nodes) ∧ ∀ e ∈ nodesElements nodes, ¬ e.HasRole "noinject" := by
  refine ⟨bodyOf related, stead?_of_text targets tolerant hread hkind hid hrelated,
    fun root => congrArg (·.1) (process_eq targets tolerant t root), fun e he => ?_, fun d hd => ?_⟩
  · rw [bodyOf, he]
  · have htext : ∀ ns, IsTextOf d.root ns ↔ ns = bodyOf related := by
      intro ns
      rw [isTextOf_iff, bodyOf, hd]
    exact ⟨htext, ((htext _).2 rfl).not_hasRole⟩

/-- A topic with two titles, and with roles at several depths. -/
def guardedTopic : Topic :=
  .ofText 2 "B" ("<a role=\"noinject\"><title role=\"noinject\"/><b role=\"x,noinject\"><c/></b>"
    ++ "<b role=\"noinject \"><title/><c role=\"noinject\">d</c>e</b></a>")

/-- The title goes, and so does what lists the role; what has another role that begins alike stays. -/
theorem gives_way_to_text_of_guarded :
    let t := { Topic.ofText 1 "A" "" with outgoing := [guardedTopic] }
    Marker.read? " InjectText: 2 " = some ⟨.text, [⟨2, false⟩]⟩ ∧ t.related? 2 = some guardedTopic ∧
    ∃ nodes d, stead? (.book {} false 1) t false " InjectText: 2 " = some nodes ∧
      Document.read guardedTopic.xml = .ok d ∧ (∀ ns, IsTextOf d.root ns ↔ ns = nodes) ∧
      Xml.nodesXml nodes = "<b role=\"noinject \"><title/>e</b>" := by
  intro t
  have hread : Marker.read? " InjectText: 2 " = some ⟨.text, [⟨2, false⟩]⟩ := by decide +kernel
  have hrelated : t.related? 2 = some guardedTopic := rfl
  have hruns : ((Document.read guardedTopic.xml).toOption.map fun d =>
      Xml.nodesXml ((d.root.dropFirstChild "title").retain isKept).children)
        = some "<b role=\"noinject \"><title/>e</b>" := by decide +kernel
  obtain ⟨nodes, hstead, -, -, htext⟩ :=
    gives_way_to_text (.book {} false 1) false hread rfl (List.mem_singleton_self _) hrelated
  cases hd : Document.read guardedTopic.xml with
  | error e => simp [hd, Except.toOption] at hruns
  | ok d =>
    have hshown : Xml.nodesXml ((d.root.dropFirstChild "title").retain isKept).children
        = "<b role=\"noinject \"><title/>e</b>" := by simpa [hd, Except.toOption] using hruns
    have hiff := (htext d hd).1
    rw [← isTextOf_iff.1 ((hiff nodes).2 rfl)] at hshown
    exact ⟨hread, hrelated, nodes, d, hstead, rfl, hiff, hshown⟩

end Injection
end Bookbinder
