import Bookbinder.Proofs.XmlRestoring
/-!
# What a document takes up

A section takes up its brackets and all that it holds, and an element at least its name and the signs of an end tag.  All
of this has room in the text that a document is read from (`extent_le_of_run`).
-/
namespace Bookbinder
namespace Xml

mutual

/-- How many characters a node takes up at least. -/
def Node.extent : Node → Nat
  | .element name _ cs => name.toList.length + 3 + nodesExtent cs
  | .cdata content => content.toList.length + 12
  | _ => 0

def nodesExtent : List Node → Nat
  | [] => 0
  | n :: ns => n.extent + nodesExtent ns

end

theorem nodesExtent_append (ns ms : List Node) : nodesExtent (ns ++ ms) = nodesExtent ns + nodesExtent ms := by
  induction ns with
  | nil => simp [nodesExtent]
  | cons n ns ih => simp [nodesExtent, ih, Nat.add_assoc]

theorem nodesExtent_reverse (ns : List Node) : nodesExtent ns.reverse = nodesExtent ns := by
  induction ns with
  | nil => rfl
  | cons n ns ih => simp [nodesExtent, nodesExtent_append, ih, Nat.add_comm]

theorem nodesExtent_cdata (pieces : List String) :
    nodesExtent (pieces.map .cdata) = (String.join pieces).toList.length + 12 * pieces.length := by
  induction pieces with
  | nil => rfl
  | cons p ps ih =>
    simp only [List.map_cons, nodesExtent, Node.extent, ih, String.join_cons, String.toList_append, List.length_append,
      List.length_cons]
    omega

namespace Reading

variable {r r' : Reading} {m : Markup} {c : Char} {cs rest : List Char}

/-- What all that has been read takes up, the tags of open elements aside. -/
def extent (r : Reading) : Nat :=
  (r.root.elim 0 fun e => e.toNode.extent) + nodesExtent (r.opened.flatMap fun e => e.children)

theorem extent_of_added {n : Node} (h : r.Added n r') : r'.extent ≤ r.extent + n.extent := by
  cases h with
  | child e es opened =>
    simp only [extent, opened, List.flatMap_cons, nodesExtent_append, nodesExtent]
    omega
  | root e element opened unrooted =>
    simp only [extent, opened, unrooted, element, Option.elim_some, Option.elim_none]
    omega
  | outside leaf => exact Nat.le_add_right _ _

theorem extent_leaf {n : Node} (h : m.leaf? = some n) : n.extent ≤ m.source.length := by
  cases m <;> cases h <;> simp [Node.extent, Markup.source]

theorem extent_tagged {content : List Char} {e : Element} (h : tagged content = .ok e) :
    nodesExtent e.children = 0 ∧ e.toNode.extent ≤ content.length + 3 := by
  obtain ⟨htag, hchildren⟩ := tag?_of_tagged h
  have hname : e.name.toList = content.takeWhile fun c => !Text.isSpace c := by
    unfold Tag.element at htag
    split at htag
    · cases htag
      exact String.toList_ofList
    · cases htag
  have hlength := (List.takeWhile_sublist (fun c => !Text.isSpace c) (l := content)).length_le
  refine ⟨by rw [hchildren]; rfl, ?_⟩
  rw [Element.toNode, Node.extent, hname, hchildren, nodesExtent]
  omega

theorem length_closingName_le (cs : List Char) : (Markup.closingName cs).length ≤ cs.length := by
  unfold Markup.closingName
  split
  · exact Nat.le_refl _
  · have := (List.dropWhile_sublist Text.isSpace (l := cs.reverse)).length_le
    rwa [List.length_reverse] at this ⊢

theorem length_of_closing {name : List Char} (h : Markup.next c cs = .ok (.closing name, rest)) :
    name.length + 3 + rest.length ≤ cs.length + 1 := by
  obtain ⟨cs', a, rfl, ha, rfl⟩ := Markup.exists_tag_of_closing h
  obtain ⟨rfl, -⟩ := Markup.tag_eq_ok ha
  have := length_closingName_le a
  simp only [List.length_cons, List.length_append]
  omega

/-- **What a piece adds has room in the piece.** -/
theorem extent_of_step (hn : Markup.next c cs = .ok (m, rest)) (h : r.step m = .ok r') :
    r'.extent + rest.length ≤ r.extent + (cs.length + 1) := by
  have hsource (hm : m.Verbatim) : cs.length + 1 = m.source.length + rest.length := by
    have hcs := congrArg List.length (Markup.legible_of_next hn hm).1
    rwa [List.length_cons, List.length_append] at hcs
  cases stepped_of_step h with
  | leaf n leaf added =>
    have hadded := extent_of_added added
    have hleaf := extent_leaf leaf
    have := hsource (.of_leaf? leaf)
    omega
  | opening content e tagged eq =>
    subst eq
    have hnone := (extent_tagged tagged).1
    have := hsource trivial
    simp only [extent, List.flatMap_cons, nodesExtent_append, hnone]
    omega
  | empty content e tagged added =>
    have hadded := extent_of_added added
    have hempty := (extent_tagged tagged).2
    have := hsource trivial
    simp only [Markup.source, List.length_cons, List.length_append, List.length_nil] at this
    omega
  | closing name e es opened added =>
    -- The children count as those of an open element until its end tag is read, and as the element's from then on.
    obtain ⟨e', es', opened', hname, -⟩ := exists_of_step_closing h
    cases opened.symm.trans opened'
    have hadded := extent_of_added added
    have hlength := length_of_closing hn
    rw [Node.extent, hname, String.toList_ofList, nodesExtent_reverse] at hadded
    simp only [extent, opened, List.flatMap_cons, nodesExtent_append] at hadded ⊢
    omega
  | passed tag opened root =>
    have hrest := Markup.length_le_of_next hn
    simp only [extent, opened, root]
    omega

/-- **A document takes up no more than the text that it is read from.** -/
theorem extent_le_of_run {d : Document} (h : r.run cs = .ok d) : d.root.toNode.extent ≤ r.extent + cs.length := by
  fun_induction Reading.run r cs with
  | case1 r =>
    rw [finish] at h
    split at h
    · cases h
    · cases h
    · rename_i root ho hroot
      cases h
      simp [extent, ho, hroot]
  | case2 => cases h
  | case3 => cases h
  | case4 r c cs m rest hn _ r' hs ih =>
    have hstep := extent_of_step hn hs
    have hrest := ih h
    rw [List.length_cons]
    omega

end Reading
end Xml
end Bookbinder
