import Bookbinder.Proofs.FreshIds
/-!
# Documents with their ids renamed

Making the ids of an occurrence unique renames them all at once, and the attribute values that refer to them with them
(`IdLedger.enforce_renames`).  Each value is looked up as it was, so that a new name that looks like another id is not
renamed again, and no value that names an id elsewhere in the book comes to name one of the occurrence.
-/
namespace Bookbinder

open Xml (Element Node)

namespace Xml

/-! ## Renamed trees -/

/-- A node with every attribute value replaced by its image, all else as it was. -/
inductive Node.RenamedBy (image : String → String) : Node → Node → Prop
  | element (name : String) (attributes : Attributes) {children children' : List Node}
    (below : List.Forall₂ (Node.RenamedBy image) children children') :
    Node.RenamedBy image (.element name attributes children)
      (.element name (attributes.map fun a => (a.1, image a.2)) children')
  | text (raw : String) : Node.RenamedBy image (.text raw) (.text raw)
  | cdata (content : String) : Node.RenamedBy image (.cdata content) (.cdata content)
  | comment (content : String) : Node.RenamedBy image (.comment content) (.comment content)
  | instruction (content : String) : Node.RenamedBy image (.instruction content) (.instruction content)

/-- A root with every attribute value but its id replaced by its image, all else as it was. -/
structure Element.RenamedBy (image : String → String) (e e' : Element) : Prop where
  name : e'.name = e.name
  attributes : e'.attributes = e.attributes.map fun a => (a.1, if a.1 = "id" then a.2 else image a.2)
  children : List.Forall₂ (Node.RenamedBy image) e.children e'.children

section Unchanged

variable {image : String → String}

mutual

theorem Node.RenamedBy.refl (h : ∀ v, image v = v) : ∀ n : Node, n.RenamedBy image n
  | .element name attributes children => by
    have hattributes : (attributes.map fun a => (a.1, image a.2)) = attributes :=
      List.map_id'' (fun a => by rw [h]) attributes
    have hrenamed := Node.RenamedBy.element name attributes (forall₂_renamedBy_refl h children)
    rwa [hattributes] at hrenamed
  | .text raw => .text raw
  | .cdata content => .cdata content
  | .comment content => .comment content
  | .instruction content => .instruction content

theorem forall₂_renamedBy_refl (h : ∀ v, image v = v) : ∀ ns : List Node,
    List.Forall₂ (Node.RenamedBy image) ns ns
  | [] => .nil
  | n :: ns => .cons (Node.RenamedBy.refl h n) (forall₂_renamedBy_refl h ns)

end

/-- Where every value is its own image, nothing is renamed. -/
theorem Element.RenamedBy.refl (h : ∀ v, image v = v) (e : Element) : e.RenamedBy image e where
  name := rfl
  attributes := (List.map_id'' (fun a => by rw [h, ite_self]) e.attributes).symm
  children := forall₂_renamedBy_refl h e.children

end Unchanged

end Xml

namespace IdLedger

mutual

theorem renamedBy_mapAttributes (names : List (String × String)) : ∀ n : Node,
    n.RenamedBy (renameValue names) (n.mapAttributes (fun _ as () => (renameAll names as, ())) ()).1
  | .element name attributes children => .element name attributes (forall₂_renamedBy_mapAttributes names children)
  | .text raw => .text raw
  | .cdata content => .cdata content
  | .comment content => .comment content
  | .instruction content => .instruction content

theorem forall₂_renamedBy_mapAttributes (names : List (String × String)) : ∀ ns : List Node,
    List.Forall₂ (Node.RenamedBy (renameValue names)) ns
      (Xml.nodesMapAttributes (fun _ as () => (renameAll names as, ())) ns ()).1
  | [] => .nil
  | n :: ns => .cons (renamedBy_mapAttributes names n) (forall₂_renamedBy_mapAttributes names ns)

end

theorem renamedBy_renameIn (names : List (String × String)) (root : Element) :
    root.RenamedBy (renameValue names) (renameIn names root) :=
  ⟨rfl, rfl, forall₂_renamedBy_mapAttributes names root.children⟩

/-! ## Ids that keep their names -/

theorem firstFree_of_free {free : String → Bool} {name : Nat → String} {attempt : Nat} (h : free (name attempt) = true) :
    ∀ n, firstFree free name attempt n = name attempt
  | 0 => rfl
  | _ + 1 => if_pos h

section Keeping

variable {l : IdLedger} {others originals : List String}

theorem eq_or_notMem_of_isFree {assigned : List String} {old name : String}
    (h : l.isFree others none originals assigned old name = true) : name = old ∨ name ∉ originals := by
  simp only [isFree, Bool.and_eq_true, Bool.not_eq_true', Option.isNone_none, Bool.true_and, ← Bool.not_eq_true,
    List.contains_iff_mem, bne_iff_ne] at h
  exact or_iff_not_imp_left.2 fun hne hmem => h.2 ⟨hne, hmem⟩

/-- Names of a first occurrence.  An id that gets a new name does not get that of another id of the document, and none
gets a new name unless its own is in use elsewhere. -/
structure KeepsNames (l : IdLedger) (others originals : List String) (given : List (String × String)) : Prop where
  own : ∀ n ∈ given, n.2 = n.1 ∨ n.2 ∉ originals
  kept : ∀ n ∈ given, n.1 ∉ l.taken → n.1 ∉ others → n.2 = n.1

theorem KeepsNames.concat {given : List (String × String)} {old : String} (h : l.KeepsNames others originals given)
    (hold : old ∈ originals) (hnew : old ∉ given.map (·.1)) (step bound : Nat)
    (hfree : l.isFree others none originals (given.map (·.2)) old
      (firstFree (l.isFree others none originals (given.map (·.2)) old) (candidate old step) 0 bound) = true) :
    l.KeepsNames others originals (given ++ [(old,
      firstFree (l.isFree others none originals (given.map (·.2)) old) (candidate old step) 0 bound)]) := by
  refine ⟨fun n hn => ?_, fun n hn htaken hothers => ?_⟩
  · rcases List.mem_append.1 hn with hn | hn
    · exact h.own n hn
    · rw [List.mem_singleton.1 hn]
      exact eq_or_notMem_of_isFree hfree
  · rcases List.mem_append.1 hn with hn | hn
    · exact h.kept n hn htaken hothers
    · rw [List.mem_singleton.1 hn] at htaken hothers ⊢
      -- No earlier id was given this name: it is an id of the document and none of the earlier ones.
      have hassigned : old ∉ given.map (·.2) := by
        intro hmem
        obtain ⟨m, hm, rfl⟩ := List.mem_map.1 hmem
        rcases h.own m hm with hsame | hout
        · exact hnew (hsame ▸ List.mem_map_of_mem hm)
        · exact hout hold
      refine firstFree_of_free ?_ bound
      simp only [isFree, candidate, Bool.and_eq_true, Bool.not_eq_true', bne_self_eq_false, Bool.and_false,
        Bool.false_and, and_true, ← Bool.not_eq_true, List.contains_iff_mem]
      exact ⟨⟨htaken, hothers⟩, hassigned⟩

theorem keepsNames_assign (step : Nat) : ∀ (olds : List String) (given : List (String × String)),
    olds ⊆ originals → (given.map (·.1) ++ olds).Nodup → l.KeepsNames others originals given →
      l.KeepsNames others originals (l.assign others none step originals olds given)
  | [], _, _, _, h => h
  | old :: olds, given, holds, hnodup, h => by
    obtain ⟨hold, holds⟩ := List.cons_subset.1 holds
    have hnew : old ∉ given.map (·.1) := fun hmem =>
      List.disjoint_of_nodup_append hnodup hmem List.mem_cons_self
    have hfree := isFree_firstFree l others originals (given.map (·.2)) none step old
    rw [assign]
    refine keepsNames_assign step olds _ holds ?_ (h.concat hold hnew step _ hfree)
    rwa [List.map_append, List.append_assoc]

end Keeping

/-! ## One occurrence -/

section Enforce

variable (l : IdLedger) (topicId : Int) (duplicate : Option Nat) (step : Nat) (root : Element)

theorem mem_names_iff {old new : String} : (old, new) ∈ (l.enforce topicId duplicate step root).1 ↔
    old ∈ innerIds root ∧ l.finalId topicId duplicate step root old = new ∧ old ≠ new := by
  have hmem : (old, new) ∈ (l.enforce topicId duplicate step root).1 ↔
      (old, new) ∈ l.namesFor topicId duplicate step root ∧ old ≠ new :=
    List.mem_filter.trans (and_congr_right fun _ => bne_iff_ne)
  rw [hmem, ← and_assoc]
  refine and_congr_left fun _ => ⟨fun h => ⟨?_, ?_⟩, ?_⟩
  · exact mem_innerIds_of_namesFor l topicId duplicate step root h
  · exact renameValue_filter_ne (nodup_map_fst_namesFor l topicId duplicate step root) h
  · rintro ⟨hold, rfl⟩
    exact mem_namesFor l topicId duplicate step root hold

theorem renamedBy_rewritten :
    root.RenamedBy (l.finalId topicId duplicate step root) (l.rewritten topicId duplicate step root) := by
  rcases rewritten_eq l topicId duplicate step root with ⟨hroot, hid⟩ | hroot
  · rw [hroot]
    exact Element.RenamedBy.refl hid root
  · rw [hroot]
    exact renamedBy_renameIn _ root

/-- A value that names an id of the occurrence or of the rest of the book names, once it is renamed, those ids of the
occurrence only that it named before. -/
theorem finalId_eq_iff {v id : String}
    (hv : v ∈ innerIds root ∨ v ∈ l.taken ∨ ∃ owner, owner ≠ topicId ∧ (owner, v) ∈ l.recorded)
    (hid : id ∈ innerIds root) :
    l.finalId topicId duplicate step root v = l.finalId topicId duplicate step root id ↔ v = id := by
  refine ⟨fun h => ?_, congrArg _⟩
  by_cases hinner : v ∈ innerIds root
  · exact finalId_inj l topicId duplicate step root hinner hid h
  · have hfresh := fresh_namesFor l topicId duplicate step root
    have hgiven := mem_namesFor l topicId duplicate step root hid
    rw [finalId_of_notMem l topicId duplicate step root hinner] at h
    rcases hv with hv | hv | hv
    · exact absurd hv hinner
    · exact absurd (h ▸ hv) (hfresh.notMem_taken _ hgiven)
    · exact absurd (h ▸ mem_elsewhere_iff.2 hv) (hfresh.notMem_others _ hgiven)

theorem finalId_of_free {id : String} (hid : id ∈ innerIds root) (htaken : id ∉ l.taken)
    (helsewhere : id ∉ l.elsewhere topicId) : l.finalId topicId none step root id = id := by
  have hkeeps : l.KeepsNames (l.elsewhere topicId) (innerIds root) (l.namesFor topicId none step root) := by
    refine keepsNames_assign step _ [] (fun _ hold => List.mem_eraseDups.1 hold) ?_ ⟨?_, ?_⟩
    · exact nodup_eraseDups _
    · exact fun _ h => absurd h List.not_mem_nil
    · exact fun _ h => absurd h List.not_mem_nil
  exact hkeeps.kept _ (mem_namesFor l topicId none step root hid) htaken helsewhere

/-- **Making ids unique is a renaming that keeps references.**  There is a map of names, given by the names that are
returned and the identity on all others, by which every attribute value is replaced once, that of the root's id apart,
while all else stays.  No value that names an id of the occurrence or of the rest of the book comes to name another id of
the occurrence, and the ids of a first occurrence keep their names unless they are in use elsewhere. -/
theorem enforce_renames : ∃ image : String → String,
    ((∀ old new, (old, new) ∈ (l.enforce topicId duplicate step root).1 ↔
        old ∈ innerIds root ∧ image old = new ∧ old ≠ new) ∧
      ((l.enforce topicId duplicate step root).1.map (·.1)).Nodup ∧ ∀ v, v ∉ innerIds root → image v = v) ∧
    root.RenamedBy image (l.enforce topicId duplicate step root).2.1 ∧
    innerIds (l.enforce topicId duplicate step root).2.1 = (innerIds root).map image ∧
    (∀ v, v ∈ innerIds root ∨ v ∈ l.taken ∨ (∃ owner, owner ≠ topicId ∧ (owner, v) ∈ l.recorded) →
      ∀ id ∈ innerIds root, image v = image id ↔ v = id) ∧
    (duplicate = none → ∀ id ∈ innerIds root, id ∉ l.taken →
      (∀ owner, owner ≠ topicId → (owner, id) ∉ l.recorded) → image id = id) := by
  refine ⟨l.finalId topicId duplicate step root, ⟨fun old new => mem_names_iff l topicId duplicate step root, ?_,
    fun v => finalId_of_notMem l topicId duplicate step root⟩, renamedBy_rewritten l topicId duplicate step root,
    innerIds_rewritten l topicId duplicate step root,
    fun v hv id hid => finalId_eq_iff l topicId duplicate step root hv hid, ?_⟩
  · exact (nodup_map_fst_namesFor l topicId duplicate step root).sublist (List.filter_sublist.map _)
  · rintro rfl id hid htaken helsewhere
    refine finalId_of_free l topicId step root hid htaken fun hmem => ?_
    obtain ⟨owner, howner, hrecorded⟩ := mem_elsewhere_iff.1 hmem
    exact helsewhere owner howner hrecorded

/-- A new name may be an id that is renamed too: the reference to `x` leads to `x-1` and no further. -/
example : ((IdLedger.mk [] []).rewritten 1 (some 1) 2 ⟨"section", [("id", "x")],
    [.element "para" [("id", "x")] [], .element "para" [("id", "x-1")] [], .element "xref" [("linkend", "x")] []]⟩)
    = ⟨"section", [("id", "x")], [.element "para" [("id", "x-1")] [], .element "para" [("id", "x-1-1")] [],
      .element "xref" [("linkend", "x-1")] []]⟩ := by
  cbv

end Enforce

end IdLedger
end Bookbinder
