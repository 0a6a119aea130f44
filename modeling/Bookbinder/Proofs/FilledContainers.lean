import Bookbinder.Proofs.MirroredOutlines
/-!
# Containers of topics

The elements that the files of an outline show are its parts, its chapters and the levels below them.  A chapter, and a
level below one, includes the file of a topic.  A part includes the files of its chapters, and there are none if all its
references are directly in it: it is shown all the same, with nothing but its title.  So all containers hold topics if
and only if there is no such part (`Bindery.containers_hold_iff`).
-/
namespace Bookbinder

/-! ## Elements of an outline -/

mutual

/-- The element that a node of an outline is, if it is one, and those below it. -/
def OutlineNode.containers : OutlineNode → List OutlineNode
  | .inclusion _ => []
  | .element name id title children => .element name id title children :: outlineContainers children

def outlineContainers : List OutlineNode → List OutlineNode
  | [] => []
  | n :: ns => n.containers ++ outlineContainers ns

end

theorem outlineContainers_append (ns ms : List OutlineNode) :
    outlineContainers (ns ++ ms) = outlineContainers ns ++ outlineContainers ms := by
  induction ns with
  | nil => rfl
  | cons n ns ih => rw [List.cons_append, outlineContainers, outlineContainers, ih, List.append_assoc]

theorem mem_outlineContainers {n : OutlineNode} {ns : List OutlineNode} :
    n ∈ outlineContainers ns ↔ ∃ m ∈ ns, n ∈ m.containers := by
  induction ns with
  | nil => simp [outlineContainers]
  | cons m ns ih => rw [outlineContainers, List.mem_append, ih, List.exists_mem_cons_iff]

theorem outlineContainers_map_inclusion {α : Type} (f : α → String) (xs : List α) :
    outlineContainers (xs.map fun x => .inclusion (f x)) = [] := by
  induction xs with
  | nil => rfl
  | cons x xs ih => rw [List.map_cons, outlineContainers, OutlineNode.containers, ih, List.append_nil]

mutual

theorem OutlineNode.hrefs_subset : ∀ (m : OutlineNode) {n : OutlineNode}, n ∈ m.containers → n.hrefs ⊆ m.hrefs
  | .inclusion _, _, h => absurd h List.not_mem_nil
  | .element _ _ _ children, n, h => by
    rcases List.mem_cons.1 h with rfl | h
    · exact List.Subset.refl _
    · exact outlineHrefs_subset children h

/-- What an element of an outline includes is included by the outline. -/
theorem outlineHrefs_subset : ∀ (ns : List OutlineNode) {n : OutlineNode}, n ∈ outlineContainers ns →
    n.hrefs ⊆ outlineHrefs ns
  | [], _, h => absurd h List.not_mem_nil
  | m :: ns, n, h => by
    rcases List.mem_append.1 h with h | h
    · exact List.Subset.trans (OutlineNode.hrefs_subset m h) (List.subset_append_left _ _)
    · exact List.Subset.trans (outlineHrefs_subset ns h) (List.subset_append_right _ _)

end

/-! ## Levels and their elements -/

/-- Whether a level is a part whose references are all directly in it. -/
def Level.isHollow (l : Level) : Bool :=
  l.heading.kind == .part && (Layout.usedLevels l.children).isEmpty

namespace Layout

theorem itemsRefs_ne_nil {is : List Item} (h : itemsHaveRef is = true) : itemsRefs is ≠ [] := by
  rw [itemsHaveRef_eq] at h
  simpa using h

section Nodes

variable (r : Registry) (stable : Bool)

theorem outlineHrefs_nodes_ne_nil {is : List Item} (h : itemsHaveRef is = true) :
    outlineHrefs (nodes r stable is) ≠ [] := by
  rw [hrefs_nodes, Ne, List.map_eq_nil_iff]
  exact itemsRefs_ne_nil h

mutual

theorem hrefs_ne_nil_of_item : ∀ (i : Item), ∀ n ∈ outlineContainers (itemNodes r stable i), n.hrefs ≠ []
  | .topic _, _, h => absurd h List.not_mem_nil
  | .level heading children, n, h => by
    unfold itemNodes at h
    split at h
    · rename_i hused
      rw [outlineContainers, outlineContainers, List.append_nil, OutlineNode.containers] at h
      rcases List.mem_cons.1 h with rfl | h
      · exact outlineHrefs_nodes_ne_nil r stable hused
      · exact hrefs_ne_nil children n h
    · exact absurd h List.not_mem_nil

/-- **Every level below a chapter that is shown includes the file of a reference.** -/
theorem hrefs_ne_nil : ∀ (is : List Item), ∀ n ∈ outlineContainers (nodes r stable is), n.hrefs ≠ []
  | [], _, h => absurd h List.not_mem_nil
  | i :: is, n, h => by
    unfold nodes at h
    rw [outlineContainers_append] at h
    rcases List.mem_append.1 h with h | h
    · exact hrefs_ne_nil_of_item i n h
    · exact hrefs_ne_nil is n h

end

end Nodes

theorem hasRef_of_mem_chapters {root l : Level} (h : l ∈ chapters root) : l.hasRef = true := by
  obtain ⟨top, htop, hl⟩ := List.mem_flatMap.1 h
  unfold chaptersIn at hl
  split at hl
  · exact hasRef_of_mem_usedLevels hl
  · rw [List.mem_singleton.1 hl]
    exact hasRef_of_mem_usedLevels htop

/-! ## Numbers do not matter -/

mutual

theorem hasRef_unnumbered : ∀ i : Item, i.unnumbered.hasRef = i.hasRef
  | .topic _ => rfl
  | .level _ children => itemsHaveRef_unnumbered children

theorem itemsHaveRef_unnumbered : ∀ is : List Item, itemsHaveRef (itemsUnnumbered is) = itemsHaveRef is
  | [] => rfl
  | i :: is => by rw [itemsUnnumbered, itemsHaveRef, itemsHaveRef, hasRef_unnumbered i, itemsHaveRef_unnumbered is]

end

theorem usedLevels_unnumbered (is : List Item) :
    usedLevels (itemsUnnumbered is) = (usedLevels is).map Level.unnumbered := by
  fun_induction usedLevels is with
  | case1 => rfl
  | case2 ref is ih => rw [itemsUnnumbered, Item.unnumbered, usedLevels, ih]
  | case3 h children is hu ih =>
    rw [itemsUnnumbered, Item.unnumbered, usedLevels, itemsHaveRef_unnumbered, if_pos hu, ih, List.map_cons]
    rfl
  | case4 h children is hu ih =>
    rw [itemsUnnumbered, Item.unnumbered, usedLevels, itemsHaveRef_unnumbered, if_neg hu, ih]

theorem isHollow_unnumbered (l : Level) : l.unnumbered.isHollow = l.isHollow := by
  unfold Level.isHollow
  rw [show l.unnumbered.children = itemsUnnumbered l.children from rfl, usedLevels_unnumbered, List.isEmpty_map]
  rfl

/-- Whether there are hollow parts can be told from an outline without its numbers. -/
theorem any_isHollow_congr {l l' : Level} (h : l.unnumbered = l'.unnumbered) :
    (usedLevels l.children).any Level.isHollow = (usedLevels l'.children).any Level.isHollow := by
  have hany (l : Level) : (usedLevels l.children).any Level.isHollow
      = (usedLevels l.unnumbered.children).any Level.isHollow := by
    rw [show l.unnumbered.children = itemsUnnumbered l.children from rfl, usedLevels_unnumbered, List.any_map]
    exact congrArg _ (funext fun l => (isHollow_unnumbered l).symm)
  rw [hany, hany l', h]

end Layout

/-! ## Containers that hold topics -/

namespace Draft

/-- The elements that the files of an outline show: the parts in the book's own file, and in the file of each chapter
the chapter and the levels below it. -/
def containers (d : Draft) : List OutlineNode :=
  outlineContainers (d.bookNodes ++ (Layout.chapters d.outline).map d.chapterNode)

/-- A node that includes a topic's file that is in the archive, directly or below: what the file of a chapter includes
is below what includes that file. -/
inductive Holds (d : Draft) (a : Archive) : OutlineNode → Prop
  | topic {e : TopicEntry} (entry : e ∈ d.registry.entries) (file : d.topicPath e ∈ a.paths) :
    d.Holds a (.inclusion (d.hrefOf e))
  | chapter {l : Level} (chapter : l ∈ Layout.chapters d.outline) (held : d.Holds a (d.chapterNode l)) :
    d.Holds a (.inclusion (Layout.chapterFile d.stable l.heading))
  | within {name id title : String} {children : List OutlineNode} {n : OutlineNode} (child : n ∈ children)
    (held : d.Holds a n) : d.Holds a (.element name id title children)

variable {d : Draft} {a : Archive}

mutual

theorem Holds.of_mem_hrefs {href : String} (h : d.Holds a (.inclusion href)) : ∀ {n : OutlineNode}, href ∈ n.hrefs →
    d.Holds a n
  | .inclusion _, hn => List.mem_singleton.1 hn ▸ h
  | .element .., hn => by
    obtain ⟨m, hm, hheld⟩ := h.exists_of_mem_hrefs hn
    exact .within hm hheld

theorem Holds.exists_of_mem_hrefs {href : String} (h : d.Holds a (.inclusion href)) : ∀ {ns : List OutlineNode},
    href ∈ outlineHrefs ns → ∃ n ∈ ns, d.Holds a n
  | [], hns => absurd hns List.not_mem_nil
  | n :: ns, hns => by
    rcases List.mem_append.1 hns with hn | hns
    · exact ⟨n, List.mem_cons_self, h.of_mem_hrefs hn⟩
    · obtain ⟨m, hm, hheld⟩ := h.exists_of_mem_hrefs hns
      exact ⟨m, List.mem_cons_of_mem n hm, hheld⟩

end

/-- An element that includes nothing holds nothing. -/
theorem not_holds_of_no_children {name id title : String} : ¬d.Holds a (.element name id title []) := by
  intro h
  cases h with
  | within child => exact absurd child List.not_mem_nil

theorem Agrees.holds_inclusion (h : d.Agrees a) {href : String} (hhref : href ∈ d.chapterHrefs) :
    d.Holds a (.inclusion href) := by
  have hfile : d.localePath href ∈ a.paths := ((h.files _).2 (List.mem_map_of_mem hhref)).1
  rw [h.hrefs] at hhref
  obtain ⟨e, he, rfl⟩ := List.mem_map.1 hhref
  exact .topic (List.mem_filter.1 he).1 hfile

/-- What includes something within a chapter holds a topic. -/
theorem Agrees.holds_of_subset (h : d.Agrees a) {n : OutlineNode} (hne : n.hrefs ≠ []) {l : Level}
    (hl : l ∈ Layout.chapters d.outline) (hsub : n.hrefs ⊆ outlineHrefs (Layout.nodes d.registry d.stable l.children)) :
    d.Holds a n := by
  obtain ⟨href, hhref⟩ := List.exists_mem_of_ne_nil _ hne
  exact (h.holds_inclusion (List.mem_flatMap.2 ⟨l, hl, hsub hhref⟩)).of_mem_hrefs hhref

theorem Agrees.holds_chapterNode (h : d.Agrees a) {l : Level} (hl : l ∈ Layout.chapters d.outline) :
    d.Holds a (d.chapterNode l) :=
  h.holds_of_subset (Layout.outlineHrefs_nodes_ne_nil _ _ (Layout.hasRef_of_mem_chapters hl)) hl (List.Subset.refl _)

/-- **In the file of a chapter every element holds a topic.** -/
theorem Agrees.holds_of_chapter (h : d.Agrees a) {l : Level} (hl : l ∈ Layout.chapters d.outline) {n : OutlineNode}
    (hn : n ∈ (d.chapterNode l).containers) : d.Holds a n := by
  rcases List.mem_cons.1 hn with rfl | hn
  · exact h.holds_chapterNode hl
  · exact h.holds_of_subset (Layout.hrefs_ne_nil _ _ _ n hn) hl (outlineHrefs_subset _ hn)

/-- A part is among the elements of the book's own file. -/
theorem topNode_mem_containers {l : Level} (hl : l ∈ Layout.usedLevels d.outline.children)
    (hpart : l.heading.kind = .part) : Layout.topNode d.stable l ∈ d.containers := by
  refine mem_outlineContainers.2 ⟨Layout.topNode d.stable l, ?_, ?_⟩
  · exact List.mem_append_left _ (List.mem_append_left _ (List.mem_append_right _ (List.mem_map_of_mem hl)))
  · rw [Layout.topNode, if_pos hpart]
    exact List.mem_cons_self

/-- The elements of the book's own file are its parts. -/
theorem exists_topNode_of_mem {n : OutlineNode} (h : n ∈ outlineContainers d.bookNodes) :
    ∃ l ∈ Layout.usedLevels d.outline.children, l.heading.kind = .part ∧ n = Layout.topNode d.stable l := by
  have hpage (suppressed : Bool) (file : String) :
      outlineContainers (if suppressed then [] else [.inclusion file]) = [] := by
    cases suppressed <;> rfl
  rw [bookNodes, outlineContainers_append, outlineContainers_append, hpage, hpage, List.nil_append,
    List.append_nil] at h
  obtain ⟨m, hm, hn⟩ := mem_outlineContainers.1 h
  obtain ⟨l, hl, rfl⟩ := List.mem_map.1 hm
  unfold Layout.topNode at hn
  split at hn
  · rename_i hpart
    rw [OutlineNode.containers, outlineContainers_map_inclusion, List.mem_singleton] at hn
    exact ⟨l, hl, hpart, by rw [hn, Layout.topNode, if_pos hpart]⟩
  · exact absurd hn List.not_mem_nil

/-- **A part holds a topic unless all its references are directly in it.** -/
theorem Agrees.holds_topNode_iff (h : d.Agrees a) {l : Level} (hl : l ∈ Layout.usedLevels d.outline.children)
    (hpart : l.heading.kind = .part) : d.Holds a (Layout.topNode d.stable l) ↔ l.isHollow = false := by
  have hhollow : l.isHollow = (Layout.usedLevels l.children).isEmpty := by
    rw [Level.isHollow, hpart]
    rfl
  have hchapters : Layout.chaptersIn l = Layout.usedLevels l.children := if_pos hpart
  rw [hhollow]
  cases hlevels : Layout.usedLevels l.children with
  | nil =>
    rw [Layout.topNode, if_pos hpart, hlevels]
    exact iff_of_false not_holds_of_no_children (by decide)
  | cons c cs =>
    have hc : c ∈ Layout.chaptersIn l := by
      rw [hchapters, hlevels]
      exact List.mem_cons_self
    refine iff_of_true ?_ rfl
    have hheld : d.Holds a (.inclusion (Layout.chapterFile d.stable c.heading)) :=
      have hmem := List.mem_flatMap.2 ⟨l, hl, hc⟩
      .chapter hmem (h.holds_chapterNode hmem)
    refine hheld.of_mem_hrefs ?_
    rw [Layout.hrefs_topNode]
    exact List.mem_map_of_mem hc

/-- All containers hold topics just where there are no hollow parts. -/
theorem Agrees.holds_iff (h : d.Agrees a) : (∀ n ∈ d.containers, d.Holds a n) ↔
    (Layout.usedLevels d.outline.children).any Level.isHollow = false := by
  rw [List.any_eq_false]
  constructor
  · intro hall l hl hhollow
    have hpart : l.heading.kind = .part := beq_iff_eq.1 (Bool.and_eq_true_iff.1 hhollow).1
    rw [(h.holds_topNode_iff hl hpart).1 (hall _ (topNode_mem_containers hl hpart))] at hhollow
    cases hhollow
  · intro hnone n hn
    rw [containers, outlineContainers_append] at hn
    rcases List.mem_append.1 hn with hn | hn
    · obtain ⟨l, hl, hpart, rfl⟩ := exists_topNode_of_mem hn
      exact (h.holds_topNode_iff hl hpart).2 (Bool.eq_false_iff.2 (hnone l hl))
    · obtain ⟨m, hm, hn⟩ := mem_outlineContainers.1 hn
      obtain ⟨l, hl, rfl⟩ := List.mem_map.1 hm
      exact h.holds_of_chapter hl hn

end Draft

namespace Bindery

variable {σ : Type} {b : Bindery σ} {spec : ContentSpec} {settings : Settings} {requester : Option String} {book : Book}
  {d : Draft} {images : List Image} {s s' t : Session σ}

/-- **Which outlines have no empty containers.**  In a bound book every part, every chapter and every level below one
includes the file of a published topic, directly or below, if and only if no part directly below the book that holds
references has all of them directly in it. -/
theorem containers_hold_iff (hplain : b.Untranslated s) (hbind : (b.bind spec settings requester).Gives s book s')
    (hprepare : (b.prepare spec settings requester).Gives s (d, images) t) :
    (∀ n ∈ d.containers, d.Holds book.archive n) ↔
      (Layout.usedLevels spec.root.children).any Level.isHollow = false := by
  obtain ⟨d', images', t', hprepare', hready, hagrees⟩ := agrees_bind hplain hbind
  cases (hprepare.unique hprepare').1
  have hroot : d.outline.unnumbered = spec.root.unnumbered := by
    rw [outline_of_prepare hprepare, Registry.unnumbered_register]
  rw [← Layout.any_isHollow_congr hroot]
  exact hagrees.holds_iff

/-- In a book with a part, an empty section and repeats, the part, two chapters and a section hold topics. -/
theorem containers_hold_mixed : ∃ book d images s' t,
    (sample.bind mixedSpec sampleSettings none).Gives mixedSession book s' ∧
    (sample.prepare mixedSpec sampleSettings none).Gives mixedSession (d, images) t ∧
    d.containers.length = 4 ∧ ∀ n ∈ d.containers, d.Holds book.archive n := by
  have hplain : sample.Untranslated mixedSession := untranslated_memory rfl (by decide +kernel)
  have hruns : ∃ book d images s' t, (sample.bind mixedSpec sampleSettings none).Gives mixedSession book s' ∧
      (sample.prepare mixedSpec sampleSettings none).Gives mixedSession (d, images) t ∧
      d.containers.length = 4 ∧ True :=
    exists_bound (P := fun d => d.containers.length = 4) (Q := fun _ _ => True) (by decide +kernel)
  obtain ⟨book, d, images, s', t, hbind, hprepare, hlength, -⟩ := hruns
  have hnone : (Layout.usedLevels mixedSpec.root.children).any Level.isHollow = false := by decide
  exact ⟨book, d, images, s', t, hbind, hprepare, hlength, (containers_hold_iff hplain hbind hprepare).2 hnone⟩

/-- A book of a part with a reference directly in it, and a chapter. -/
def hollowSpec : ContentSpec :=
  sampleSpec [
    .level { kind := .part, title := "Basics" } [.topic (.ofTopic 1 "A")],
    .level { kind := .chapter, title := "Guide" } [.topic (.ofTopic 2 "B")]]

/-- The part is shown, and holds no topic. -/
theorem containers_empty : ∃ book d images s' t,
    (sample.bind hollowSpec sampleSettings none).Gives mixedSession book s' ∧
    (sample.prepare hollowSpec sampleSettings none).Gives mixedSession (d, images) t ∧
    OutlineNode.element "part" "part-Basics" "Basics" [] ∈ d.containers ∧
    ¬d.Holds book.archive (.element "part" "part-Basics" "Basics" []) := by
  have hruns : ∃ book d images s' t, (sample.bind hollowSpec sampleSettings none).Gives mixedSession book s' ∧
      (sample.prepare hollowSpec sampleSettings none).Gives mixedSession (d, images) t ∧
      ((Layout.usedLevels d.outline.children).map (fun l => (l.heading.kind, l.heading.linkId d.stable, l.heading.title,
        (Layout.usedLevels l.children).length)) = [(.part, "part-Basics", "Basics", 0),
          (.chapter, "chap-Guide", "Guide", 0)]) ∧ True :=
    exists_bound (P := fun d => (Layout.usedLevels d.outline.children).map (fun l =>
      (l.heading.kind, l.heading.linkId d.stable, l.heading.title, (Layout.usedLevels l.children).length))
        = [(.part, "part-Basics", "Basics", 0), (.chapter, "chap-Guide", "Guide", 0)]) (Q := fun _ _ => True)
      (by decide +kernel)
  obtain ⟨book, d, images, s', t, hbind, hprepare, hlevels, -⟩ := hruns
  refine ⟨book, d, images, s', t, hbind, hprepare, ?_, Draft.not_holds_of_no_children⟩
  obtain ⟨l, ls, hl, hshown, -⟩ := List.map_eq_cons_iff.1 hlevels
  simp only [Prod.mk.injEq, List.length_eq_zero_iff] at hshown
  obtain ⟨hkind, hid, htitle, hnone⟩ := hshown
  have hmem := Draft.topNode_mem_containers (d := d) (hl ▸ List.mem_cons_self) hkind
  rw [Layout.topNode, if_pos hkind, hkind, hid, htitle, hnone] at hmem
  exact hmem

end Bindery
end Bookbinder
