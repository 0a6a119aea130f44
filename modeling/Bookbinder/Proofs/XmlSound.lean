import Bookbinder.Proofs.XmlWriting
/-!
# Trees that are written as they are

A node is sound if no element in it has an attribute twice and nothing else in it is taken for a tag when it is written.
What is read from a text is sound (`sound_of_read`), and what is sound and plain is written with the tags that it has
(`writes_node`).
-/
namespace Bookbinder
namespace Xml

open Text (after? cut? isSpace)

mutual

/-- A node in which no element has an attribute twice and nothing else is taken for a tag. -/
def Node.Sound : Node → Prop
  | .element _ as cs => (as.map (·.1)).Nodup ∧ nodesSound cs
  | n => Writes n.toXml.toList []

def nodesSound : List Node → Prop
  | [] => True
  | n :: ns => n.Sound ∧ nodesSound ns

end

theorem nodesSound_iff {ns : List Node} : nodesSound ns ↔ ∀ n ∈ ns, n.Sound := by
  induction ns with
  | nil => simp [nodesSound]
  | cons n ns ih => rw [nodesSound, ih, List.forall_mem_cons]

mutual

theorem Node.Sound.mapAttributes {σ : Type} {f : String → Attributes → σ → Attributes × σ}
    (hf : ∀ name as s, (f name as s).1.map (·.1) = as.map (·.1)) :
    ∀ {n : Node} (s : σ), n.Sound → (n.mapAttributes f s).1.Sound
  | .element name as cs, s, h => by
    refine ⟨?_, nodesSound_mapAttributes hf _ h.2⟩
    rw [hf]
    exact h.1
  | .text _, _, h => h
  | .cdata _, _, h => h
  | .comment _, _, h => h
  | .instruction _, _, h => h

theorem nodesSound_mapAttributes {σ : Type} {f : String → Attributes → σ → Attributes × σ}
    (hf : ∀ name as s, (f name as s).1.map (·.1) = as.map (·.1)) :
    ∀ {ns : List Node} (s : σ), nodesSound ns → nodesSound (nodesMapAttributes f ns s).1
  | [], _, _ => trivial
  | _ :: _, s, h => ⟨Node.Sound.mapAttributes hf s h.1, nodesSound_mapAttributes hf _ h.2⟩

end

mutual

theorem nodup_of_sound : ∀ {n : Node}, n.Sound → ∀ e ∈ n.elements, (e.attributes.map (·.1)).Nodup
  | .element _ _ _, h => by
    rw [Node.elements, List.forall_mem_cons]
    exact ⟨h.1, nodup_of_nodesSound h.2⟩
  | .text _, _ => fun _ he => absurd he List.not_mem_nil
  | .cdata _, _ => fun _ he => absurd he List.not_mem_nil
  | .comment _, _ => fun _ he => absurd he List.not_mem_nil
  | .instruction _, _ => fun _ he => absurd he List.not_mem_nil

theorem nodup_of_nodesSound : ∀ {ns : List Node}, nodesSound ns → ∀ e ∈ nodesElements ns,
    (e.attributes.map (·.1)).Nodup
  | [], _ => fun _ he => absurd he List.not_mem_nil
  | _ :: _, h => by
    rw [nodesElements, List.forall_mem_append]
    exact ⟨nodup_of_sound h.1, nodup_of_nodesSound h.2⟩

end

/-! ## Writing -/

theorem toList_toXml_leaf (name : String) (as : Attributes) :
    (Node.element name as []).toXml.toList = '<' :: (name.toList ++ (attributesXml as).toList ++ ['/', '>']) := by
  simp [Node.toXml]

theorem toList_toXml_cons (name : String) (as : Attributes) (n : Node) (ns : List Node) :
    (Node.element name as (n :: ns)).toXml.toList = '<' :: (name.toList ++ (attributesXml as).toList ++ ['>'])
      ++ (nodesXml (n :: ns)).toList ++ '<' :: '/' :: (name.toList ++ ['>']) := by
  simp [Node.toXml, nodesXml]

mutual

/-- **A sound node of plain elements is written with the tags of its elements.** -/
theorem writes_node : ∀ {n : Node}, n.Sound → (∀ e ∈ n.elements, e.isPlain = true) →
    Writes n.toXml.toList (n.elements.map Element.tag)
  | .element name as [], h, hp => by
    rw [toList_toXml_leaf]
    exact writes_empty (hp _ List.mem_cons_self) h.1 [] fun _ hc => absurd hc List.not_mem_nil
  | .element name as (n :: ns), h, hp => by
    rw [Node.elements, List.forall_mem_cons] at hp
    have hplain : (⟨name, as, []⟩ : Element).isPlain = true := hp.1
    have hwhole := ((writes_opening hplain h.1).append (writes_nodes h.2 hp.2)).append
      (writes_closing (isPlain_iff.1 hplain).1)
    rw [List.append_nil] at hwhole
    rw [toList_toXml_cons]
    exact hwhole
  | .text _, h, _ => h
  | .cdata _, h, _ => h
  | .comment _, h, _ => h
  | .instruction _, h, _ => h

theorem writes_nodes : ∀ {ns : List Node}, nodesSound ns → (∀ e ∈ nodesElements ns, e.isPlain = true) →
    Writes (nodesXml ns).toList (nodesTags ns)
  | [], _, _ => by
    rw [nodesXml, String.toList_empty]
    exact Writes.nil
  | n :: ns, h, hp => by
    rw [nodesElements, List.forall_mem_append] at hp
    rw [nodesXml, String.toList_append, nodesTags_cons]
    exact (writes_node h.1 hp.1).append (writes_nodes h.2 hp.2)

end

/-! ## Reading -/

namespace Tag

theorem nodup_keys {size : Nat} {seen : List (List Char × Nat)} {cs : List Char} {as : Attributes}
    (h : attributes size seen cs = .ok as) :
    (as.map (·.1)).Nodup ∧ ∀ a ∈ as, ∀ s ∈ seen, s.1 ≠ a.1.toList := by
  fun_induction attributes size seen cs generalizing as with
  | case1 =>
    cases h
    exact ⟨List.nodup_nil, fun _ h => absurd h List.not_mem_nil⟩
  | case2 => cases h
  | case3 => cases h
  | case4 =>
    rename_i start key hnew _ _ _ _ _ has ih
    cases h
    obtain ⟨hnd, hseen⟩ := ih has
    have hkey : (String.ofList key).toList = key := String.toList_ofList
    refine ⟨List.nodup_cons.2 ⟨fun hm => ?_, hnd⟩, fun a ha s hs he => ?_⟩
    · obtain ⟨a, ha, he⟩ := List.mem_map.1 hm
      exact hseen a ha (key, start) List.mem_cons_self (by rw [he, hkey])
    · rcases List.mem_cons.1 ha with rfl | ha
      · rw [hkey] at he
        exact List.find?_eq_none.1 hnew s hs (beq_iff_eq.2 he)
      · exact hseen a ha s (List.mem_cons_of_mem _ hs) he
  | case5 => cases h
  | case6 => cases h

theorem nodup_keys_element {content : List Char} {e : Element} (h : element content = .ok e) :
    (e.attributes.map (·.1)).Nodup := by
  rw [element] at h
  split at h
  · rename_i has
    cases h
    exact (nodup_keys has).1
  · cases h

end Tag

namespace Markup

/-- A piece that, unless it is a tag, reads as itself wherever it is written. -/
def Sound : Markup → Prop
  | .text raw => Writes raw []
  | .reference name => Writes ('&' :: name ++ [';']) []
  | .cdata content => Writes (['<', '!', '[', 'C', 'D', 'A', 'T', 'A', '['] ++ (content ++ [']', ']', '>'])) []
  | .comment content => Writes (['<', '!', '-', '-'] ++ (content ++ ['-', '-', '>'])) []
  | .instruction content => Writes (['<', '?'] ++ (content ++ ['?', '>'])) []
  | _ => True

theorem cut?_ends {p cs a r : List Char} (h : cut? p cs = some (a, r)) : cut? p (a ++ p) = some (a, []) := by
  have he := Text.cut?_eq_some h
  rw [he] at h
  have := Text.cut?_append h []
  rwa [List.append_nil] at this

theorem ends_of_cut {p q cs a r : List Char} (h : (after? p cs).bind (cut? q) = some (a, r)) :
    cut? q (a ++ q) = some (a, []) := by
  obtain ⟨cs', -, hc⟩ := Option.bind_eq_some_iff.1 h
  exact cut?_ends hc

theorem sound_nextReference {cs r : List Char} {m : Markup} (h : nextReference cs = .ok (m, r)) : m.Sound := by
  simp only [nextReference] at h
  split at h
  · cases h
    refine writes_reference _ fun c hc => ?_
    have hname := List.mem_takeWhile_imp hc
    exact hname
  · cases h

theorem exists_of_nextDoctype {cs r : List Char} {m : Markup} (h : nextDoctype cs = .ok (m, r)) :
    ∃ content, m = .doctype content := by
  rw [nextDoctype] at h
  split at h
  · cases h
  · split at h
    · cases h
    · split at h
      · cases h
      · cases h
        exact ⟨_, rfl⟩

theorem sound_nextBang {cs r : List Char} {m : Markup} (h : nextBang cs = .ok (m, r)) : m.Sound := by
  have hdoctype {cs : List Char} (h : nextDoctype cs = .ok (m, r)) : m.Sound := by
    obtain ⟨content, rfl⟩ := exists_of_nextDoctype h
    trivial
  unfold nextBang at h
  split at h
  · split at h
    · rename_i hc
      cases h
      exact writes_cdata (ends_of_cut hc)
    · cases h
  · split at h
    · rename_i hc
      cases h
      exact writes_comment (ends_of_cut hc)
    · cases h
  · exact hdoctype h
  · exact hdoctype h
  · cases h

theorem sound_nextInstruction {cs r : List Char} {m : Markup} (h : nextInstruction cs = .ok (m, r)) : m.Sound := by
  unfold nextInstruction at h
  split at h
  · cases h
  · rename_i hhead
    split at h
    · rename_i a r' hc
      cases h
      split
      · trivial
      · refine writes_instruction (cut?_ends hc) fun ha => hhead ?_
        have he := Text.cut?_eq_some hc
        cases a with
        | nil => cases ha
        | cons c a => rw [he]; exact ha
    · cases h

/-- **A piece that has been read is sound.** -/
theorem sound_of_next {c : Char} {cs r : List Char} {m : Markup} (h : next c cs = .ok (m, r)) : m.Sound := by
  unfold next at h
  split at h
  · unfold nextAngle at h
    split at h
    · exact sound_nextBang h
    · exact sound_nextInstruction h
    · unfold nextClosing at h
      split at h
      · cases h
        trivial
      · cases h
    · unfold nextTag at h
      split at h
      · cases h
        split <;> trivial
      · cases h
  · split at h
    · exact sound_nextReference h
    · rename_i hlt hamp
      cases h
      refine writes_text fun d hd => ?_
      rcases List.mem_cons.1 hd with rfl | hd
      · simp [isText, hlt, hamp]
      · exact List.mem_takeWhile_imp hd

end Markup

/-! ## What is read -/

section Every

variable {T : Element → Prop} {P : Node → Prop}

/-- How a property of tags and a property of nodes hold of all that is read: the tags that are read have the one, nodes
that are no elements have the other, and an element gets the other from its tag and its children once it is closed. -/
structure Spreads (T : Element → Prop) (P : Node → Prop) : Prop where
  leaf {c : Char} {cs rest : List Char} {m : Markup} {n : Node} (next : Markup.next c cs = .ok (m, rest))
    (leaf : m.leaf? = some n) : P n
  tag {c : Char} {cs rest : List Char} {m : Markup} {e : Element} (next : Markup.next c cs = .ok (m, rest))
    (tag : m.tag? = some e) : T e
  empty {e : Element} (tag : T e) (hollow : e.children = []) : P e.toNode
  close {c : Char} {cs rest name : List Char} {e : Element} (next : Markup.next c cs = .ok (.closing name, rest))
    (named : e.name = String.ofList name) (tag : T e.tag) (children : ∀ n ∈ e.children, P n) :
    P (.element e.name e.attributes e.children.reverse)

namespace Reading

/-- A reading of tags and nodes with two properties. -/
structure Every (T : Element → Prop) (P : Node → Prop) (r : Reading) : Prop where
  tags : ∀ e ∈ r.opened, T e.tag
  children : ∀ e ∈ r.opened, ∀ n ∈ e.children, P n
  root : ∀ root ∈ r.root, P root.toNode

theorem Every.added {r r' : Reading} {n : Node} (hr : r.Every T P) (hn : P n) (h : r.Added n r') : r'.Every T P := by
  cases h with
  | child e es opened =>
    have ht := hr.tags
    have hc := hr.children
    rw [opened, List.forall_mem_cons] at ht hc
    exact ⟨List.forall_mem_cons.2 ht, List.forall_mem_cons.2 ⟨List.forall_mem_cons.2 ⟨hn, hc.1⟩, hc.2⟩, hr.root⟩
  | root e element opened unrooted =>
    refine ⟨hr.tags, hr.children, fun root hroot => ?_⟩
    cases hroot
    exact element ▸ hn
  | outside leaf => exact hr

theorem name_of_closing {r r' : Reading} {name : List Char} (h : r.step (.closing name) = .ok r') :
    ∀ e ∈ r.opened.head?, e.name = String.ofList name := by
  obtain ⟨e, es, ho, hname, -⟩ := exists_of_step_closing h
  rw [ho]
  rintro _ ⟨⟩
  exact hname

theorem tag_of_children {e : Element} (h : e.children = []) : e.tag = e := by
  rw [Element.tag, ← h]

theorem Every.step {r r' : Reading} {c : Char} {cs rest : List Char} {m : Markup} (spreads : Spreads T P)
    (hr : r.Every T P) (hn : Markup.next c cs = .ok (m, rest)) (h : r.step m = .ok r') : r'.Every T P := by
  cases stepped_of_step h with
  | leaf n leaf added => exact hr.added (spreads.leaf hn leaf) added
  | opening content e tagged eq =>
    obtain ⟨htag, hchildren⟩ := tag?_of_tagged tagged
    rw [eq]
    refine ⟨List.forall_mem_cons.2 ⟨?_, hr.tags⟩, List.forall_mem_cons.2 ⟨?_, hr.children⟩, hr.root⟩
    · rw [tag_of_children hchildren]
      exact spreads.tag hn htag
    · rw [hchildren]
      exact fun n hn => absurd hn List.not_mem_nil
  | empty content e tagged added =>
    obtain ⟨htag, hchildren⟩ := tag?_of_tagged tagged
    exact hr.added (spreads.empty (spreads.tag hn htag) hchildren) added
  | closing name e es opened added =>
    have hname := name_of_closing h e (by rw [opened]; rfl)
    have ht := hr.tags
    have hc := hr.children
    rw [opened, List.forall_mem_cons] at ht hc
    have hrest : Every T P { r with opened := es } := ⟨ht.2, hc.2, hr.root⟩
    exact hrest.added (spreads.close hn hname ht.1 hc.1) added
  | passed tag opened root =>
    obtain ⟨ht, hc, hroot⟩ := hr
    exact ⟨opened ▸ ht, opened ▸ hc, root ▸ hroot⟩

theorem Every.run {r : Reading} {cs : List Char} {d : Document} (spreads : Spreads T P) (hr : r.Every T P)
    (h : r.run cs = .ok d) : P d.root.toNode := by
  fun_induction Reading.run r cs with
  | case1 r =>
    rw [finish] at h
    split at h
    · cases h
    · cases h
    · rename_i root ho hroot
      cases h
      exact hr.root root hroot
  | case2 => cases h
  | case3 => cases h
  | case4 r c cs m rest hn _ r' hs ih => exact ih (hr.step spreads hn hs) h

end Reading

/-- **What spreads to all that is read holds of the document's root.** -/
theorem Spreads.read {s : String} {d : Document} (spreads : Spreads T P) (h : Document.read s = .ok d) :
    P d.root.toNode :=
  Reading.Every.run (r := {}) spreads ⟨fun _ he => absurd he List.not_mem_nil, fun _ he => absurd he List.not_mem_nil,
    fun _ he => absurd he (Option.not_mem_none _)⟩ h

end Every

theorem sound_of_leaf? {m : Markup} {n : Node} (hm : m.Sound) (h : m.leaf? = some n) : n.Sound := by
  have hwritten {cs : List Char} (hw : Writes cs []) (hn : n.toXml.toList = cs) : Writes n.toXml.toList [] := hn ▸ hw
  cases m with
  | text raw =>
    cases h
    exact hwritten hm (by simp [Node.toXml])
  | reference name =>
    cases h
    exact hwritten hm (by simp [Node.toXml])
  | cdata content =>
    cases h
    exact hwritten hm (by simp [Node.toXml])
  | comment content =>
    cases h
    exact hwritten hm (by simp [Node.toXml])
  | instruction content =>
    cases h
    exact hwritten hm (by simp [Node.toXml])
  | _ => cases h

theorem exists_content {m : Markup} {e : Element} (h : m.tag? = some e) :
    ∃ content, Tag.element content = .ok e ∧ (m = .opening content ∨ m = .empty content) := by
  have hread {content : List Char} (h : (Tag.element content).toOption = some e) : Tag.element content = .ok e := by
    cases hr : Tag.element content with
    | error _ =>
      rw [hr] at h
      cases h
    | ok e' =>
      rw [hr] at h
      exact congrArg _ (Option.some.inj h)
  cases m with
  | opening content => exact ⟨content, hread h, .inl rfl⟩
  | empty content => exact ⟨content, hread h, .inr rfl⟩
  | _ => cases h

theorem spreads_sound : Spreads (fun e => (e.attributes.map (·.1)).Nodup) Node.Sound where
  leaf next leaf := sound_of_leaf? (Markup.sound_of_next next) leaf
  tag _ tag := by
    obtain ⟨content, hread, -⟩ := exists_content tag
    exact Tag.nodup_keys_element hread
  empty tag hollow := ⟨tag, hollow ▸ trivial⟩
  close _ _ tag children := ⟨tag, nodesSound_iff.2 fun n hn => children n (List.mem_reverse.1 hn)⟩

/-- **What is read from a text is sound.** -/
theorem sound_of_read {s : String} {d : Document} (h : Document.read s = .ok d) : d.root.toNode.Sound :=
  spreads_sound.read h

end Xml
end Bookbinder
