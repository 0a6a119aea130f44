import Bookbinder.Proofs.XmlRereading
import Mathlib.Data.List.Chain
/-!
# Nodes that are restored

A node that was read is restored from what it is written as just if each tag in it is read again as it is written and no
two running texts stand side by side (`Element.Restorable`).  Reading what a restorable node is written as adds the node
to what has been read (`run_node`), by induction on the tree.
-/
namespace Bookbinder
namespace Xml

open Text (isSpace)

/-! ## What is restored -/

/-- Running text, which is one with running text that follows it.  Any other text node that is read is a reference. -/
def Node.isRunning : Node → Bool
  | .text raw => raw.toList.head?.any Markup.isText
  | _ => false

/-- No two running texts stand side by side. -/
def Parts (ns : List Node) : Prop :=
  ns.IsChain fun n m => n.isRunning = true → m.isRunning = false

/-- An element whose tag and whose children's bounds are found again. -/
structure Element.Restorable (e : Element) : Prop where
  rereads : e.Rereads
  parts : Parts e.children

/-! ## What is read -/

/-- A name that a tag can begin with. -/
structure IsTagName (name : String) : Prop where
  head : ∀ c ∈ name.toList.head?, c ≠ '!' ∧ c ≠ '?' ∧ c ≠ '/'
  spaceless : ∀ c ∈ name.toList, isSpace c = false

/-- An end tag of the name is read as one. -/
def Closes (name : String) : Prop :=
  Markup.tag none (name.toList ++ ['>']) = .ok (name.toList, [])

mutual

/-- A node that can have been read: elements are named as tags can be, and all else is a piece that is read again. -/
def Node.Legible : Node → Prop
  | .element name _ cs => IsTagName name ∧ (cs ≠ [] → Closes name) ∧ nodesLegible cs
  | n => ∃ m : Markup, m.leaf? = some n ∧ m.Legible

def nodesLegible : List Node → Prop
  | [] => True
  | n :: ns => n.Legible ∧ nodesLegible ns

end

theorem nodesLegible_iff {ns : List Node} : nodesLegible ns ↔ ∀ n ∈ ns, n.Legible := by
  induction ns with
  | nil => simp [nodesLegible]
  | cons n ns ih => rw [nodesLegible, ih, List.forall_mem_cons]

mutual

theorem Node.Legible.mapAttributes {σ : Type} (f : String → Attributes → σ → Attributes × σ) :
    ∀ {n : Node} (s : σ), n.Legible → (n.mapAttributes f s).1.Legible
  | .element _ _ [], _, ⟨hname, _, _⟩ => ⟨hname, fun h => absurd rfl h, trivial⟩
  | .element _ _ (_ :: _), _, ⟨hname, hcloses, hcs⟩ =>
    ⟨hname, fun _ => hcloses (List.cons_ne_nil _ _), nodesLegible_mapAttributes f _ hcs⟩
  | .text _, _, h => h
  | .cdata _, _, h => h
  | .comment _, _, h => h
  | .instruction _, _, h => h

theorem nodesLegible_mapAttributes {σ : Type} (f : String → Attributes → σ → Attributes × σ) :
    ∀ {ns : List Node} (s : σ), nodesLegible ns → nodesLegible (nodesMapAttributes f ns s).1
  | [], _, _ => trivial
  | _ :: _, s, h => ⟨Node.Legible.mapAttributes f s h.1, nodesLegible_mapAttributes f _ h.2⟩

end

theorem legible_of_leaf? {m : Markup} {n : Node} (h : m.leaf? = some n) (hm : m.Legible) : n.Legible := by
  cases n with
  | element name as cs => cases m <;> cases h
  | _ => exact ⟨m, h, hm⟩

theorem toXml_of_leaf? {m : Markup} {n : Node} (h : m.leaf? = some n) : n.toXml.toList = m.source := by
  cases m <;> cases h <;> simp [Node.toXml, Markup.source]

namespace Markup

/-- A quote that is open at the end of a tag's text is closed in it. -/
theorem mem_of_tag {q : Char} {cs a r : List Char} (h : tag (some q) cs = .ok (a, r)) : q ∈ a := by
  induction cs generalizing a with
  | nil => cases h
  | cons c cs ih =>
    rw [tag] at h
    split at h
    · rename_i a' r' ha
      cases h
      split at ha
      · rename_i hc
        exact hc ▸ List.mem_cons_self
      · exact List.mem_cons_of_mem _ (ih ha)
    · cases h

/-- Spaces at the end of a tag's text can be left out. -/
theorem tag_of_spaces {q : Option Char} {cs tail r : List Char} (hq : ∀ c ∈ q, isSpace c = false)
    (htail : ∀ c ∈ tail, isSpace c = true) (h : tag q (cs ++ tail ++ '>' :: r) = .ok (cs ++ tail, r)) (r' : List Char) :
    tag q (cs ++ '>' :: r') = .ok (cs, r') := by
  have hquote {c : Char} : ∀ d ∈ (if c = '"' ∨ c = '\'' then some c else none), isSpace d = false := by
    intro d hd
    split at hd
    · rename_i hc
      cases hd
      rcases hc with rfl | rfl <;> decide
    · cases hd
  induction cs generalizing q with
  | nil =>
    cases q with
    | none => rfl
    | some q =>
      have hspace := htail q (mem_of_tag h)
      rw [hq q rfl] at hspace
      cases hspace
  | cons c cs ih =>
    cases q with
    | none =>
      by_cases hc : c = '>'
      · subst hc
        cases h
      · rw [List.cons_append, List.cons_append, tag] at h
        · split at h
          · rename_i a s ha
            cases h
            rw [List.cons_append, tag, ih hquote ha]
            exact hc
          · cases h
        · exact hc
    | some q =>
      have hq' : ∀ d ∈ (if c = q then none else some q), isSpace d = false := by
        split
        · exact fun d hd => absurd hd (Option.not_mem_none d)
        · exact hq
      rw [List.cons_append, List.cons_append, tag] at h
      split at h
      · rename_i a s ha
        cases h
        rw [List.cons_append, tag, ih hq' ha]
      · cases h

/-- Whether a piece is a tag. -/
def isTag : Markup → Bool
  | .opening _ => true
  | .empty _ => true
  | .closing _ => true
  | _ => false

/-- **Only what begins neither with an exclamation mark nor with a question mark is read as a tag.** -/
theorem next_of_isTag {c : Char} {cs rest : List Char} {m : Markup} (h : next c cs = .ok (m, rest))
    (hm : m.isTag = true) : c = '<' ∧ ((∃ cs', cs = '/' :: cs' ∧ nextClosing cs' = .ok (m, rest)) ∨
      ((∀ d ∈ cs.head?, d ≠ '!' ∧ d ≠ '?' ∧ d ≠ '/') ∧ nextTag cs = .ok (m, rest))) := by
  have hdoctype {cs : List Char} (h : nextDoctype cs = .ok (m, rest)) : False := by
    obtain ⟨content, rfl⟩ := exists_of_nextDoctype h
    cases hm
  unfold next at h
  split at h
  · rename_i hc
    refine ⟨hc, ?_⟩
    unfold nextAngle at h
    split at h
    · unfold nextBang at h
      split at h
      · split at h <;> cases h
        cases hm
      · split at h <;> cases h
        cases hm
      · exact absurd (hdoctype h) not_false
      · exact absurd (hdoctype h) not_false
      · cases h
    · unfold nextInstruction at h
      split at h
      · cases h
      · split at h
        · cases h
          split at hm <;> cases hm
        · cases h
    · rename_i cs'
      exact .inl ⟨cs', rfl, h⟩
    · rename_i hbang hquestion hslash
      refine .inr ⟨fun d hd => ?_, h⟩
      obtain ⟨ds, rfl⟩ := List.head?_eq_some_iff.1 (Option.mem_def.1 hd)
      refine ⟨?_, ?_, ?_⟩ <;> rintro rfl
      · exact hbang ds rfl
      · exact hquestion ds rfl
      · exact hslash ds rfl
  · split at h
    · simp only [nextReference] at h
      split at h <;> cases h
      cases hm
    · cases h
      cases hm

/-- What is read as an end tag is written as one. -/
theorem exists_tag_of_closing {c : Char} {cs rest name : List Char} (h : next c cs = .ok (.closing name, rest)) :
    ∃ cs' a, cs = '/' :: cs' ∧ tag none cs' = .ok (a, rest) ∧ name = closingName a := by
  obtain ⟨-, ⟨cs', rfl, hclosing⟩ | ⟨-, htag⟩⟩ := next_of_isTag h rfl
  · unfold nextClosing at hclosing
    split at hclosing
    · cases hclosing
      exact ⟨cs', _, rfl, ‹_›, rfl⟩
    · cases hclosing
  · unfold nextTag at htag
    split at htag
    · simp only [Except.ok.injEq, Prod.mk.injEq] at htag
      have hpiece := htag.1
      split at hpiece <;> cases hpiece
    · cases htag

theorem closes_of_next {c : Char} {cs rest name : List Char} (h : next c cs = .ok (.closing name, rest))
    (hname : ∀ c ∈ name, isSpace c = false) : Closes (String.ofList name) := by
  obtain ⟨cs', a, -, ha, rfl⟩ := exists_tag_of_closing h
  obtain ⟨rfl, htag⟩ := tag_eq_ok ha
  unfold closingName at hname ⊢
  rw [Closes, String.toList_ofList]
  split at hname <;> rename_i hall
  · rw [if_pos hall]
    exact htag []
  · rw [if_neg hall]
    -- What stands between the name and the end of the tag is space.
    have hsplit : a = (a.reverse.dropWhile isSpace).reverse ++ (a.reverse.takeWhile isSpace).reverse := by
      rw [← List.reverse_append, List.takeWhile_append_dropWhile, List.reverse_reverse]
    have hspaces : ∀ d ∈ (a.reverse.takeWhile isSpace).reverse, isSpace d = true := fun d hd =>
      List.mem_takeWhile_imp (List.mem_reverse.1 hd)
    exact tag_of_spaces (fun d hd => absurd hd (Option.not_mem_none d)) hspaces (hsplit ▸ ha) []

theorem isTag_of_tag? {m : Markup} {e : Element} (h : m.tag? = some e) : m.isTag = true := by
  cases m with
  | opening content => rfl
  | empty content => rfl
  | _ => cases h

theorem isTagName_of_next {c : Char} {cs rest : List Char} {m : Markup} {e : Element}
    (h : next c cs = .ok (m, rest)) (hm : m.tag? = some e) : IsTagName e.name := by
  obtain ⟨content, hread, hpiece⟩ := exists_content hm
  have hname : e.name.toList = content.takeWhile fun c => !isSpace c := by
    rw [Tag.element] at hread
    split at hread
    · cases hread
      rw [Tag.name, String.toList_ofList]
    · cases hread
  have hhead : ∀ d ∈ cs.head?, d ≠ '!' ∧ d ≠ '?' ∧ d ≠ '/' := by
    obtain ⟨-, ⟨cs', -, hclosing⟩ | ⟨hhead, -⟩⟩ := next_of_isTag h (isTag_of_tag? hm)
    · unfold nextClosing at hclosing
      split at hclosing <;> cases hclosing
      cases hm
    · exact hhead
  -- The tag's text begins with its content, and the content with the name.
  have hsource : ∃ sign, cs = content ++ sign := by
    have hs := (legible_of_next h (.of_tag? hm)).1
    rcases hpiece with rfl | rfl
    · exact ⟨'>' :: rest, by simpa [source] using (List.cons.inj hs).2⟩
    · exact ⟨'/' :: '>' :: rest, by simpa [source] using (List.cons.inj hs).2⟩
  obtain ⟨sign, rfl⟩ := hsource
  refine ⟨fun d hd => hhead d ?_, fun d hd => ?_⟩
  · rw [hname] at hd
    cases content with
    | nil => cases hd
    | cons c content =>
      rw [List.takeWhile_cons] at hd
      split at hd
      · exact hd
      · cases hd
  · rw [hname] at hd
    simpa using List.mem_takeWhile_imp hd

end Markup

theorem spreads_legible : Spreads (fun e => IsTagName e.name) Node.Legible where
  leaf next leaf := legible_of_leaf? leaf (Markup.legible_of_next next (.of_leaf? leaf)).2
  tag next tag := Markup.isTagName_of_next next tag
  empty tag hollow := ⟨tag, fun h => absurd hollow h, hollow ▸ trivial⟩
  close {c cs rest name e} next named tag children := by
    have hname : e.name.toList = name := by rw [named, String.toList_ofList]
    have hspaceless : ∀ c ∈ name, isSpace c = false := hname ▸ tag.spaceless
    exact ⟨tag, fun _ => named ▸ Markup.closes_of_next next hspaceless,
      nodesLegible_iff.2 fun n hn => children n (List.mem_reverse.1 hn)⟩

/-! ## Reading on -/

theorem Node.isRunning_eq (n : Node) : n.isRunning = n.toXml.toList.head?.any Markup.isText := by
  cases n with
  | text raw => rw [Node.toXml, Node.isRunning]
  | element name as cs =>
    cases cs with
    | nil => rw [toList_toXml_leaf]; rfl
    | cons n ns => rw [toList_toXml_cons]; rfl
  | cdata content => simp [Node.toXml, Node.isRunning, Markup.isText]
  | comment content => simp [Node.toXml, Node.isRunning, Markup.isText]
  | instruction content => simp [Node.toXml, Node.isRunning, Markup.isText]

theorem Node.Legible.toXml_ne_nil {n : Node} (h : n.Legible) : n.toXml.toList ≠ [] := by
  have hleaf {n : Node} (h : ∃ m : Markup, m.leaf? = some n ∧ m.Legible) : n.toXml.toList ≠ [] := by
    obtain ⟨m, hm, c, cs, hsource, -⟩ := h
    rw [toXml_of_leaf? hm, hsource]
    exact List.cons_ne_nil _ _
  cases n with
  | element name as cs =>
    cases cs with
    | nil => rw [toList_toXml_leaf]; exact List.cons_ne_nil _ _
    | cons n ns => rw [toList_toXml_cons]; exact List.cons_ne_nil _ _
  | _ => exact hleaf h

/-- Whether text joins what follows it is told by the node that comes first. -/
theorem head_nodesXml {n : Node} (h : n.Legible) (ns : List Node) (rest : List Char) :
    (∀ c ∈ ((nodesXml (n :: ns)).toList ++ rest).head?, Markup.isText c = false) ↔ n.isRunning = false := by
  obtain ⟨c, cs, hcs⟩ := List.exists_cons_of_ne_nil h.toXml_ne_nil
  rw [Node.isRunning_eq, nodesXml, String.toList_append, hcs]
  simp

namespace Reading

theorem run_of_next {r r' : Reading} {c : Char} {cs rest : List Char} {m : Markup}
    (hn : Markup.next c cs = .ok (m, rest)) (hs : r.step m = .ok r') : r.run (c :: cs) = r'.run rest := by
  rw [run]
  split
  · rename_i e
    rw [hn] at e
    cases e
  · rename_i e
    rw [hn] at e
    cases e
    rw [hs]

theorem exists_of_run {r : Reading} {c : Char} {cs : List Char} {d : Document} (h : r.run (c :: cs) = .ok d) :
    ∃ m rest r', Markup.next c cs = .ok (m, rest) ∧ r.step m = .ok r' ∧ r'.run rest = .ok d := by
  rw [run] at h
  split at h
  · cases h
  · rename_i m rest hn
    split at h
    · cases h
    · rename_i r' hs
      exact ⟨m, rest, r', hn, hs, h⟩

theorem run_of_legible {r r' : Reading} {m : Markup} {rest : List Char} (hm : m.Legible)
    (hrest : m.source.head?.any Markup.isText = true → ∀ d ∈ rest.head?, Markup.isText d = false)
    (hs : r.step m = .ok r') : r.run (m.source ++ rest) = r'.run rest := by
  obtain ⟨c, cs, hsource, hnext⟩ := hm
  rw [hsource] at hrest ⊢
  exact run_of_next (hnext rest fun hc => hrest (by simpa using hc)) hs

/-- What a text node is read as, the reading adds. -/
theorem step_of_leaf? {r : Reading} {m : Markup} {n : Node} (h : m.leaf? = some n) : r.step m = r.add n := by
  cases m <;> cases h <;> rfl

theorem add_of_opened {r : Reading} {e : Element} {es : List Element} (ho : r.opened = e :: es) (n : Node) :
    r.add n = .ok { r with opened := ⟨e.name, e.attributes, n :: e.children⟩ :: es } := by
  simp only [add, attach, ho]

theorem tagged_eq {content : List Char} {e : Element} (h : Tag.element content = .ok e) : tagged content = .ok e := by
  rw [tagged, h]

theorem step_empty {r : Reading} {content : List Char} {e : Element} (h : Tag.element content = .ok e) :
    r.step (.empty content) = r.add e.toNode := by
  rw [step, tagged_eq h]
  rfl

theorem step_opening {r : Reading} {content : List Char} {e : Element} (h : Tag.element content = .ok e) :
    r.step (.opening content) = .ok { r with opened := e :: r.opened } := by
  rw [step, tagged_eq h]
  rfl

theorem step_closing {r : Reading} {name : String} {as : Attributes} {cs : List Node} {es : List Element}
    (ho : r.opened = ⟨name, as, cs⟩ :: es) :
    r.step (.closing name.toList) = { r with opened := es }.add (.element name as cs.reverse) := by
  simp only [step, close, ho, String.ofList_toList, if_pos]

end Reading

/-! ## Restoring -/

/-- An element with its end tag, from after the tag that it is written with first. -/
def Element.ending (e : Element) : List Char :=
  if e.children.isEmpty then [] else (nodesXml e.children).toList ++ '<' :: '/' :: (e.name.toList ++ ['>'])

theorem toList_toXml_element (e : Element) : e.toNode.toXml.toList = e.piece.source ++ e.ending := by
  obtain ⟨name, as, cs⟩ := e
  cases cs with
  | nil => rw [Element.toNode, toList_toXml_leaf]; simp [Element.piece, Element.ending, Element.content, Markup.source]
  | cons n ns => rw [Element.toNode, toList_toXml_cons]; simp [Element.piece, Element.ending, Element.content, Markup.source]

theorem ending_cons (name : String) (as : Attributes) (n : Node) (ns : List Node) (rest : List Char) :
    (⟨name, as, n :: ns⟩ : Element).ending ++ rest
      = (nodesXml (n :: ns)).toList ++ '<' :: '/' :: (name.toList ++ ['>'] ++ rest) := by
  simp [Element.ending]

theorem isText_source (e : Element) : e.piece.source.head?.any Markup.isText = false := by
  rw [Element.piece]
  split <;> simp [Markup.source, Markup.isText]

theorem closingName_of_spaceless {name : List Char} (h : ∀ c ∈ name, isSpace c = false) :
    Markup.closingName name = name := by
  have hrev : name.reverse.dropWhile isSpace = name.reverse := Text.dropWhile_eq_self fun c hc =>
    h c (List.mem_reverse.1 (List.mem_of_mem_head? hc))
  rw [Markup.closingName, hrev, List.reverse_reverse, ite_self]

theorem next_of_closes {name : String} (h : Closes name) (hname : IsTagName name) (rest : List Char) :
    Markup.next '<' ('/' :: (name.toList ++ ['>'] ++ rest)) = .ok (.closing name.toList, rest) := by
  change Markup.nextClosing (name.toList ++ ['>'] ++ rest) = _
  rw [Markup.nextClosing, Markup.tag_append h]
  exact congrArg (fun cs => Except.ok (Markup.closing cs, rest)) (closingName_of_spaceless hname.spaceless)

namespace Reading

theorem run_piece {e : Element} (h : e.piece.Legible) {r r' : Reading} {rest : List Char}
    (hs : r.step e.piece = .ok r') : r.run (e.piece.source ++ rest) = r'.run rest :=
  run_of_legible h (fun hc => by rw [isText_source] at hc; cases hc) hs

theorem run_leaf {n : Node} {m : Markup} (h : m.leaf? = some n) (hm : m.Legible) {r r' : Reading} {rest : List Char}
    (hadd : r.add n = .ok r') (hrest : n.isRunning = true → ∀ c ∈ rest.head?, Markup.isText c = false) :
    r.run (n.toXml.toList ++ rest) = r'.run rest := by
  rw [Node.isRunning_eq, toXml_of_leaf? h] at hrest
  rw [toXml_of_leaf? h]
  exact run_of_legible hm hrest ((step_of_leaf? h).trans hadd)

mutual

/-- **What a restorable node is written as is read as the node.** -/
theorem run_node : ∀ {n : Node}, n.Legible → (∀ e ∈ n.elements, e.Restorable) → ∀ {r r' : Reading} {rest : List Char},
    r.add n = .ok r' → (n.isRunning = true → ∀ c ∈ rest.head?, Markup.isText c = false) →
    r.run (n.toXml.toList ++ rest) = r'.run rest
  | .element name as cs, hl, hr, r, r', rest, hadd, hrest => by
    obtain ⟨hname, hcloses, hchildren⟩ := hl
    rw [Node.elements, List.forall_mem_cons] at hr
    obtain ⟨⟨⟨htag, hpiece⟩, hparts⟩, hinner⟩ := hr
    change r.run ((⟨name, as, cs⟩ : Element).toNode.toXml.toList ++ rest) = _
    rw [toList_toXml_element, List.append_assoc]
    cases cs with
    | nil => exact run_piece hpiece ((step_empty htag).trans hadd)
    | cons n ns =>
      -- The start tag opens the element, its children join it, and the end tag adds it to what was open before.
      have hclose : { r with opened := ⟨name, as, (n :: ns).reverse ++ []⟩ :: r.opened }.step (.closing name.toList)
          = r.add (.element name as (n :: ns)) := by
        rw [step_closing rfl, List.append_nil, List.reverse_reverse]
      rw [run_piece hpiece (step_opening htag), ending_cons,
        run_nodes hchildren hinner hparts rfl (by simp [Markup.isText])]
      exact run_of_next (next_of_closes (hcloses (List.cons_ne_nil n ns)) hname rest) (hclose.trans hadd)
  | .text _, ⟨_, hm, hl⟩, _, _, _, _, hadd, hrest => run_leaf hm hl hadd hrest
  | .cdata _, ⟨_, hm, hl⟩, _, _, _, _, hadd, hrest => run_leaf hm hl hadd hrest
  | .comment _, ⟨_, hm, hl⟩, _, _, _, _, hadd, hrest => run_leaf hm hl hadd hrest
  | .instruction _, ⟨_, hm, hl⟩, _, _, _, _, hadd, hrest => run_leaf hm hl hadd hrest

theorem run_nodes : ∀ {ns : List Node}, nodesLegible ns → (∀ e ∈ nodesElements ns, e.Restorable) → Parts ns →
    ∀ {r : Reading} {e : Element} {es : List Element} {rest : List Char}, r.opened = e :: es →
    (∀ c ∈ rest.head?, Markup.isText c = false) → r.run ((nodesXml ns).toList ++ rest)
      = { r with opened := ⟨e.name, e.attributes, ns.reverse ++ e.children⟩ :: es }.run rest
  | [], _, _, _, r, e, es, rest, ho, _ => by
    obtain ⟨_, _, _, _⟩ := r
    cases ho
    rfl
  | n :: ns, hl, hr, hparts, r, e, es, rest, ho, hrest => by
    rw [nodesElements, List.forall_mem_append] at hr
    obtain ⟨hjoint, hparts⟩ := List.isChain_cons.1 hparts
    rw [nodesXml, String.toList_append, List.append_assoc, run_node hl.1 hr.1 (add_of_opened ho n),
      run_nodes hl.2 hr.2 hparts rfl hrest]
    · simp
    · intro hn
      cases ns with
      | nil => simpa [nodesXml] using hrest
      | cons m ns => exact (head_nodesXml hl.2.1 ns rest).2 (hjoint m rfl hn)

end

end Reading

end Xml
end Bookbinder
