import Bookbinder.Proofs.XmlRestoring
/-!
# Documents that are read again

A document that was read is written, and read again as the same document, just if its elements are restorable and its
document type is not blank (`read_toXml_iff`).  In the one direction, what is written is read node by node.  In the other,
what has been read is always a part of the document that is read in the end, so each piece that is read must be the one
that comes next there (`restorable_node`).
-/
namespace Bookbinder
namespace Xml

/-! ## Reading back -/

/-- With the elements open, the node is the next one of the root's tree. -/
def Awaits (root : Element) : List Element → Node → Prop
  | [], n => root.toNode = n
  | e :: es, n => ∃ after, Awaits root es (.element e.name e.attributes (e.children.reverse ++ n :: after))

theorem Awaits.unique {root : Element} {es : List Element} {n m : Node} (h : Awaits root es n)
    (h' : Awaits root es m) : n = m := by
  induction es generalizing n m with
  | nil => exact h.symm.trans h'
  | cons e es ih =>
    obtain ⟨_, h⟩ := h
    obtain ⟨_, h'⟩ := h'
    have hchildren := ih h h'
    simp only [Node.element.injEq, true_and] at hchildren
    exact (List.cons.inj (List.append_cancel_left hchildren)).1

namespace Reading

/-- The reading is a part of the root's tree: all that is open is the beginning of an element of the tree, and a root
that is complete is the tree. -/
def Within (r : Reading) (root : Element) : Prop :=
  match r.opened with
  | [] => ∀ e ∈ r.root, root = e
  | e :: es => r.root = none ∧ ∃ after, Awaits root es (.element e.name e.attributes (e.children.reverse ++ after))

theorem awaits_of_child {r : Reading} {e : Element} {es : List Element} {n : Node} {root : Element}
    (h : { r with opened := ⟨e.name, e.attributes, n :: e.children⟩ :: es }.Within root) :
    Awaits root (e :: es) n := by
  obtain ⟨-, after, hw⟩ := h
  refine ⟨after, ?_⟩
  rw [List.reverse_cons, List.append_assoc] at hw
  exact hw

theorem awaits_of_added {r r' : Reading} {n : Node} {root : Element} (h : r.Added n r') (hw : r'.Within root)
    (hn : n.elements ≠ []) : Awaits root r.opened n := by
  cases h with
  | child e es opened =>
    rw [opened]
    exact awaits_of_child hw
  | root e element opened unrooted =>
    rw [Within, opened] at hw
    rw [opened, hw e rfl]
    exact element.symm
  | outside leaf => exact absurd leaf hn

theorem within_of_added {r r' : Reading} {n : Node} {root : Element} (h : r.Added n r') (hw : r'.Within root) :
    r.Within root := by
  cases h with
  | child e es opened =>
    obtain ⟨after, hawaits⟩ := awaits_of_child hw
    rw [Within, opened]
    exact ⟨hw.1, n :: after, hawaits⟩
  | root e element opened unrooted =>
    rw [Within, opened, unrooted]
    exact fun e he => absurd he (Option.not_mem_none e)
  | outside leaf => exact hw

theorem within_of_step {r r' : Reading} {m : Markup} {root : Element} (h : r.step m = .ok r') (hw : r'.Within root) :
    r.Within root := by
  cases stepped_of_step h with
  | leaf n leaf added => exact within_of_added added hw
  | opening content e tagged eq =>
    subst eq
    obtain ⟨hroot, after, hw⟩ := hw
    rw [Within]
    cases ho : r.opened with
    | nil =>
      rw [show r.root = none from hroot]
      exact fun e he => absurd he (Option.not_mem_none e)
    | cons e' es =>
      rw [ho] at hw
      obtain ⟨after', hw⟩ := hw
      exact ⟨hroot, _, hw⟩
  | empty content e tagged added => exact within_of_added added hw
  | closing name e es opened added =>
    -- What is closed takes its place in the tree with the children that it has.
    have hawaits : Awaits root es _ := awaits_of_added added hw (List.cons_ne_nil _ _)
    rw [Within, opened]
    refine ⟨?_, [], by rwa [List.append_nil]⟩
    cases added with
    | child e' es' opened' => exact hw.1
    | root e' element opened' unrooted => exact unrooted
    | outside leaf => cases leaf
  | passed tag opened root =>
    rw [Within, opened, root] at hw
    exact hw

/-- **What has been read of a document is a part of it.** -/
theorem within_of_run {r : Reading} {cs : List Char} {d : Document} (h : r.run cs = .ok d) : r.Within d.root := by
  fun_induction Reading.run r cs with
  | case1 r =>
    rw [finish] at h
    split at h
    · cases h
    · cases h
    · rename_i root ho hroot
      cases h
      rw [Within, ho, hroot]
      exact fun e he => Option.some.inj he
  | case2 => cases h
  | case3 => cases h
  | case4 r c cs m rest hn _ r' hs ih => exact within_of_step hs (ih h)

/-- Where an element comes next, a tag that is read is the element's. -/
theorem tag?_of_awaits {r r' : Reading} {m : Markup} {e root : Element} (hm : m.isTag = true) (h : r.step m = .ok r')
    (hw : r'.Within root) (ha : Awaits root r.opened e.toNode) : m.tag? = some e.tag := by
  cases m with
  | opening content =>
    obtain ⟨e', ht, rfl⟩ := exists_of_step_opening h
    obtain ⟨htag, hchildren⟩ := tag?_of_tagged ht
    obtain ⟨-, after, hw⟩ := hw
    have hsame := ha.unique hw
    simp only [Element.toNode, Node.element.injEq] at hsame
    rw [Markup.tag?, htag, Element.tag, hsame.1, hsame.2.1, ← hchildren]
  | empty content =>
    obtain ⟨e', ht, hadd⟩ := exists_of_step_empty h
    obtain ⟨htag, hchildren⟩ := tag?_of_tagged ht
    have hsame := ha.unique (awaits_of_added (added_of_add hadd) hw (List.cons_ne_nil _ _))
    simp only [Element.toNode, Node.element.injEq] at hsame
    rw [Markup.tag?, htag, Element.tag, hsame.1, hsame.2.1, ← hchildren]
  | closing name =>
    -- An element that is closed has all its children, so none comes next.
    obtain ⟨e', es, ho, -, hadd⟩ := exists_of_step_closing h
    rw [ho] at ha
    obtain ⟨after, ha⟩ := ha
    have hsame := ha.unique (awaits_of_added (added_of_add hadd) hw (List.cons_ne_nil _ _))
    simp at hsame
  | _ => cases hm

end Reading

theorem isTag_of_nextTag {cs rest : List Char} {m : Markup} (h : Markup.nextTag cs = .ok (m, rest)) :
    m.isTag = true := by
  unfold Markup.nextTag at h
  split at h
  · simp only [Except.ok.injEq, Prod.mk.injEq] at h
    rw [← h.1]
    split <;> rfl
  · cases h

theorem head_source {e : Element} (hname : IsTagName e.name) {cs more : List Char}
    (h : '<' :: cs = e.piece.source ++ more) : ∃ c cs', cs = c :: cs' ∧ c ≠ '!' ∧ c ≠ '?' := by
  obtain ⟨name, as, children⟩ := e
  obtain ⟨d, sign, hd, hsign⟩ : ∃ d sign, (d ≠ '!' ∧ d ≠ '?') ∧
      cs = name.toList ++ ((attributesXml as).toList ++ d :: (sign ++ more)) := by
    rw [Element.piece] at h
    split at h
    · exact ⟨'/', ['>'], by decide, by simpa [Markup.source, Element.content] using (List.cons.inj h).2⟩
    · exact ⟨'>', [], by decide, by simpa [Markup.source, Element.content] using (List.cons.inj h).2⟩
  rw [hsign]
  cases hn : name.toList with
  | cons c k =>
    have hc := hname.head c (by rw [hn]; rfl)
    exact ⟨c, _, rfl, hc.1, hc.2.1⟩
  | nil =>
    cases as with
    | nil => exact ⟨d, _, rfl, hd⟩
    | cons a as =>
      rw [toList_attributesXml_cons]
      exact ⟨' ', _, rfl, by decide⟩

/-- What an element is written as begins with a tag. -/
theorem isTag_of_next_source {e : Element} (hname : IsTagName e.name) {cs more rest : List Char} {m : Markup}
    (hsource : '<' :: cs = e.piece.source ++ more) (h : Markup.next '<' cs = .ok (m, rest)) : m.isTag = true := by
  obtain ⟨c, cs', rfl, hbang, hquestion⟩ := head_source hname hsource
  by_cases hslash : c = '/'
  · subst hslash
    change Markup.nextClosing cs' = _ at h
    unfold Markup.nextClosing at h
    split at h <;> cases h
    rfl
  · exact isTag_of_nextTag (Markup.next_eq_nextTag hbang hquestion hslash cs' ▸ h)

namespace Reading

/-- **An element that comes next is read from the tag that it is written with.** -/
theorem rereads_of_run {r : Reading} {e : Element} {rest : List Char} {d : Document} (hname : IsTagName e.name)
    (h : r.run (e.piece.source ++ rest) = .ok d) (ha : Awaits d.root r.opened e.toNode) : e.Rereads := by
  obtain ⟨cs, hcs⟩ : ∃ cs, '<' :: cs = e.piece.source ++ rest := by
    rw [Element.piece]
    split <;> exact ⟨_, rfl⟩
  rw [← hcs] at h
  obtain ⟨m, rest', r', hn, hs, hrun⟩ := exists_of_run h
  have htag := tag?_of_awaits (isTag_of_next_source hname hcs hn) hs (within_of_run hrun) ha
  exact (Element.rereads_of_next hn hcs htag).1

/-- Running text that comes next is read up to where it was written to end. -/
theorem isText_rest_of_run {r : Reading} {raw : String} {rest : List Char} {d : Document} (hl : (Node.text raw).Legible)
    (h : r.run (raw.toList ++ rest) = .ok d) (ha : Awaits d.root r.opened (.text raw))
    (hraw : (Node.text raw).isRunning = true) : ∀ c ∈ rest.head?, Markup.isText c = false := by
  rw [Node.isRunning] at hraw
  obtain ⟨c, cs, hcs⟩ := List.exists_cons_of_ne_nil hl.toXml_ne_nil
  rw [Node.toXml] at hcs
  rw [hcs] at h hraw
  have hc : Markup.isText c = true := by simpa using hraw
  have hnext (cs : List Char) : Markup.next c cs
      = .ok (.text (c :: cs.takeWhile Markup.isText), cs.dropWhile Markup.isText) := by
    rw [Markup.isText, Bool.and_eq_true, bne_iff_ne, bne_iff_ne] at hc
    rw [Markup.next, if_neg hc.1, if_neg hc.2]
  have htext : ∀ d ∈ cs, Markup.isText d = true := by
    obtain ⟨m, hm, c', cs', hsource, hm'⟩ := hl
    rw [← toXml_of_leaf? hm, Node.toXml, hcs] at hsource
    obtain ⟨rfl, rfl⟩ := List.cons.inj hsource
    have hwhole := hm' [] fun _ d hd => absurd hd (Option.not_mem_none d)
    rw [List.append_nil, hnext] at hwhole
    exact List.dropWhile_eq_nil_iff.1 (Prod.mk.inj (Except.ok.inj hwhole)).2
  obtain ⟨m, rest', r', hn, hs, hrun⟩ := exists_of_run h
  rw [hnext] at hn
  cases hn
  cases ho : r.opened with
  | nil =>
    rw [ho] at ha
    cases ha
  | cons e es =>
    have hadd := (add_of_opened ho _).symm.trans hs
    cases hadd
    rw [ho] at ha
    have hsame := ha.unique (awaits_of_child (within_of_run hrun))
    have hlist : c :: cs = c :: (cs ++ rest).takeWhile Markup.isText := by
      rw [← hcs, ← String.toList_ofList (l := c :: (cs ++ rest).takeWhile Markup.isText)]
      exact congrArg String.toList (Node.text.inj hsame)
    have hnone := (List.cons.inj hlist).2
    rw [List.takeWhile_append_of_pos htext, List.self_eq_append_right] at hnone
    intro d hd
    obtain ⟨ds, rfl⟩ := List.head?_eq_some_iff.1 (Option.mem_def.1 hd)
    rw [List.takeWhile_cons] at hnone
    split at hnone
    · cases hnone
    · rename_i hd'
      simpa using hd'

mutual

/-- **Where what is written is read as the document, a node that comes next is restored.** -/
theorem restorable_node : ∀ {n : Node}, n.Legible → ∀ {r : Reading} {rest : List Char} {d : Document},
    r.run (n.toXml.toList ++ rest) = .ok d → Awaits d.root r.opened n →
    (∀ e ∈ n.elements, e.Restorable) ∧ (n.isRunning = true → ∀ c ∈ rest.head?, Markup.isText c = false)
  | .element name as cs, ⟨hname, hcloses, hchildren⟩, r, rest, d, h, ha => by
    refine ⟨?_, fun hn => by cases hn⟩
    change r.run ((⟨name, as, cs⟩ : Element).toNode.toXml.toList ++ rest) = _ at h
    rw [toList_toXml_element, List.append_assoc] at h
    have hrereads := rereads_of_run (e := ⟨name, as, cs⟩) hname h ha
    rw [Node.elements, List.forall_mem_cons]
    cases cs with
    | nil => exact ⟨⟨hrereads, List.IsChain.nil⟩, fun e he => absurd he List.not_mem_nil⟩
    | cons n ns =>
      rw [run_piece hrereads.piece (step_opening hrereads.tag), ending_cons] at h
      obtain ⟨hns, hparts⟩ := restorable_nodes hchildren rfl h ha
      exact ⟨⟨hrereads, hparts⟩, hns⟩
  | .text raw, hl, r, rest, d, h, ha => by
    rw [Node.toXml] at h
    exact ⟨fun e he => absurd he List.not_mem_nil, isText_rest_of_run hl h ha⟩
  | .cdata _, _, _, _, _, _, _ => ⟨fun e he => absurd he List.not_mem_nil, fun hn => by cases hn⟩
  | .comment _, _, _, _, _, _, _ => ⟨fun e he => absurd he List.not_mem_nil, fun hn => by cases hn⟩
  | .instruction _, _, _, _, _, _, _ => ⟨fun e he => absurd he List.not_mem_nil, fun hn => by cases hn⟩

theorem restorable_nodes : ∀ {ns : List Node}, nodesLegible ns → ∀ {r : Reading} {e : Element} {es : List Element}
    {rest : List Char} {d : Document}, r.opened = e :: es → r.run ((nodesXml ns).toList ++ rest) = .ok d →
    Awaits d.root es (.element e.name e.attributes (e.children.reverse ++ ns)) →
    (∀ x ∈ nodesElements ns, x.Restorable) ∧ Parts ns
  | [], _, _, _, _, _, _, _, _, _ => ⟨fun e he => absurd he List.not_mem_nil, List.IsChain.nil⟩
  | n :: ns, hl, r, e, es, rest, d, ho, h, ha => by
    rw [nodesXml, String.toList_append, List.append_assoc] at h
    obtain ⟨hn, hrun⟩ := restorable_node hl.1 h (ho ▸ ⟨ns, ha⟩)
    rw [run_node hl.1 hn (add_of_opened ho n) hrun] at h
    have ha' : Awaits d.root es (.element e.name e.attributes ((n :: e.children).reverse ++ ns)) := by
      rwa [List.reverse_cons, List.append_assoc]
    obtain ⟨hns, hparts⟩ := restorable_nodes hl.2 rfl h ha'
    rw [nodesElements, List.forall_mem_append]
    refine ⟨⟨hn, hns⟩, List.isChain_cons.2 ⟨fun m hm hrunning => ?_, hparts⟩⟩
    cases ns with
    | nil => cases hm
    | cons m' ns =>
      cases hm
      exact (head_nodesXml hl.2.1 ns rest).1 (hrun hrunning)

end

end Reading

/-! ## Documents -/

/-- A document that is the same when it is written and read again. -/
structure Document.Restorable (d : Document) : Prop where
  doctype : d.doctype ≠ some ""
  elements : ∀ e ∈ d.root.elements, e.Restorable

/-- The body of a document type that was read: nothing can be trimmed from it, and it is read again. -/
structure IsDoctype (body : String) : Prop where
  trimmed : Text.trimChars body.toList = body.toList
  reads : body ≠ "" → ∀ rest, Markup.nextDoctype ("DOCTYPE ".toList ++ (body.toList ++ '>' :: rest))
    = .ok (.doctype body.toList, rest)

theorem isDoctype_of_nextDoctype {cs rest content : List Char}
    (h : Markup.nextDoctype cs = .ok (.doctype content, rest)) : IsDoctype (String.ofList (Text.trimChars content)) := by
  have hbody : (String.ofList (Text.trimChars content)).toList = Text.trimChars content := String.toList_ofList
  refine ⟨?_, fun hne rest => ?_⟩
  · rw [hbody]
    exact Text.trimChars_trimChars content
  · rw [hbody]
    exact next_doctype h (fun hnil => hne (by rw [hnil])) rest

theorem isDoctype_of_next {c : Char} {cs rest content : List Char}
    (h : Markup.next c cs = .ok (.doctype content, rest)) : IsDoctype (String.ofList (Text.trimChars content)) := by
  unfold Markup.next at h
  split at h
  · unfold Markup.nextAngle at h
    split at h
    · unfold Markup.nextBang at h
      split at h
      · split at h <;> cases h
      · split at h <;> cases h
      · exact isDoctype_of_nextDoctype h
      · exact isDoctype_of_nextDoctype h
      · cases h
    · unfold Markup.nextInstruction at h
      split at h
      · cases h
      · split at h
        · simp only [Except.ok.injEq, Prod.mk.injEq] at h
          have hpiece := h.1
          split at hpiece <;> cases hpiece
        · cases h
    · unfold Markup.nextClosing at h
      split at h <;> cases h
    · exact absurd (isTag_of_nextTag h) Bool.false_ne_true
  · split at h
    · simp only [Markup.nextReference] at h
      split at h <;> cases h
    · cases h

namespace Reading

theorem doctype_of_added {r r' : Reading} {n : Node} (h : r.Added n r') : r'.doctype = r.doctype := by
  cases h <;> rfl

theorem isDoctype_of_step {r r' : Reading} {c : Char} {cs rest : List Char} {m : Markup}
    (hr : ∀ body ∈ r.doctype, IsDoctype body) (hn : Markup.next c cs = .ok (m, rest)) (h : r.step m = .ok r') :
    ∀ body ∈ r'.doctype, IsDoctype body := by
  have hkept {r₀ : Reading} {n : Node} (h : r₀.add n = .ok r') (ho : r₀.doctype = r.doctype) :
      ∀ body ∈ r'.doctype, IsDoctype body := by
    rw [doctype_of_added (added_of_add h), ho]
    exact hr
  cases m with
  | doctype content =>
    cases h
    intro body hbody
    cases hbody
    exact isDoctype_of_next hn
  | declaration =>
    cases h
    exact hr
  | opening content =>
    obtain ⟨e, -, rfl⟩ := exists_of_step_opening h
    exact hr
  | empty content =>
    obtain ⟨e, -, hadd⟩ := exists_of_step_empty h
    exact hkept hadd rfl
  | closing name =>
    obtain ⟨e, es, -, -, hadd⟩ := exists_of_step_closing h
    exact hkept hadd rfl
  | _ => exact hkept h rfl

theorem isDoctype_of_run {r : Reading} {cs : List Char} {d : Document} (hr : ∀ body ∈ r.doctype, IsDoctype body)
    (h : r.run cs = .ok d) : ∀ body ∈ d.doctype, IsDoctype body := by
  fun_induction Reading.run r cs with
  | case1 r =>
    rw [finish] at h
    split at h
    · cases h
    · cases h
    · cases h
      exact hr
  | case2 => cases h
  | case3 => cases h
  | case4 r c cs m rest hn _ r' hs ih => exact ih (isDoctype_of_step hr hn hs) h

/-- A line break before markup is let go outside the root. -/
theorem run_line {r : Reading} (ho : r.opened = []) {rest : List Char}
    (hrest : ∀ c ∈ rest.head?, Markup.isText c = false) : r.run ('\n' :: rest) = r.run rest := by
  have hnext : Markup.next '\n' rest = .ok (.text ['\n'], rest) := by
    rw [Markup.next, if_neg (by decide), if_neg (by decide), Text.takeWhile_eq_nil hrest, Text.dropWhile_eq_self hrest]
  refine run_of_next hnext ?_
  obtain ⟨_, _, _, _⟩ := r
  cases ho
  rfl

/-- A declaration on its own line. -/
theorem run_declaration {r : Reading} (ho : r.opened = []) {line : String} {content : List Char}
    (hline : line.toList = '<' :: '?' :: (content ++ ['?', '>']) ++ ['\n'])
    (hcut : Text.cut? ['?', '>'] (content ++ ['?', '>']) = some (content, [])) (hhead : content.head? ≠ some '>')
    (hdeclaration : Markup.isDeclaration content = true) {rest : List Char}
    (hrest : ∀ c ∈ rest.head?, Markup.isText c = false) :
    r.run (line.toList ++ rest) = { r with declared := true }.run rest := by
  have hnext : Markup.next '<' ('?' :: (content ++ ['?', '>']) ++ '\n' :: rest) = .ok (.declaration, '\n' :: rest) := by
    rw [next_instruction hcut hhead, if_pos hdeclaration]
  rw [hline, List.append_assoc, List.singleton_append, List.cons_append, run_of_next hnext rfl]
  exact run_line (r := { r with declared := true }) ho hrest

theorem run_doctype {r : Reading} (ho : r.opened = []) {body : String} (hbody : IsDoctype body) (hne : body ≠ "")
    {rest : List Char} (hrest : ∀ c ∈ rest.head?, Markup.isText c = false) :
    r.run (("<!DOCTYPE " ++ body ++ ">\n").toList ++ rest) = { r with doctype := some body }.run rest := by
  have htext : ("<!DOCTYPE " ++ body ++ ">\n").toList ++ rest
      = '<' :: '!' :: ("DOCTYPE ".toList ++ (body.toList ++ '>' :: '\n' :: rest)) := by simp
  have hnext : Markup.next '<' ('!' :: ("DOCTYPE ".toList ++ (body.toList ++ '>' :: '\n' :: rest)))
      = .ok (.doctype body.toList, '\n' :: rest) := hbody.reads hne _
  have hs : r.step (.doctype body.toList) = .ok { r with doctype := some body } := by
    rw [step, hbody.trimmed, String.ofList_toList]
  rw [htext, run_of_next hnext hs]
  exact run_line (r := { r with doctype := some body }) ho hrest

/-- A document type of which nothing is left is not read. -/
theorem run_blank_doctype (r : Reading) (rest : List Char) :
    r.run (("<!DOCTYPE " ++ "" ++ ">\n").toList ++ rest) = .error (.markup .doctypeWithoutName) := by
  have htext : ("<!DOCTYPE " ++ "" ++ ">\n").toList ++ rest
      = '<' :: '!' :: 'D' :: 'O' :: 'C' :: 'T' :: 'Y' :: 'P' :: 'E' :: ' ' :: '>' :: '\n' :: rest := by simp
  have hnext : Markup.next '<' ('!' :: 'D' :: 'O' :: 'C' :: 'T' :: 'Y' :: 'P' :: 'E' :: ' ' :: '>' :: '\n' :: rest)
      = .error .doctypeWithoutName := by
    have hend : Doctype.afterDoctype none (' ' :: '>' :: '\n' :: rest) = some ('\n' :: rest) := rfl
    have hlength : (' ' :: '>' :: '\n' :: rest).length - ('\n' :: rest).length - 1 = 1 := by simp
    have hkeyword : Markup.afterKeyword? ('D' :: 'O' :: 'C' :: 'T' :: 'Y' :: 'P' :: 'E' :: ' ' :: '>' :: '\n' :: rest)
        = some (' ' :: '>' :: '\n' :: rest) := rfl
    change Markup.nextDoctype ('D' :: 'O' :: 'C' :: 'T' :: 'Y' :: 'P' :: 'E' :: ' ' :: '>' :: '\n' :: rest) = _
    rw [Markup.nextDoctype, hkeyword]
    dsimp only
    rw [hend]
    dsimp only
    rw [hlength]
    rfl
  rw [htext, run]
  split
  · rename_i e he
    rw [hnext] at he
    cases he
    rfl
  · rename_i he
    rw [hnext] at he
    cases he

end Reading

theorem exists_toXml (e : Element) : ∃ cs, e.toXml.toList = '<' :: cs := by
  rw [Element.toXml, toList_toXml_element, Element.piece]
  split <;> exact ⟨_, rfl⟩

theorem dropMark_eq {cs : List Char} (h : ∀ c ∈ cs.head?, c = '<') : dropMark cs = cs := by
  cases cs with
  | nil => rfl
  | cons c cs =>
    rw [h c rfl]
    rfl

/-- A document type as it is written, on its own line. -/
def doctypeXml : Option String → String
  | some body => "<!DOCTYPE " ++ body ++ ">\n"
  | none => ""

theorem run_doctypeXml {r : Reading} (ho : r.opened = []) (hr : r.doctype = none) {doctype : Option String}
    (hbody : ∀ body ∈ doctype, IsDoctype body) (hne : doctype ≠ some "") {rest : List Char}
    (hrest : ∀ c ∈ rest.head?, Markup.isText c = false) :
    r.run ((doctypeXml doctype).toList ++ rest) = { r with doctype := doctype }.run rest := by
  cases doctype with
  | none =>
    obtain ⟨_, _, _, _⟩ := r
    cases hr
    rfl
  | some body => exact Reading.run_doctype ho (hbody body rfl) (fun h => hne (congrArg some h)) hrest

theorem toList_toXml (d : Document) : ∃ cs, (doctypeXml d.doctype).toList ++ d.root.toXml.toList = '<' :: cs ∧
    d.toXml.toList = (if d.declared then "<?xml version=\"1.0\" encoding=\"UTF-8\"?>\n" else "").toList ++ '<' :: cs := by
  have hdoctype : ∃ cs, (doctypeXml d.doctype).toList ++ d.root.toXml.toList = '<' :: cs := by
    cases hd : d.doctype with
    | none =>
      obtain ⟨cs, hcs⟩ := exists_toXml d.root
      exact ⟨cs, by simp [doctypeXml, hcs]⟩
    | some body => exact ⟨_, by rw [doctypeXml, String.toList_append, String.toList_append]; rfl⟩
  obtain ⟨cs, hcs⟩ := hdoctype
  refine ⟨cs, hcs, ?_⟩
  rw [← hcs, ← List.append_assoc]
  unfold Document.toXml
  rw [String.toList_append, String.toList_append]
  rfl

theorem read_eq_run (d : Document) : Document.read d.toXml
    = { declared := d.declared : Reading }.run ((doctypeXml d.doctype).toList ++ d.root.toXml.toList) := by
  obtain ⟨cs, hcs, htext⟩ := toList_toXml d
  have hmark : dropMark d.toXml.toList = d.toXml.toList := by
    refine dropMark_eq fun c hc => ?_
    rw [htext] at hc
    split at hc <;> simpa using hc.symm
  rw [Document.read, hmark, htext, hcs]
  cases d.declared with
  | false => rfl
  | true =>
    rw [if_pos rfl]
    have hline : "<?xml version=\"1.0\" encoding=\"UTF-8\"?>\n".toList
        = '<' :: '?' :: ("xml version=\"1.0\" encoding=\"UTF-8\"".toList ++ ['?', '>']) ++ ['\n'] := by decide +kernel
    exact Reading.run_declaration rfl hline (by decide +kernel) (by decide +kernel) (by decide +kernel)
      (by simp [Markup.isText])

/-- **A document that was read is the same when it is written and read again just if it is restorable.** -/
theorem read_toXml_iff_restorable {s : String} {d : Document} (h : Document.read s = .ok d) :
    Document.read d.toXml = .ok d ↔ d.Restorable := by
  have hlegible : d.root.toNode.Legible := spreads_legible.read h
  have hdoctype : ∀ body ∈ d.doctype, IsDoctype body :=
    Reading.isDoctype_of_run (r := {}) (fun body hbody => absurd hbody (Option.not_mem_none body)) h
  have hroot : ∀ c ∈ d.root.toXml.toList.head?, Markup.isText c = false := by
    obtain ⟨cs, hcs⟩ := exists_toXml d.root
    rw [hcs]
    simp [Markup.isText]
  rw [read_eq_run]
  by_cases hne : d.doctype = some ""
  · -- A blank document type is not read again.
    rw [hne]
    refine ⟨fun hread => ?_, fun hr => absurd hne hr.doctype⟩
    have hblank := Reading.run_blank_doctype { declared := d.declared } d.root.toXml.toList
    cases hblank.symm.trans hread
  · have hrun : { declared := d.declared : Reading }.run ((doctypeXml d.doctype).toList ++ d.root.toXml.toList)
        = { declared := d.declared, doctype := d.doctype : Reading }.run (d.root.toNode.toXml.toList ++ []) := by
      rw [run_doctypeXml rfl rfl hdoctype hne hroot, List.append_nil]
      rfl
    rw [hrun]
    refine ⟨fun hread => ⟨hne, (Reading.restorable_node hlegible hread rfl).1⟩, fun hr => ?_⟩
    have hadd : { declared := d.declared, doctype := d.doctype : Reading }.add d.root.toNode
        = .ok { declared := d.declared, doctype := d.doctype, root := some d.root } := rfl
    rw [Reading.run_node hlegible hr.elements hadd fun hn => absurd hn Bool.false_ne_true, Reading.run]
    rfl

/-- **A document that was read is the same when it is written and read again just if it is restorable**: its document
type is not blank, no two running texts stand side by side, and its tags are read again as they are written.  The tag of
an element whose names are plain is read again just if no value holds a double quote. -/
theorem read_toXml_iff {s : String} {d : Document} (h : Document.read s = .ok d) :
    (Document.read d.toXml = .ok d ↔ d.Restorable) ∧
      ∀ e ∈ d.root.elements, isName e.name = true → (∀ a ∈ e.attributes, isName a.1 = true) →
        (e.Rereads ↔ ∀ a ∈ e.attributes, '"' ∉ a.2.toList) :=
  ⟨read_toXml_iff_restorable h, fun _ he hname hkeys =>
    Element.rereads_iff hname hkeys (nodup_of_sound (sound_of_read h) _ he)⟩

/-- A document with a reference between texts and a value that was written between single quotes. -/
def mixed : Document :=
  ⟨false, none, ⟨"a", [("b", "c")], [.text "x", .text "&d;", .text "y", .element "e" [] []]⟩⟩

theorem restorable_mixed : mixed.Restorable := by
  refine ⟨by decide, List.forall_mem_cons.2 ⟨⟨Element.rereads_of_isPlain (by decide) (by decide), ?_⟩,
    List.forall_mem_cons.2 ⟨⟨Element.rereads_of_isPlain (by decide) (by decide), ?_⟩, fun _ he => by cases he⟩⟩⟩
  · unfold Parts
    decide
  · unfold Parts
    decide

theorem read_toXml_mixed :
    Document.read "<a b='c' >x&d;y<e></e></a>" = .ok mixed ∧ Document.read mixed.toXml = .ok mixed := by
  have hread : Document.read "<a b='c' >x&d;y<e></e></a>" = .ok mixed := by with_unfolding_all rfl
  exact ⟨hread, (read_toXml_iff hread).1.2 restorable_mixed⟩

/-- A document whose only value is a double quote. -/
def quoted : Document :=
  ⟨false, none, ⟨"a", [("b", "\"")], []⟩⟩

/-- **A double quote between single quotes is written as it is, and then ends the value.** -/
theorem read_toXml_quoted : Document.read "<a b='\"'/>" = .ok quoted ∧ quoted.toXml = "<a b=\"\"\"/>" ∧
    Document.read quoted.toXml = .error (.markup (.valueNotClosed '"')) := by
  refine ⟨?_, ?_, ?_⟩ <;> with_unfolding_all rfl

end Xml
end Bookbinder
