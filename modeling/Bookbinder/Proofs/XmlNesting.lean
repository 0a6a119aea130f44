import Bookbinder.Proofs.XmlRestoring
/-!
# Texts whose tags match

Whether a text is read to a document does not depend on what the open elements hold, only on their names
(`Reading.Alike.run`).  `Moves cs before after` says that a part of a text closes the elements named `before` and opens
those named `after`, whatever is open around them and whatever follows; a part that leaves nothing open is `Balanced`,
as all that is written from nodes is (`balanced_node`).
-/
namespace Bookbinder
namespace Xml

namespace Reading

/-! ## Readings with the same names open -/

/-- Readings in which elements of the same names are open, and that have both a root or both none. -/
structure Alike (r s : Reading) : Prop where
  names : s.opened.map (·.name) = r.opened.map (·.name)
  rooted : s.root.isSome = r.root.isSome

variable {r r' s : Reading}

theorem Alike.symm (h : r.Alike s) : s.Alike r := ⟨h.names.symm, h.rooted.symm⟩

theorem Alike.trans {t : Reading} (h : r.Alike s) (h' : s.Alike t) : r.Alike t :=
  ⟨h'.names.trans h.names, h'.rooted.trans h.rooted⟩

/-- A node within an element leaves open what was open. -/
theorem alike_of_child {e : Element} {es : List Element} (ho : r.opened = e :: es) (n : Node) :
    r.Alike { r with opened := ⟨e.name, e.attributes, n :: e.children⟩ :: es } :=
  ⟨by rw [ho]; rfl, rfl⟩

/-- Elements of one name are added alike, whatever they hold. -/
theorem Alike.add_element (h : r.Alike s) {name : String} {as as' : Attributes} {cs cs' : List Node}
    (hadd : r.add (.element name as cs) = .ok r') :
    ∃ s', s.add (.element name as' cs') = .ok s' ∧ r'.Alike s' := by
  obtain ⟨declared, doctype, opened, root⟩ := r
  obtain ⟨declared', doctype', opened', root'⟩ := s
  obtain ⟨hnames, hrooted⟩ := h
  dsimp only at hnames hrooted
  cases opened with
  | cons e es =>
    cases opened' with
    | nil => cases hnames
    | cons f fs =>
      cases hadd
      exact ⟨_, rfl, hnames, hrooted⟩
  | nil =>
    cases List.map_eq_nil_iff.1 hnames
    simp only [Reading.add, attach, hrooted] at hadd ⊢
    by_cases hroot : root.isSome = true
    · simp [hroot] at hadd
    · simp only [hroot] at hadd ⊢
      cases hadd
      exact ⟨_, rfl, rfl, rfl⟩

/-- Outside the root, a node that is no element is let go by every reading or by none. -/
theorem add_of_opened_nil {n : Node} (hn : ∀ name as cs, n ≠ .element name as cs) (ho : r.opened = [])
    (hadd : r.add n = .ok r') : r' = r ∧ ∀ s : Reading, s.opened = [] → s.add n = .ok s := by
  cases n with
  | element name as cs => exact absurd rfl (hn name as cs)
  | text raw =>
    simp only [Reading.add, attach, ho] at hadd ⊢
    by_cases hblank : Text.allBlank raw = true
    · simp only [hblank] at hadd ⊢
      cases hadd
      exact ⟨rfl, fun s hs => by simp [hs]⟩
    · simp [hblank] at hadd
  | cdata content => simp [Reading.add, attach, ho] at hadd
  | comment content =>
    simp only [Reading.add, attach, ho] at hadd ⊢
    cases hadd
    exact ⟨rfl, fun s hs => by simp [hs]⟩
  | instruction content =>
    simp only [Reading.add, attach, ho] at hadd ⊢
    cases hadd
    exact ⟨rfl, fun s hs => by simp [hs]⟩

theorem Alike.add (h : r.Alike s) {n : Node} (hadd : r.add n = .ok r') : ∃ s', s.add n = .ok s' ∧ r'.Alike s' := by
  by_cases hn : ∃ name as cs, n = .element name as cs
  · obtain ⟨name, as, cs, rfl⟩ := hn
    exact h.add_element hadd
  · have hnames := h.names
    cases ho : r.opened with
    | nil =>
      rw [ho] at hnames
      obtain ⟨rfl, hs⟩ := add_of_opened_nil (fun name as cs he => hn ⟨name, as, cs, he⟩) ho hadd
      exact ⟨s, hs s (List.map_eq_nil_iff.1 hnames), h⟩
    | cons e es =>
      cases hf : s.opened with
      | nil =>
        rw [ho, hf] at hnames
        cases hnames
      | cons f fs =>
        rw [add_of_opened ho] at hadd
        cases hadd
        exact ⟨_, add_of_opened hf n, ((alike_of_child ho n).symm.trans h).trans (alike_of_child hf n)⟩

theorem Alike.step (h : r.Alike s) {m : Markup} (hs : r.step m = .ok r') : ∃ s', s.step m = .ok s' ∧ r'.Alike s' := by
  cases m with
  | declaration =>
    cases hs
    exact ⟨_, rfl, h.names, h.rooted⟩
  | doctype content =>
    cases hs
    exact ⟨_, rfl, h.names, h.rooted⟩
  | opening content =>
    obtain ⟨e, he, rfl⟩ := exists_of_step_opening hs
    refine ⟨{ s with opened := e :: s.opened }, ?_, congrArg (e.name :: ·) h.names, h.rooted⟩
    rw [Reading.step, he]
    rfl
  | empty content =>
    obtain ⟨e, he, hadd⟩ := exists_of_step_empty hs
    rw [Reading.step, he]
    exact h.add hadd
  | closing name =>
    -- The element that is closed may hold something else in the other reading.
    obtain ⟨e, es, ho, hname, hadd⟩ := exists_of_step_closing hs
    have hnames := h.names
    cases hf : s.opened with
    | nil =>
      rw [ho, hf] at hnames
      cases hnames
    | cons f fs =>
      rw [ho, hf, List.map_cons, List.map_cons, List.cons.injEq] at hnames
      rw [← hnames.1] at hadd
      rw [Reading.step, close, hf]
      dsimp only
      rw [if_pos (hnames.1.trans hname)]
      exact Alike.add_element (r := { r with opened := es }) (s := { s with opened := fs }) ⟨hnames.2, h.rooted⟩ hadd
  | _ => exact h.add hs

/-- **Whether a text is read to a document does not depend on what the open elements hold.** -/
theorem Alike.run (h : r.Alike s) {cs : List Char} {d : Document} (hrun : r.run cs = .ok d) :
    ∃ d', s.run cs = .ok d' := by
  fun_induction Reading.run r cs generalizing s with
  | case1 r =>
    rw [finish] at hrun
    split at hrun
    · cases hrun
    · cases hrun
    · rename_i root ho hroot
      have hs : s.opened = [] := List.map_eq_nil_iff.1 (h.names.trans (by rw [ho]; rfl))
      obtain ⟨root', hroot'⟩ := Option.isSome_iff_exists.1 (h.rooted.trans (by rw [hroot]; rfl))
      rw [Reading.run, finish, hs, hroot']
      exact ⟨_, rfl⟩
  | case2 => cases hrun
  | case3 => cases hrun
  | case4 r c cs m rest hn _ r' hs ih =>
    obtain ⟨s', hs', h'⟩ := h.step hs
    rw [run_of_next hn hs']
    exact ih h' hrun

end Reading

open Reading

/-- The text is read to a document from wherever elements of these names are open, the innermost first, and no root is
complete. -/
def Accepts (names : List String) (cs : List Char) : Prop :=
  ∀ r : Reading, r.opened.map (·.name) = names → r.root = none → ∃ d, r.run cs = .ok d

theorem Accepts.of_run {r : Reading} (hroot : r.root = none) {cs : List Char} {d : Document} (h : r.run cs = .ok d) :
    Accepts (r.opened.map (·.name)) cs :=
  fun _ hnames hroot' => Alike.run ⟨hnames, by rw [hroot, hroot']⟩ h

/-- A piece that opens and closes elements by their names, and what follows it. -/
theorem Accepts.next {c : Char} {cs rest : List Char} {m : Markup} {names names' : List String}
    (hn : Markup.next c cs = .ok (m, rest)) (h : Accepts names' rest)
    (hstep : ∀ r : Reading, r.opened.map (·.name) = names → r.root = none → ∃ r', r.step m = .ok r' ∧
      r'.opened.map (·.name) = names' ∧ r'.root = none) : Accepts names (c :: cs) := by
  intro r hnames hroot
  obtain ⟨r', hs, hnames', hroot'⟩ := hstep r hnames hroot
  obtain ⟨d, hd⟩ := h r' hnames' hroot'
  exact ⟨d, (run_of_next hn hs).trans hd⟩

/-- A node within an element can always be added. -/
theorem exists_add {names : List String} (hne : names ≠ []) (n : Node) (r : Reading)
    (hnames : r.opened.map (·.name) = names) (hroot : r.root = none) :
    ∃ r', r.add n = .ok r' ∧ r'.opened.map (·.name) = names ∧ r'.root = none := by
  obtain ⟨e, es, ho⟩ := List.exists_cons_of_ne_nil (show r.opened ≠ [] from fun h => hne (by rw [← hnames, h]; rfl))
  exact ⟨_, add_of_opened ho n, by rw [← hnames, ho]; rfl, hroot⟩

/-- Running text within an element makes no difference. -/
theorem Accepts.text {names : List String} (hne : names ≠ []) {c : Char} (hc : Markup.isText c = true) {cs : List Char}
    (h : Accepts names cs) : Accepts names (c :: cs) := by
  have hnext {c : Char} (hc : Markup.isText c = true) (cs : List Char) : Markup.next c cs
      = .ok (.text (c :: cs.takeWhile Markup.isText), cs.dropWhile Markup.isText) := by
    rw [Markup.isText, Bool.and_eq_true, bne_iff_ne, bne_iff_ne] at hc
    rw [Markup.next, if_neg hc.1, if_neg hc.2]
  refine Accepts.next (hnext hc cs) ?_ fun r => exists_add hne _ r
  cases cs with
  | nil => exact h
  | cons d cs =>
    rw [List.dropWhile_cons]
    split
    · rename_i hd
      -- What follows the text is read after the shorter text, so it is read after any.
      intro r hnames hroot
      obtain ⟨document, hrun⟩ := h r hnames hroot
      obtain ⟨r', hadd, hnames', hroot'⟩ := exists_add hne _ r hnames hroot
      rw [run_of_next (hnext hd cs) hadd] at hrun
      exact Alike.run ⟨hnames.trans hnames'.symm, by rw [hroot, hroot']⟩ hrun
    · exact h

/-! ## Parts of texts -/

/-- A part of a text that closes some elements and opens others, the innermost first, within an element that stays
open. -/
def Moves (cs : List Char) (before after : List String) : Prop :=
  ∀ (outer : List String) (rest : List Char), outer ≠ [] → Accepts (after ++ outer) rest →
    Accepts (before ++ outer) (cs ++ rest)

/-- A part that closes all that it opens, and nothing else. -/
abbrev Balanced (cs : List Char) : Prop :=
  Moves cs [] []

namespace Moves

theorem nil : Balanced [] :=
  fun _ _ _ h => h

theorem append {cs ds : List Char} {a b c : List String} (h : Moves cs a b) (h' : Moves ds b c) :
    Moves (cs ++ ds) a c := fun outer rest hne hrest => by
  rw [List.append_assoc]
  exact h outer _ hne (h' outer rest hne hrest)

/-- What stays open around a part. -/
theorem within {cs : List Char} {a b : List String} (h : Moves cs a b) (names : List String) :
    Moves cs (a ++ names) (b ++ names) := fun outer rest hne hrest => by
  rw [List.append_assoc] at hrest ⊢
  exact h (names ++ outer) rest (List.append_ne_nil_of_right_ne_nil names hne) hrest

theorem append_toList {s t : String} {a b c : List String} (h : Moves s.toList a b) (h' : Moves t.toList b c) :
    Moves (s ++ t).toList a c := by
  rw [String.toList_append]
  exact h.append h'

theorem join {α : Type} (f : α → String) {xs : List α} (h : ∀ x ∈ xs, Balanced (f x).toList) :
    Balanced (String.join (xs.map f)).toList := by
  induction xs with
  | nil => exact nil
  | cons x xs ih =>
    rw [List.map_cons, String.join_cons]
    exact (h x List.mem_cons_self).append_toList (ih fun y hy => h y (List.mem_cons_of_mem _ hy))

/-- A part that stands inside an element, before and after other parts. -/
theorem between {s t u : String} {names : List String} (hs : Moves s.toList [] names) (ht : Balanced t.toList)
    (hu : Moves u.toList names []) : Balanced (s ++ t ++ u).toList :=
  (hs.append_toList (ht.within names)).append_toList hu

/-- A text that is spread over the texts on both sides of a value. -/
theorem around (left right : String) {before start value stop after : String} {a b c d : List String}
    (hleft : left = before ++ start) (hright : right = stop ++ after) (hbefore : Moves before.toList a b)
    (htag : Moves (start ++ value ++ stop).toList b c) (hafter : Moves after.toList c d) :
    Moves (left ++ value ++ right).toList a d := by
  rw [spread_eq hleft hright]
  exact hbefore.append_toList (htag.append_toList hafter)

end Moves

/-! ## Pieces -/

theorem balanced_text {cs : List Char} (h : ∀ c ∈ cs, Markup.isText c = true) : Balanced cs := by
  induction cs with
  | nil => exact Moves.nil
  | cons c cs ih =>
    intro outer rest hne hrest
    exact Accepts.text hne (h c List.mem_cons_self) (ih (fun d hd => h d (List.mem_cons_of_mem _ hd)) outer rest hne hrest)

/-- A piece that is read as a node other than an element. -/
theorem balanced_of_next {c : Char} {cs : List Char} {m : Markup} {n : Node} (hleaf : m.leaf? = some n)
    (h : ∀ rest, Markup.next c (cs ++ rest) = .ok (m, rest)) : Balanced (c :: cs) := fun _ rest hne hrest =>
  Accepts.next (h rest) hrest fun r hnames hroot => by
    rw [step_of_leaf? hleaf]
    exact exists_add hne n r hnames hroot

theorem balanced_reference {name : List Char} (h : ∀ c ∈ name, (c != ';' && Markup.isText c) = true) :
    Balanced ('&' :: name ++ [';']) :=
  balanced_of_next (m := .reference name) rfl (next_reference h)

theorem balanced_escapeChars : ∀ cs : List Char, Balanced (Text.escapeChars cs)
  | [] => Moves.nil
  | c :: cs => by
    refine Moves.append (?_ : Balanced (Text.escapeChar c)) (balanced_escapeChars cs)
    rcases escapeChar_cases c with ⟨htext, hc⟩ | ⟨name, hname, hc⟩
    · rw [hc]
      exact balanced_text fun d hd => List.mem_singleton.1 hd ▸ htext
    · rw [hc]
      exact balanced_reference hname

theorem balanced_escape (s : String) : Balanced (Text.escape s).toList := by
  rw [Text.escape, String.toList_ofList]
  exact balanced_escapeChars _

/-! ## Tags -/

/-- What is open after a tag; nothing if the tag is not one of the elements that are open. -/
def Markup.through? (m : Markup) (names : List String) : Option (List String) :=
  match m with
  | .opening content => match Tag.element content with
    | .ok e => some (e.name :: names)
    | .error _ => none
  | .empty content => match Tag.element content with
    | .ok _ => some names
    | .error _ => none
  | .closing name => match names with
    | n :: names => if n = String.ofList name then some names else none
    | [] => none
  | _ => none

theorem exists_step_of_through? {m : Markup} {names names' outer : List String} (h : m.through? names = some names')
    (hne : outer ≠ []) (r : Reading) (hnames : r.opened.map (·.name) = names ++ outer) (hroot : r.root = none) :
    ∃ r', r.step m = .ok r' ∧ r'.opened.map (·.name) = names' ++ outer ∧ r'.root = none := by
  cases m with
  | opening content =>
    rw [Markup.through?] at h
    split at h
    · rename_i e he
      cases h
      exact ⟨_, step_opening he, congrArg (e.name :: ·) hnames, hroot⟩
    · cases h
  | empty content =>
    rw [Markup.through?] at h
    split at h
    · rename_i e he
      cases h
      rw [step_empty he]
      exact exists_add (List.append_ne_nil_of_right_ne_nil names hne) _ r hnames hroot
    · cases h
  | closing name =>
    cases names with
    | nil => cases h
    | cons n names =>
      cases ho : r.opened with
      | nil =>
        rw [ho] at hnames
        cases hnames
      | cons e es =>
        rw [Markup.through?] at h
        rw [ho, List.map_cons, List.cons_append, List.cons.injEq] at hnames
        split at h
        · rename_i hn
          cases h
          simp only [step, close, ho, if_pos (hnames.1.trans hn)]
          exact exists_add (List.append_ne_nil_of_right_ne_nil _ hne) _ _ hnames.2 hroot
        · cases h
  | _ => cases h

theorem moves_of_next {c : Char} {cs : List Char} {m : Markup} {before after : List String}
    (h : ∀ rest, Markup.next c (cs ++ rest) = .ok (m, rest)) (hm : m.through? before = some after) :
    Moves (c :: cs) before after := fun _ rest hne hrest =>
  Accepts.next (h rest) hrest (exists_step_of_through? hm hne)

section Tags

variable {name : String} {as : Attributes}

theorem moves_opening (h : (⟨name, as, []⟩ : Element).isPlain = true) (hnd : (as.map (·.1)).Nodup) :
    Moves ('<' :: (name.toList ++ (attributesXml as).toList ++ ['>'])) [] [name] :=
  moves_of_next (next_opening h) (by rw [Markup.through?, element_of_isPlain h hnd])

theorem balanced_empty (h : (⟨name, as, []⟩ : Element).isPlain = true) (hnd : (as.map (·.1)).Nodup) (tail : List Char)
    (htail : ∀ c ∈ tail, Text.isSpace c = true) :
    Balanced ('<' :: (name.toList ++ (attributesXml as).toList ++ (tail ++ ['/', '>']))) :=
  moves_of_next (next_empty h htail) (by rw [Markup.through?, element_attributesXml h hnd tail htail])

theorem moves_closing (hname : IsTagName name) (h : Closes name) :
    Moves ('<' :: '/' :: (name.toList ++ ['>'])) [name] [] :=
  moves_of_next (next_of_closes h hname) (by rw [Markup.through?, if_pos String.ofList_toList.symm])

theorem moves_startTag (name key : String) {value : String} (h : (isName name && isName key) = true)
    (hvalue : '"' ∉ value.toList) : Moves ("<" ++ name ++ " " ++ key ++ "=\"" ++ value ++ "\">").toList [] [name] := by
  have := moves_opening (isPlain_with name key h hvalue) (List.nodup_singleton _)
  simpa [attributesXml] using this

theorem balanced_emptyTag (name key : String) {value : String} (h : (isName name && isName key) = true)
    (hvalue : '"' ∉ value.toList) : Balanced ("<" ++ name ++ " " ++ key ++ "=\"" ++ value ++ "\" />").toList := by
  have := balanced_empty (isPlain_with name key h hvalue) (List.nodup_singleton _) [' '] (by decide)
  simpa [attributesXml] using this

end Tags

/-! ## Fragments -/

/-- What is open after a text that consists of running text and whole tags. -/
def through? (cs : List Char) (names : List String) : Option (List String) :=
  match cs with
  | [] => some names
  | c :: cs =>
    if Markup.isText c then through? cs names
    else if c = '<' ∧ cs.head? ≠ some '!' ∧ cs.head? ≠ some '?' then
      match h : Markup.next '<' cs with
      | .ok (m, rest) =>
        have : rest.length ≤ cs.length := Markup.length_le_of_next h
        (m.through? names).bind (through? rest)
      | .error _ => none
    else none
termination_by cs.length

/-- **A text of running text and tags moves from what is open before it to what it leaves open.** -/
theorem moves_of_through? {cs : List Char} {before after : List String} (h : through? cs before = some after) :
    Moves cs before after := by
  fun_induction through? cs before with
  | case1 names =>
    cases h
    exact fun _ _ _ hrest => hrest
  | case2 names c cs hc ih =>
    intro outer rest hne hrest
    exact Accepts.text (List.append_ne_nil_of_right_ne_nil names hne) hc (ih h outer rest hne hrest)
  | case3 names c cs hc ha m more hn _ ih =>
    obtain ⟨rfl, hbang, hquestion⟩ := ha
    obtain ⟨names', hm, hmore⟩ := Option.bind_eq_some_iff.1 h
    intro outer rest hne hrest
    exact Accepts.next (Markup.next_append hbang hquestion hn rest) (ih names' hmore outer rest hne hrest)
      (exists_step_of_through? hm hne)
  | case4 => cases h
  | case5 => cases h

/-- What a closed fragment moves, told by names. -/
theorem moves_fragment (s : String) (before after : List String) (h : through? s.toList before = some after) :
    Moves s.toList before after :=
  moves_of_through? h

/-! ## Nodes -/

theorem balanced_leaf {n : Node} (h : ∃ m : Markup, m.leaf? = some n ∧ m.Legible) : Balanced n.toXml.toList := by
  obtain ⟨m, hm, c, cs, hsource, hnext⟩ := h
  rw [toXml_of_leaf? hm, hsource]
  by_cases hc : Markup.isText c = true
  · -- Running text that is read to its end consists of nothing else.
    have hend := hnext [] fun _ _ hd => absurd hd (Option.not_mem_none _)
    rw [List.append_nil, Markup.next, if_neg, if_neg] at hend
    · have hrest : cs.dropWhile Markup.isText = [] := congrArg Prod.snd (Except.ok.inj hend)
      refine balanced_text (List.forall_mem_cons.2 ⟨hc, List.dropWhile_eq_nil_iff.1 hrest⟩)
    · rintro rfl
      exact absurd hc (by decide)
    · rintro rfl
      exact absurd hc (by decide)
  · exact balanced_of_next hm fun rest => hnext rest fun h => absurd h hc

mutual

/-- **What a node of plain elements that can have been read is written as is balanced.** -/
theorem balanced_node : ∀ {n : Node}, n.Legible → n.Sound → (∀ e ∈ n.elements, e.isPlain = true) →
    Balanced n.toXml.toList
  | .element name as cs, hl, hs, hp => by
    obtain ⟨hname, hcloses, hchildren⟩ := hl
    rw [Node.elements, List.forall_mem_cons] at hp
    have hplain : (⟨name, as, []⟩ : Element).isPlain = true := hp.1
    cases cs with
    | nil =>
      rw [toList_toXml_leaf]
      exact balanced_empty hplain hs.1 [] fun _ hc => absurd hc List.not_mem_nil
    | cons n ns =>
      have hinner := balanced_nodes hchildren hs.2 hp.2
      rw [toList_toXml_cons]
      exact ((moves_opening hplain hs.1).append (hinner.within [name])).append
        (moves_closing hname (hcloses (List.cons_ne_nil n ns)))
  | .text _, h, _, _ => balanced_leaf h
  | .cdata _, h, _, _ => balanced_leaf h
  | .comment _, h, _, _ => balanced_leaf h
  | .instruction _, h, _, _ => balanced_leaf h

theorem balanced_nodes : ∀ {ns : List Node}, nodesLegible ns → nodesSound ns →
    (∀ e ∈ nodesElements ns, e.isPlain = true) → Balanced (nodesXml ns).toList
  | [], _, _, _ => by
    rw [nodesXml, String.toList_empty]
    exact Moves.nil
  | n :: ns, hl, hs, hp => by
    rw [nodesElements, List.forall_mem_append] at hp
    rw [nodesXml]
    exact (balanced_node hl.1 hs.1 hp.1).append_toList (balanced_nodes hl.2 hs.2 hp.2)

end

end Xml
end Bookbinder
