import Bookbinder.Injection.Substitution
import Bookbinder.Proofs.TopicFiles
/-!
# Documents that read as they were written

A value that was written between single quotes may hold a double quote, and is written between double quotes
afterwards; what is read then is something else.  Where no topic has such a value, nothing that is injected has one
either (`plain_process`).
-/
namespace Bookbinder
namespace Xml

/-- A node of plain elements that is sound. -/
def Node.Plain (n : Node) : Prop :=
  n.Sound ∧ ∀ e ∈ n.elements, e.isPlain = true

theorem mem_nodesElements {ns : List Node} {e : Element} : e ∈ nodesElements ns ↔ ∃ n ∈ ns, e ∈ n.elements := by
  induction ns with
  | nil => simp [nodesElements]
  | cons n ns ih => rw [nodesElements, List.mem_append, ih, List.exists_mem_cons_iff]

theorem nodesSound_of_plain {ns : List Node} (h : ∀ n ∈ ns, n.Plain) :
    nodesSound ns ∧ ∀ e ∈ nodesElements ns, e.isPlain = true := by
  refine ⟨nodesSound_iff.2 fun n hn => (h n hn).1, fun e he => ?_⟩
  obtain ⟨n, hn, he⟩ := mem_nodesElements.1 he
  exact (h n hn).2 e he

theorem plain_element_iff {name : String} {as : Attributes} {cs : List Node} : (Node.element name as cs).Plain ↔
    ((as.map (·.1)).Nodup ∧ (⟨name, as, []⟩ : Element).isPlain = true) ∧ ∀ c ∈ cs, c.Plain := by
  constructor
  · rintro ⟨hs, he⟩
    refine ⟨⟨hs.1, he ⟨name, as, cs⟩ List.mem_cons_self⟩, fun c hc => ⟨nodesSound_iff.1 hs.2 c hc, fun e hce => ?_⟩⟩
    exact he e (List.mem_cons_of_mem _ (mem_nodesElements.2 ⟨c, hc, hce⟩))
  · rintro ⟨⟨hk, hp⟩, hc⟩
    obtain ⟨hs, he⟩ := nodesSound_of_plain hc
    exact ⟨⟨hk, hs⟩, fun e hm => (List.mem_cons.1 hm).elim (fun h => by rw [h]; exact hp) (he e)⟩

theorem plain_ofText (s : String) : (Node.ofText s).Plain :=
  ⟨writes_escape s, fun _ he => absurd he List.not_mem_nil⟩

/-! ## Editing -/

mutual

theorem Node.Plain.replaceComments {σ : Type} {f : String → σ → Option (List Node) × σ}
    (hf : ∀ body s, ∀ ns ∈ (f body s).1, ∀ n ∈ ns, n.Plain) : ∀ {n : Node} (s : σ), n.Plain →
      ∀ m ∈ (n.replaceComments f s).1, m.Plain
  | .comment body, s, h, m, hm => by
    rw [Node.replaceComments] at hm
    have hs := hf body s
    cases hr : f body s with
    | mk o s' =>
      rw [hr] at hm hs
      cases o with
      | some ns => exact hs ns rfl m hm
      | none => exact List.mem_singleton.1 hm ▸ h
  | .element name as cs, s, h, m, hm => by
    rw [List.mem_singleton.1 hm, plain_element_iff]
    obtain ⟨hp, hc⟩ := plain_element_iff.1 h
    exact ⟨hp, plain_nodesReplaceComments hf s hc⟩
  | .text _, _, h, m, hm => List.mem_singleton.1 hm ▸ h
  | .cdata _, _, h, m, hm => List.mem_singleton.1 hm ▸ h
  | .instruction _, _, h, m, hm => List.mem_singleton.1 hm ▸ h

theorem plain_nodesReplaceComments {σ : Type} {f : String → σ → Option (List Node) × σ}
    (hf : ∀ body s, ∀ ns ∈ (f body s).1, ∀ n ∈ ns, n.Plain) : ∀ {ns : List Node} (s : σ), (∀ n ∈ ns, n.Plain) →
      ∀ m ∈ (nodesReplaceComments f ns s).1, m.Plain
  | [], _, _, m, hm => absurd hm List.not_mem_nil
  | n :: ns, s, h, m, hm => by
    rcases List.mem_append.1 hm with hm | hm
    · exact Node.Plain.replaceComments hf s (h n List.mem_cons_self) m hm
    · exact plain_nodesReplaceComments hf _ (fun k hk => h k (List.mem_cons_of_mem _ hk)) m hm

end

mutual

theorem Node.Plain.retain {keep : Element → Bool} : ∀ {n : Node}, n.Plain → ∀ m ∈ n.retain keep, m.Plain
  | .element name as cs, h, m, hm => by
    rw [Node.retain] at hm
    split at hm
    · obtain ⟨hp, hc⟩ := plain_element_iff.1 h
      rw [List.mem_singleton.1 hm, plain_element_iff]
      exact ⟨hp, plain_nodesRetain hc⟩
    · exact absurd hm List.not_mem_nil
  | .text _, h, m, hm => List.mem_singleton.1 hm ▸ h
  | .cdata _, h, m, hm => List.mem_singleton.1 hm ▸ h
  | .comment _, h, m, hm => List.mem_singleton.1 hm ▸ h
  | .instruction _, h, m, hm => List.mem_singleton.1 hm ▸ h

theorem plain_nodesRetain {keep : Element → Bool} : ∀ {ns : List Node}, (∀ n ∈ ns, n.Plain) →
    ∀ m ∈ nodesRetain keep ns, m.Plain
  | [], _, m, hm => absurd hm List.not_mem_nil
  | n :: ns, h, m, hm => by
    rcases List.mem_append.1 hm with hm | hm
    · exact Node.Plain.retain (h n List.mem_cons_self) m hm
    · exact plain_nodesRetain (fun k hk => h k (List.mem_cons_of_mem _ hk)) m hm

end

/-- Whether the document that a text writes has plain elements only. -/
def isPlainText (xml : String) : Bool :=
  match Document.read xml with
  | .ok d => d.root.elements.all (·.isPlain)
  | .error _ => true

theorem plain_of_read {xml : String} {d : Document} (h : isPlainText xml = true) (hd : Document.read xml = .ok d) :
    d.root.toNode.Plain := by
  rw [isPlainText, hd] at h
  exact ⟨sound_of_read hd, List.all_eq_true.1 h⟩

/-! ## The library's own elements -/

theorem plain_named {name : String} (h : isName name = true) {cs : List Node} (hc : ∀ c ∈ cs, c.Plain) :
    (Node.element name [] cs).Plain :=
  plain_element_iff.2 ⟨⟨List.nodup_nil, isPlain_iff.2 ⟨h, fun _ ha => absurd ha List.not_mem_nil⟩⟩, hc⟩

theorem plain_with {name key : String} (h : (isName name && isName key) = true) (value : String) {cs : List Node}
    (hc : ∀ c ∈ cs, c.Plain) : (Node.element name [(key, Text.escape value)] cs).Plain :=
  plain_element_iff.2 ⟨⟨List.nodup_singleton _, isPlain_with name key h (Text.quote_notMem_escape value)⟩, hc⟩

theorem plain_withText {name : String} (h : isName name = true) (text : String) :
    ((Element.ofName name).withText text).toNode.Plain :=
  plain_named h fun _ hc => List.mem_singleton.1 hc ▸ plain_ofText text

theorem Attributes.nodup_keys_set {as : Attributes} (h : (as.map (·.1)).Nodup) (name value : String) :
    ((as.set name value).map (·.1)).Nodup := by
  cases hv : as.get? name with
  | some v =>
    rw [map_fst_set hv]
    exact h
  | none =>
    have hset : ∀ {as : Attributes}, as.get? name = none → as.set name value = as ++ [(name, value)] := by
      intro as
      induction as with
      | nil => exact fun _ => rfl
      | cons a as ih =>
        intro hn
        rw [get?_cons] at hn
        split at hn
        · cases hn
        · rename_i ha
          rw [Attributes.set, if_neg ha, ih hn]
          rfl
    have hnone : name ∉ as.map (·.1) := fun hm => by
      obtain ⟨a, ha, rfl⟩ := List.mem_map.1 hm
      have hfind : as.find? (fun b => b.1 == a.1) = none := Option.map_eq_none_iff.1 hv
      exact absurd (List.find?_eq_none.1 hfind a ha) (by simp)
    rw [hset hv, List.map_append]
    exact List.Nodup.append h (List.nodup_singleton _) (List.disjoint_singleton.2 hnone)

theorem Node.Plain.withAttribute {e : Element} (h : e.toNode.Plain) {key : String} (hkey : isName key = true)
    (value : String) : (e.withAttribute key value).toNode.Plain := by
  obtain ⟨⟨hk, hp⟩, hc⟩ := plain_element_iff.1 h
  obtain ⟨hname, has⟩ := isPlain_iff.1 hp
  refine plain_element_iff.2 ⟨⟨Attributes.nodup_keys_set hk key _, isPlain_iff.2 ⟨hname, fun a ha => ?_⟩⟩, hc⟩
  rcases Attributes.mem_set ha with rfl | ha
  · exact ⟨hkey, Text.quote_notMem_escape value⟩
  · exact has a ha

end Xml

namespace Injection

open Xml (Node Element)

theorem plain_markedLink (link : Link) (title : String) (isOptional : Bool) :
    ∀ n ∈ DocBook.markedLink (link.element title) isOptional, n.Plain := by
  have hlink : (link.element title).toNode.Plain := by
    cases link with
    | xref target =>
      change (Node.element "xref" [("linkend", Text.escape target)] []).Plain
      exact Xml.plain_with (by decide) target fun _ hc => absurd hc List.not_mem_nil
    | ulink url =>
      change (Node.element "ulink" [("url", Text.escape url)] [.ofText title]).Plain
      exact Xml.plain_with (by decide) url fun _ hc => List.mem_singleton.1 hc ▸ Xml.plain_ofText title
  intro n hn
  rw [DocBook.markedLink] at hn
  split at hn
  · simp only [List.mem_cons, List.not_mem_nil, or_false] at hn
    rcases hn with rfl | rfl
    · exact Xml.plain_withText (by decide) _
    · exact hlink
  · exact List.mem_singleton.1 hn ▸ hlink

theorem plain_listItem {content : List Node} (h : ∀ n ∈ content, n.Plain) :
    (DocBook.listItem content).toNode.Plain := by
  change (Node.element "listitem" [] [.element "para" [] content]).Plain
  exact Xml.plain_named (by decide) fun _ hc => List.mem_singleton.1 hc ▸ Xml.plain_named (by decide) h

theorem plain_linkNodes (targets : LinkTargets) (kind : MarkerKind) (resolved : List (MarkerId × Topic)) :
    ∀ n ∈ linkNodes targets kind resolved, n.Plain := by
  have hpieces : ∀ piece ∈ linkPieces targets (arrange kind resolved), ∀ n ∈ piece, n.Plain := by
    intro piece hpiece
    obtain ⟨⟨id, related⟩, -, hlink⟩ := List.mem_filterMap.1 hpiece
    obtain ⟨link, -, rfl⟩ := Option.map_eq_some_iff.1 hlink
    exact plain_markedLink link related.title id.isOptional
  have hitems : ∀ n ∈
      ((linkPieces targets (arrange kind resolved)).map DocBook.listItem).map Element.toNode, n.Plain := by
    intro n hn
    obtain ⟨item, hitem, rfl⟩ := List.mem_map.1 hn
    obtain ⟨piece, hpiece, rfl⟩ := List.mem_map.1 hitem
    exact plain_listItem (hpieces piece hpiece)
  intro n hn
  unfold linkNodes at hn
  dsimp only at hn
  split at hn
  · exact absurd hn List.not_mem_nil
  · split at hn
    · obtain ⟨piece, hpiece, hn⟩ := List.mem_flatten.1 hn
      exact hpieces piece hpiece n hn
    · obtain ⟨piece, hpiece, rfl⟩ := List.mem_map.1 hn
      exact plain_listItem (hpieces piece hpiece)
    · rw [List.mem_singleton.1 hn]
      exact Xml.plain_named (show Xml.isName "orderedlist" = true by decide) hitems
    · rw [List.mem_singleton.1 hn]
      exact Xml.plain_named (show Xml.isName "itemizedlist" = true by decide) hitems

theorem plain_bodyOf {related : Topic} (h : Xml.isPlainText related.xml = true) : ∀ n ∈ bodyOf related, n.Plain := by
  intro n hn
  rw [bodyOf] at hn
  split at hn
  · rename_i doc hdoc
    have hroot := Xml.plain_element_iff.1 (Xml.plain_of_read h hdoc)
    exact Xml.plain_nodesRetain (fun c hc => hroot.2 c (List.mem_of_mem_eraseP hc)) n hn
  · exact absurd hn List.not_mem_nil

theorem plain_nodes (targets : LinkTargets) (kind : MarkerKind) {resolved : List (MarkerId × Topic)}
    (h : ∀ r ∈ resolved, Xml.isPlainText r.2.xml = true) : ∀ n ∈ nodes targets kind resolved, n.Plain := by
  intro n hn
  rw [nodes.eq_def] at hn
  split at hn
  · split at hn
    · rename_i id related hhead
      exact plain_bodyOf (h _ (List.mem_of_head? hhead)) n hn
    · exact absurd hn List.not_mem_nil
  · split at hn
    · rw [List.mem_singleton.1 hn]
      exact Xml.plain_withText (by decide) _
    · exact absurd hn List.not_mem_nil
  · exact plain_linkNodes targets kind resolved n hn

/-- **What is injected into a plain document from plain topics is plain.** -/
theorem plain_process (targets : LinkTargets) (tolerant : Bool) {t : Topic} {root : Element} (hroot : root.toNode.Plain)
    (h : ∀ r ∈ t.outgoing, Xml.isPlainText r.xml = true) : (process targets tolerant t root).1.toNode.Plain := by
  obtain ⟨hp, hc⟩ := Xml.plain_element_iff.1 hroot
  refine Xml.plain_element_iff.2 ⟨hp, Xml.plain_nodesReplaceComments (fun body tally ns hns => ?_) ({} : Tally) hc⟩
  split at hns
  · rename_i m _
    rw [substitute] at hns
    split at hns
    · cases hns
    · cases hns
      refine plain_nodes targets m.kind fun r hr => ?_
      obtain ⟨id, -, hid⟩ := List.mem_filterMap.1 hr
      obtain ⟨related, hresolve, rfl⟩ := Option.map_eq_some_iff.1 hid
      rw [resolve?] at hresolve
      split at hresolve
      · cases hresolve
      · exact h related (List.mem_of_find?_eq_some hresolve)
  · cases hns

end Injection
end Bookbinder
