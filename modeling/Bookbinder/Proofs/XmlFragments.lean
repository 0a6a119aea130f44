import Bookbinder.Proofs.XmlWriting
import Mathlib.Data.List.Nodup
/-!
# Fragments of markup

A text of running text and whole tags only adds its own tags to whatever follows it (`writes_of_isFragment`).  What
pages write around their values are such fragments.
-/
namespace Bookbinder
namespace Xml

namespace Markup

/-- A tag is read up to its end, whatever follows. -/
theorem tag_eq_ok {q : Option Char} {cs a r : List Char} (h : tag q cs = .ok (a, r)) :
    cs = a ++ '>' :: r ∧ ∀ r', tag q (a ++ '>' :: r') = .ok (a, r') := by
  fun_induction tag q cs generalizing a with
  | case1 => cases h
  | case2 => cases h
  | case3 cs =>
    cases h
    exact ⟨rfl, fun r' => rfl⟩
  | case4 c cs hc a' r' h' ih =>
    cases h
    obtain ⟨rfl, ha⟩ := ih h'
    refine ⟨rfl, fun r' => ?_⟩
    rw [List.cons_append, tag, ha]
    exact hc
  | case5 => cases h
  | case6 q c cs a' r' h' ih =>
    cases h
    obtain ⟨rfl, ha⟩ := ih h'
    refine ⟨rfl, fun r' => ?_⟩
    rw [List.cons_append, tag, ha]
  | case7 => cases h

theorem tag_append {q : Option Char} {cs a r : List Char} (h : tag q cs = .ok (a, r)) (rest : List Char) :
    tag q (cs ++ rest) = .ok (a, r ++ rest) := by
  obtain ⟨rfl, ha⟩ := tag_eq_ok h
  rw [List.append_assoc]
  exact ha (r ++ rest)

theorem next_append {cs r : List Char} {m : Markup} (hbang : cs.head? ≠ some '!') (hquestion : cs.head? ≠ some '?')
    (h : next '<' cs = .ok (m, r)) (rest : List Char) : next '<' (cs ++ rest) = .ok (m, r ++ rest) := by
  cases cs with
  | nil => cases h
  | cons c cs =>
    by_cases hslash : c = '/'
    · subst hslash
      change nextClosing cs = _ at h
      change nextClosing (cs ++ rest) = _
      unfold nextClosing at h ⊢
      split at h
      · rename_i ht
        cases h
        rw [tag_append ht]
      · cases h
    · -- Neither a slash nor what the hypotheses rule out: a start tag or an empty tag.
      have hb : c ≠ '!' := fun e => hbang (congrArg some e)
      have hq : c ≠ '?' := fun e => hquestion (congrArg some e)
      rw [next_eq_nextTag hb hq hslash] at h
      rw [List.cons_append, next_eq_nextTag hb hq hslash, ← List.cons_append]
      unfold nextTag at h ⊢
      split at h
      · rename_i ht
        cases h
        rw [tag_append ht]
      · cases h

end Markup

/-- Whether a text consists of running text and whole tags. -/
def isFragment (cs : List Char) : Bool :=
  match cs with
  | [] => true
  | c :: cs =>
    if Markup.isText c then isFragment cs
    else if c = '<' ∧ cs.head? ≠ some '!' ∧ cs.head? ≠ some '?' then
      match h : Markup.next '<' cs with
      | .ok (_, rest) =>
        have : rest.length ≤ cs.length := Markup.length_le_of_next h
        isFragment rest
      | .error _ => false
    else false
termination_by cs.length

/-- **A fragment adds its own tags to whatever follows it.** -/
theorem writes_of_isFragment {cs : List Char} (h : isFragment cs = true) : Writes cs (tags cs) := by
  fun_induction isFragment cs with
  | case1 =>
    rw [tags_nil]
    exact Writes.nil
  | case2 c cs hc ih =>
    intro rest
    rw [List.cons_append, tags_cons_of_isText hc, tags_cons_of_isText hc]
    exact ih h rest
  | case3 c cs hc ha m rest hn _ ih =>
    obtain ⟨rfl, hb, hq⟩ := ha
    intro more
    rw [List.cons_append, tags_of_next hn, tags_of_next (Markup.next_append hb hq hn more),
      ih h more, List.append_assoc]
  | case4 => cases h
  | case5 => cases h

/-- What a closed fragment writes, told by names and attributes. -/
theorem writes_fragment (s : String) (ks : List (String × Attributes))
    (h : isFragment s.toList = true ∧ (tags s.toList).map (fun e => (e.name, e.attributes)) = ks) :
    Writes s.toList (ks.map fun k => ⟨k.1, k.2, []⟩) := by
  have htag : ∀ e ∈ tags s.toList, (⟨e.name, e.attributes, []⟩ : Element) = e := fun e he => by
    rw [← children_of_mem_tags he]
  have hes : ks.map (fun k => (⟨k.1, k.2, []⟩ : Element)) = tags s.toList := by
    rw [← h.2, List.map_map]
    exact (List.map_congr_left htag).trans (List.map_id _)
  rw [hes]
  exact writes_of_isFragment h.1

/-! ## Parts of pages -/

theorem Writes.append_toList {a b : String} {es fs : List Element} (h : Writes a.toList es) (h' : Writes b.toList fs) :
    Writes (a ++ b).toList (es ++ fs) := by
  rw [String.toList_append]
  exact h.append h'

/-- A tag around a value whose start and end stand in longer texts. -/
theorem spread_eq {left right before start stop after : String} (hleft : left = before ++ start)
    (hright : right = stop ++ after) {value : String} :
    left ++ value ++ right = before ++ (start ++ value ++ stop ++ after) := by
  rw [hleft, hright]
  simp only [String.append_assoc]

theorem Writes.between (left right : String) {before start value stop after : String} {es fs gs : List Element}
    (hleft : left = before ++ start) (hright : right = stop ++ after) (hbefore : Writes before.toList es)
    (htag : Writes (start ++ value ++ stop).toList fs) (hafter : Writes after.toList gs) :
    Writes (left ++ value ++ right).toList (es ++ (fs ++ gs)) := by
  rw [spread_eq hleft hright]
  exact hbefore.append_toList (htag.append_toList hafter)

theorem Writes.join {α : Type} (f : α → String) (g : α → List Element) {xs : List α}
    (h : ∀ x ∈ xs, Writes (f x).toList (g x)) : Writes (String.join (xs.map f)).toList (xs.flatMap g) := by
  induction xs with
  | nil => exact Writes.nil
  | cons x xs ih =>
    rw [List.map_cons, String.join_cons, List.flatMap_cons]
    exact (h x List.mem_cons_self).append_toList (ih fun y hy => h y (List.mem_cons_of_mem _ hy))

theorem isPlain_with (name key : String) {value : String} (h : (isName name && isName key) = true)
    (hvalue : '"' ∉ value.toList) : (⟨name, [(key, value)], []⟩ : Element).isPlain = true := by
  rw [Bool.and_eq_true] at h
  exact isPlain_iff.2 ⟨h.1, fun a ha => by rw [List.mem_singleton.1 ha]; exact ⟨h.2, hvalue⟩⟩

/-- A plain element without an id. -/
def Element.Anonymous (e : Element) : Prop :=
  e.isPlain = true ∧ e.attribute? "id" = none

theorem ids_eq_nil_of_anonymous {es : List Element} (h : ∀ e ∈ es, e.Anonymous) : ids es = [] :=
  List.filterMap_eq_nil_iff.2 fun e he => (h e he).2

theorem writes_startTag (name key : String) {value : String} (h : (isName name && isName key) = true)
    (hvalue : '"' ∉ value.toList) :
    Writes ("<" ++ name ++ " " ++ key ++ "=\"" ++ value ++ "\">").toList [⟨name, [(key, value)], []⟩] := by
  have := writes_opening (isPlain_with name key h hvalue) (List.nodup_singleton _)
  simpa [attributesXml] using this

theorem writes_emptyTag (name key : String) {value : String} (h : (isName name && isName key) = true)
    (hvalue : '"' ∉ value.toList) :
    Writes ("<" ++ name ++ " " ++ key ++ "=\"" ++ value ++ "\" />").toList [⟨name, [(key, value)], []⟩] := by
  have := writes_empty (isPlain_with name key h hvalue) (List.nodup_singleton _) [' '] (by decide)
  simpa [attributesXml] using this

end Xml
end Bookbinder
