import Bookbinder.Proofs.DtdTokens
import Bookbinder.Proofs.NestedReferences
/-!
# What a definition's text declares

Comments are taken out first, then the declarations are found, and each is cut into tokens.  As no reader stops within a
token, the names of an attribute list stand where they are looked for; so a definition declares just what its text lists
(`declares_read`), unless a name holds the one character that is white space as well (`not_declares_read`).
-/
namespace Bookbinder

namespace Text

theorem cut?_cons_of_after? {p cs : List Char} {c : Char} (h : after? p (c :: cs) = none) :
    cut? p (c :: cs) = (cut? p cs).map fun x => (c :: x.1, x.2) := by
  rw [cut?, h]
  cases cut? p cs <;> rfl

/-- The end of a comment cannot begin in one text and end in the next. -/
theorem cut?_commentEnd {a : List Char} (h : ¬ "-->".toList <:+: a) (rest : List Char) :
    cut? "-->".toList (a ++ ("-->".toList ++ rest)) = some (a, rest) := by
  induction a with
  | nil => exact cut?_eq_of_after? (after?_self_append _ _)
  | cons c a ih =>
    have hafter : after? "-->".toList (c :: (a ++ ("-->".toList ++ rest))) = none := by
      rw [Option.eq_none_iff_forall_ne_some]
      intro r hr
      have heq := after?_eq_some hr
      match a with
      | [] => simp at heq
      | [d] => simp at heq
      | d :: e :: a =>
        refine h ⟨[], a, ?_⟩
        simp only [String.reduceToList, List.cons_append, List.nil_append, List.cons.injEq] at heq ⊢
        exact ⟨heq.1.symm, heq.2.1.symm, heq.2.2.1.symm, trivial⟩
    rw [List.cons_append, cut?_cons_of_after? hafter, ih fun ha => h (ha.trans (List.suffix_cons c a).isInfix)]
    rfl

end Text

namespace Dtd

open Text (after? cut? isBlank ne_of_isBlank)

/-! ## Taking out comments -/

theorem stripComments_eq (cs : List Char) : stripComments cs = match cut? "<!--".toList cs with
    | none => cs
    | some (a, r) => match cut? "-->".toList r with
      | none => a
      | some (_, r') => a ++ stripComments r' := by
  rw [stripComments]
  split
  · rename_i hopen
    rw [hopen]
  · rename_i hopen
    split
    · rename_i hend
      simp only [hopen, hend]
    · rename_i hend
      simp only [hopen, hend]

theorem stripComments_nil : stripComments [] = [] := by
  rw [stripComments_eq]
  rfl

/-- A character that begins no comment is kept. -/
theorem stripComments_cons {c : Char} {cs : List Char} (h : after? "<!--".toList (c :: cs) = none) :
    stripComments (c :: cs) = c :: stripComments cs := by
  rw [stripComments_eq, stripComments_eq cs, Text.cut?_cons_of_after? h]
  cases cut? "<!--".toList cs with
  | none => rfl
  | some x =>
    obtain ⟨a, r⟩ := x
    dsimp only [Option.map_some]
    cases cut? "-->".toList r <;> rfl

theorem stripComments_append {xs : List Char} (h : '<' ∉ xs) (rest : List Char) :
    stripComments (xs ++ rest) = xs ++ stripComments rest := by
  induction xs with
  | nil => rfl
  | cons c xs ih =>
    rw [List.mem_cons, not_or] at h
    have hafter : after? "<!--".toList (c :: (xs ++ rest)) = none := if_neg h.1
    rw [List.cons_append, stripComments_cons hafter, ih h.2, List.cons_append]

theorem stripComments_comment {content : List Char} (h : ¬ "-->".toList <:+: content) (cs : List Char) :
    stripComments ("<!--".toList ++ (content ++ ("-->".toList ++ cs))) = stripComments cs := by
  rw [stripComments_eq, Text.cut?_eq_of_after? (Text.after?_self_append _ _)]
  dsimp only
  rw [Text.cut?_commentEnd h cs]
  rfl

/-- What is left of white space and comments is white space. -/
theorem Filler.exists_gap {ws : List Char} (h : Filler ws) :
    ∃ gap, Gap gap ∧ ∀ rest, stripComments (ws ++ rest) = gap ++ stripComments rest := by
  induction h with
  | nil => exact ⟨[], fun _ h => absurd h List.not_mem_nil, fun _ => rfl⟩
  | @blank c cs hc _ ih =>
    obtain ⟨gap, hgap, hrest⟩ := ih
    refine ⟨c :: gap, List.forall_mem_cons.2 ⟨hc, hgap⟩, fun rest => ?_⟩
    have hafter : after? "<!--".toList (c :: (cs ++ rest)) = none := if_neg (ne_of_isBlank hc (by decide)).symm
    rw [List.cons_append, stripComments_cons hafter, hrest, List.cons_append]
  | @comment content cs hcontent _ ih =>
    obtain ⟨gap, hgap, hrest⟩ := ih
    refine ⟨gap, hgap, fun rest => ?_⟩
    rw [List.append_assoc, List.append_assoc, List.append_assoc, stripComments_comment hcontent, hrest]

/-! ## Finding the declarations -/

theorem declarations_eq (cs : List Char) : declarations cs = match cut? "<!".toList cs with
    | none => []
    | some (_, r) =>
      if (r.takeWhile Char.isAlpha).isEmpty then declarations r
      else match Xml.Markup.tag none (r.dropWhile Char.isAlpha) with
        | .error _ => []
        | .ok (body, rest) => ⟨r.takeWhile Char.isAlpha, body⟩ :: declarations rest := by
  rw [declarations]
  split
  · rename_i hmark
    rw [hmark]
  · rename_i a r hmark
    simp only [hmark]
    by_cases hempty : (r.takeWhile Char.isAlpha).isEmpty = true
    · rw [if_pos hempty, if_pos hempty]
    · rw [if_neg hempty, if_neg hempty]
      split
      · rename_i htag
        simp only [htag]
      · rename_i htag
        simp only [htag]

theorem declarations_nil : declarations [] = [] := by
  rw [declarations_eq]
  rfl

theorem declarations_cons {c : Char} {cs : List Char} (h : after? "<!".toList (c :: cs) = none) :
    declarations (c :: cs) = declarations cs := by
  rw [declarations_eq, declarations_eq cs, Text.cut?_cons_of_after? h]
  cases cut? "<!".toList cs <;> rfl

theorem declarations_gap {ws : List Char} (h : Gap ws) (cs : List Char) :
    declarations (ws ++ cs) = declarations cs := by
  induction ws with
  | nil => rfl
  | cons c ws ih =>
    obtain ⟨hc, hws⟩ := List.forall_mem_cons.1 h
    have hafter : after? "<!".toList (c :: (ws ++ cs)) = none := if_neg (ne_of_isBlank hc (by decide)).symm
    rw [List.cons_append, declarations_cons hafter, ih hws]

theorem Declared.keyword_cases (d : Declared) : d.keyword = "ELEMENT".toList ∨ d.keyword = "ATTLIST".toList := by
  cases d with
  | element => exact .inl rfl
  | attributes => exact .inr rfl

theorem Declared.isAlpha_keyword (d : Declared) : ∀ c ∈ d.keyword, c.isAlpha = true := by
  rcases d.keyword_cases with h | h <;> rw [h] <;> decide

/-- **A declaration is found with the text between its keyword and its end.** -/
theorem declarations_declared {d : Declared} {body : List Char} (h : Spaced d.tokens body) (cs : List Char) :
    declarations ('<' :: '!' :: (d.keyword ++ (body ++ '>' :: cs))) = ⟨d.keyword, body⟩ :: declarations cs := by
  have htag : Xml.Markup.tag none (body ++ '>' :: cs) = .ok (body ++ [], cs) :=
    h.tag d.quiet (by rw [Xml.Markup.tag])
  have hstop : ∀ c ∈ (body ++ '>' :: cs).head?, c.isAlpha = false := by
    intro c hc
    cases body with
    | nil =>
      cases hc
      rfl
    | cons b body =>
      have hblank := h.starts_blank c hc
      rw [Bool.eq_false_iff]
      intro halpha
      rw [Text.not_isBlank_of_isAlphanum (by rw [Char.isAlphanum, halpha]; rfl)] at hblank
      cases hblank
  have htake : (d.keyword ++ (body ++ '>' :: cs)).takeWhile Char.isAlpha = d.keyword := by
    rw [List.takeWhile_append_of_pos d.isAlpha_keyword, Text.takeWhile_eq_nil hstop, List.append_nil]
  have hdrop : (d.keyword ++ (body ++ '>' :: cs)).dropWhile Char.isAlpha = body ++ '>' :: cs := by
    rw [List.dropWhile_append_of_pos d.isAlpha_keyword, Text.dropWhile_eq_self hstop]
  have hmark : cut? "<!".toList ('<' :: '!' :: (d.keyword ++ (body ++ '>' :: cs)))
      = some ([], d.keyword ++ (body ++ '>' :: cs)) :=
    Text.cut?_eq_of_after? (Text.after?_self_append "<!".toList _)
  rw [declarations_eq, hmark]
  dsimp only
  have hword : ¬ d.keyword.isEmpty = true := by
    rcases d.keyword_cases with hk | hk <;> rw [hk] <;> decide
  rw [htake, hdrop, if_neg hword, htag, List.append_nil]

theorem stripComments_declared {d : Declared} {body : List Char} (h : Spaced d.tokens body) (cs : List Char) :
    stripComments ('<' :: '!' :: (d.keyword ++ (body ++ '>' :: cs))) =
      '<' :: '!' :: (d.keyword ++ (body ++ '>' :: stripComments cs)) := by
  have hmark : after? "<!--".toList ('<' :: '!' :: (d.keyword ++ (body ++ '>' :: cs))) = none := by
    cases d <;> rfl
  have hkeyword : '<' ∉ d.keyword := by
    rcases d.keyword_cases with hk | hk <;> rw [hk] <;> decide
  have hfree : '<' ∉ '!' :: (d.keyword ++ (body ++ ['>'])) := by
    simp [hkeyword, (h.free d.quiet).1]
  have hstrip := stripComments_append hfree cs
  simp only [List.cons_append, List.append_assoc, List.nil_append] at hstrip
  rw [stripComments_cons hmark, hstrip]

theorem forall₂_declarations {ds : List Declared} {cs : List Char} (h : Lists Gap ds cs) :
    List.Forall₂ (fun d decl => decl.keyword = d.keyword ∧ Spaced d.tokens decl.body) ds (declarations cs) := by
  induction h with
  | @nil cs hgap =>
    rw [← List.append_nil cs, declarations_gap hgap, declarations_nil]
    exact .nil
  | cons hgap hbody _ ih =>
    rw [declarations_gap hgap, declarations_declared hbody]
    exact .cons ⟨rfl, hbody⟩ ih

/-- **Taking out comments leaves the declarations as they are.** -/
theorem Lists.stripped {ds : List Declared} {cs : List Char} (h : Lists Filler ds cs) :
    Lists Gap ds (stripComments cs) := by
  induction h with
  | @nil cs hfiller =>
    obtain ⟨gap, hgap, hrest⟩ := hfiller.exists_gap
    rw [← List.append_nil cs, hrest, stripComments_nil, List.append_nil]
    exact .nil hgap
  | cons hfiller hbody _ ih =>
    obtain ⟨gap, hgap, hrest⟩ := hfiller.exists_gap
    rw [hrest, stripComments_declared hbody]
    exact .cons hgap hbody ih

/-! ## Names in declarations -/

theorem afterWord_type (type : AttributeType) (ts : List (List Char)) :
    afterWord "NOTATION".toList (type.tokens ++ ts) = ts := by
  cases type with
  | word w => cases w <;> rfl
  | group g =>
    have hword : g.chars ≠ "NOTATION".toList := fun h => absurd (List.cons.inj h).1 (by decide)
    rw [AttributeType.tokens, List.singleton_append, afterWord, if_neg hword]
  | notations g => rfl

theorem afterWord_rule (rule : DefaultRule) (ts : List (List Char)) :
    afterWord "#FIXED".toList (rule.tokens ++ ts) = ts := by
  cases rule with
  | required => rfl
  | implied => rfl
  | value l =>
    refine if_neg fun h => ?_
    have hquote := (List.cons.inj h).1
    rcases l.quotes with hq | hq <;> exact absurd (hq.symm.trans hquote) (by decide)
  | fixed l => rfl

/-- **The names of a list are found where they stand**, however types and defaults are written. -/
theorem attributeNames_tokens (defs : List AttributeDef) :
    attributeNames (defs.flatMap AttributeDef.tokens) = defs.map (·.name.chars) := by
  induction defs with
  | nil => rw [List.flatMap_nil, attributeNames, List.map_nil]
  | cons a defs ih =>
    rw [List.flatMap_cons, AttributeDef.tokens, List.cons_append, List.append_assoc, attributeNames, afterWord_type,
      afterWord_rule, ih, List.map_cons]

/-- The definition with what is listed next. -/
def Declared.addTo (d : Dtd) : Declared → Dtd
  | .element name _ => { d with elements := name.text :: d.elements }
  | .attributes owner defs => { d with attributes := (owner.text, defs.map (·.name.text)) :: d.attributes }

theorem declare_eq {x : Declared} {decl : Declaration} (hkeyword : decl.keyword = x.keyword)
    (hbody : Spaced x.tokens decl.body) (hmark : ∀ n ∈ x.names, '\u1680' ∉ n.chars) (es : Entities) (d : Dtd) :
    declare es d decl = x.addTo d := by
  rw [declare, hkeyword, expand_of_notMem es (hbody.free x.quiet).2]
  cases x with
  | element name model =>
    have htokens : ∃ ts, tokenize decl.body = name.chars :: ts := by
      generalize decl.body = body at hbody
      cases hbody with
      | cons _ hgap hrest =>
        exact ⟨_, tokenize_cons hgap (whole_name (hmark name List.mem_cons_self)) hrest.starts_blank⟩
    obtain ⟨ts, hts⟩ := htokens
    have hword : (Declared.element name model).keyword = "ELEMENT".toList := rfl
    rw [if_pos hword, hts]
    rfl
  | attributes owner defs =>
    obtain ⟨howner, hdefs⟩ := List.forall_mem_cons.1 hmark
    have hwhole : ∀ t ∈ (Declared.attributes owner defs).tokens, Whole t := by
      refine List.forall_mem_cons.2 ⟨whole_name howner, fun t ht => ?_⟩
      obtain ⟨a, ha, ht⟩ := List.mem_flatMap.1 ht
      exact AttributeDef.whole (hdefs a.name (List.mem_map_of_mem ha)) t ht
    have hword : (Declared.attributes owner defs).keyword = "ATTLIST".toList := rfl
    rw [hword, if_neg (by decide), if_pos rfl, hbody.tokenize_eq hwhole]
    change ({ d with attributes := (_, (attributeNames _).map String.ofList) :: d.attributes } : Dtd) = _
    rw [attributeNames_tokens, List.map_map]
    rfl

/-! ## What is declared -/

theorem read_eq {ds : List Declared} {text : String} (h : Lists Filler ds text.toList)
    (hmark : ∀ x ∈ ds, ∀ n ∈ x.names, '\u1680' ∉ n.chars) : read text = ds.foldl Declared.addTo {} := by
  rw [read]
  generalize (declarations (stripComments text.toList)).filterMap entity? = es
  have hfold {ds : List Declared} {decls : List Declaration} (hdecls : List.Forall₂
      (fun x decl => decl.keyword = x.keyword ∧ Spaced x.tokens decl.body) ds decls)
      (hmark : ∀ x ∈ ds, ∀ n ∈ x.names, '\u1680' ∉ n.chars) (d : Dtd) :
      decls.foldl (declare es) d = ds.foldl Declared.addTo d := by
    induction hdecls generalizing d with
    | nil => rfl
    | cons hx _ ih =>
      obtain ⟨hnames, hmark⟩ := List.forall_mem_cons.1 hmark
      rw [List.foldl_cons, List.foldl_cons, declare_eq hx.1 hx.2 hnames, ih hmark]
  exact hfold (forall₂_declarations h.stripped) hmark {}

theorem declaresElement_foldl (ds : List Declared) (d : Dtd) (name : String) :
    (ds.foldl Declared.addTo d).declaresElement name = true ↔
      (∃ n model, Declared.element n model ∈ ds ∧ n.text = name) ∨ d.declaresElement name = true := by
  induction ds generalizing d with
  | nil => simp
  | cons x ds ih =>
    rw [List.foldl_cons, ih]
    cases x with
    | element n model =>
      have hadd : ((Declared.element n model).addTo d).declaresElement name = true ↔
          n.text = name ∨ d.declaresElement name = true := by
        simp [Declared.addTo, declaresElement, eq_comm (a := name)]
      have hlisted : (∃ o model', Declared.element o model' ∈ Declared.element n model :: ds ∧ o.text = name) ↔
          n.text = name ∨ ∃ o model', Declared.element o model' ∈ ds ∧ o.text = name := by
        simp only [List.mem_cons, Declared.element.injEq, or_and_right, exists_or, and_assoc, exists_eq_left,
          exists_and_left]
      rw [hadd, hlisted, or_left_comm, or_assoc]
    | attributes owner defs => simp [Declared.addTo, declaresElement]

theorem declaresAttribute_foldl (ds : List Declared) (d : Dtd) (owner name : String) :
    (ds.foldl Declared.addTo d).declaresAttribute owner name = true ↔
      (∃ o defs, Declared.attributes o defs ∈ ds ∧ o.text = owner ∧ ∃ a ∈ defs, a.name.text = name) ∨
        d.declaresAttribute owner name = true := by
  induction ds generalizing d with
  | nil => simp
  | cons x ds ih =>
    rw [List.foldl_cons, ih]
    cases x with
    | element n model => simp [Declared.addTo, declaresAttribute]
    | attributes o defs => simp [Declared.addTo, declaresAttribute, or_and_right, exists_or, or_assoc, or_left_comm]

/-- **A definition declares just what its text lists**, with whatever white space and comments it is written, if no name
has an Ogham space mark. -/
theorem declares_read {ds : List Declared} {text : String} (h : Lists Filler ds text.toList)
    (hmark : ∀ x ∈ ds, ∀ n ∈ x.names, '\u1680' ∉ n.chars) : (read text).Declares ds := by
  rw [read_eq h hmark]
  refine ⟨fun name => ?_, fun owner name => ?_⟩
  · rw [declaresElement_foldl]
    exact or_iff_left Bool.false_ne_true
  · rw [declaresAttribute_foldl]
    exact or_iff_left Bool.false_ne_true

theorem declares_read_of_comment :
    let a : Xml.Name := ⟨'a', [], by decide, by decide⟩
    let x : AttributeDef := ⟨⟨'x', [], by decide, by decide⟩, .group ⟨"p|q".toList, by decide⟩,
      .value ⟨'\'', ['p'], by decide, by decide⟩⟩
    let y : AttributeDef := ⟨⟨'y', [], by decide, by decide⟩, .notations ⟨['g'], by decide⟩,
      .fixed ⟨'"', ['>'], by decide, by decide⟩⟩
    (read "<!--'<!ELEMENT b (c)>--><!ELEMENT a (b | c)*><!ATTLIST a x (p|q) 'p' y NOTATION (g) #FIXED \">\">").Declares
      [.element a ⟨"(b | c)*".toList, by decide⟩, .attributes a [x, y]] := by
  intro a x y
  have hblank : isBlank ' ' = true := by decide
  have hcomment : Filler ("<!--".toList ++ ("'<!ELEMENT b (c)>".toList ++ ("-->".toList ++ []))) :=
    .comment (fun h => absurd (h.subset List.mem_cons_self) (by decide : '-' ∉ "'<!ELEMENT b (c)>".toList)) .nil
  have hnil : Spaced [] [] := .nil fun _ hc => absurd hc List.not_mem_nil
  have helement : Spaced (Declared.element a ⟨"(b | c)*".toList, by decide⟩).tokens " a (b | c)*".toList :=
    .cons_blank hblank (.cons_blank hblank hnil)
  have hattributes : Spaced (Declared.attributes a [x, y]).tokens
      " a x (p|q) 'p' y NOTATION (g) #FIXED \">\"".toList := by
    iterate 9 refine .cons_blank hblank ?_
    exact hnil
  have hwritten : Lists Filler [_, _] _ := .cons hcomment helement (.cons .nil hattributes (.nil .nil))
  refine declares_read hwritten ?_
  simp [x, y, a, Declared.names, Xml.Name.chars]

theorem read_declared {d : Declared} {body : List Char} (h : Spaced d.tokens body) {text : String}
    (htext : text.toList = '<' :: '!' :: (d.keyword ++ (body ++ ['>']))) :
    read text = declare [] {} ⟨d.keyword, body⟩ := by
  have hdecls : declarations (stripComments text.toList) = [⟨d.keyword, body⟩] := by
    rw [htext, stripComments_declared h, stripComments_nil, declarations_declared h, declarations_nil]
  have hword : d.keyword ≠ "ENTITY".toList := by
    rcases d.keyword_cases with hk | hk <;> rw [hk] <;> decide
  have hentity : entity? ⟨d.keyword, body⟩ = none := if_neg hword
  rw [read, hdecls, List.filterMap_cons_none hentity]
  rfl

/-- A name with an Ogham space mark is cut at it. -/
theorem not_declares_read :
    let name : Xml.Name := ⟨'a', ['\u1680', 'b'], by decide, by decide⟩
    let ds : List Declared := [.element name ⟨"EMPTY".toList, by decide⟩]
    Lists Filler ds "<!ELEMENT a\u1680b EMPTY>".toList ∧ ¬ (read "<!ELEMENT a\u1680b EMPTY>").Declares ds := by
  intro name ds
  have hblank : isBlank ' ' = true := by decide
  have hbody : Spaced (Declared.element name ⟨"EMPTY".toList, by decide⟩).tokens " a\u1680b EMPTY".toList :=
    .cons_blank hblank (.cons_blank hblank (.nil fun _ hc => absurd hc List.not_mem_nil))
  have hwritten : Lists Filler ds _ := .cons .nil hbody (.nil .nil)
  have hread : (read "<!ELEMENT a\u1680b EMPTY>").elements = ["a"] := by
    rw [read_declared hbody rfl, declare, expand_of_notMem [] (by decide)]
    rfl
  refine ⟨hwritten, fun h => ?_⟩
  have hdeclared := (h.element_iff "a\u1680b").2 ⟨name, _, List.mem_cons_self, rfl⟩
  rw [declaresElement, hread] at hdeclared
  cases hdeclared

end Dtd
end Bookbinder
