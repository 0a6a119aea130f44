import Bookbinder.Proofs.DtdTexts
import Bookbinder.Proofs.XmlWriting
/-!
# Tokens of declarations

Every reader of a declaration goes over a token as a whole: none takes a `>` in a quoted value for the end (`Quiet`),
and none cuts a value or a group at the white space in it (`Whole`).  So a declaration ends where it should
(`Spaced.tag`), and its tokens are those it was written with (`Spaced.tokenize_eq`).
-/
namespace Bookbinder

namespace Text

theorem ne_of_isBlank {c d : Char} (hc : isBlank c = true) (hd : isBlank d = false) : c ≠ d := by
  rintro rfl
  rw [hc] at hd
  cases hd

end Text

namespace Dtd

open Text (isBlank ne_of_isBlank)

/-! ## Going over tokens -/

/-- A text that hides nothing and that no declaration ends in. -/
structure Quiet (t : List Char) : Prop where
  free : ∀ c ∈ t, c ≠ '<' ∧ c ≠ '%'
  tag : ∀ {rest a r : List Char}, Xml.Markup.tag none rest = .ok (a, r) →
    Xml.Markup.tag none (t ++ rest) = .ok (t ++ a, r)

/-- A text that is not cut where tokens are. -/
structure Whole (t : List Char) : Prop where
  ne_nil : t ≠ []
  tokens : ∀ current rest : List Char, tokens none 0 current (t ++ rest) = tokens none 0 (t.reverse ++ current) rest

theorem ne_of_isInert {c : Char} (h : isInert c = true) : c ≠ '"' ∧ c ≠ '\'' ∧ c ≠ '<' ∧ c ≠ '>' ∧ c ≠ '%' := by
  simpa [isInert] using h

theorem ne_of_isPlain {c : Char} (h : isPlain c = true) : isInert c = true ∧ c ≠ '(' ∧ c ≠ ')' := by
  simpa [isPlain, and_assoc] using h

theorem quiet_of_inert {t : List Char} (h : ∀ c ∈ t, isInert c = true) : Quiet t where
  free c hc := ⟨(ne_of_isInert (h c hc)).2.2.1, (ne_of_isInert (h c hc)).2.2.2.2⟩
  tag := Xml.Markup.tag_append_of_plain fun c hc =>
    ⟨(ne_of_isInert (h c hc)).2.2.2.1, (ne_of_isInert (h c hc)).1, (ne_of_isInert (h c hc)).2.1⟩

/-- A character that means nothing goes to the token that is being read. -/
theorem tokens_cons {c : Char} (h : isPlain c = true) {depth : Nat} (hblank : isBlank c = false ∨ depth ≠ 0)
    (current cs : List Char) : tokens none depth current (c :: cs) = tokens none depth (c :: current) cs := by
  obtain ⟨hinert, hopen, hclose⟩ := ne_of_isPlain h
  obtain ⟨hdouble, hsingle, -⟩ := ne_of_isInert hinert
  have hstays : ¬ (isBlank c && depth == 0) = true := by
    rcases hblank with hblank | hdepth
    · simp [hblank]
    · simp [hdepth]
  rw [tokens, if_neg (by simp [hdouble, hsingle]), if_neg hopen, if_neg hclose, if_neg hstays]

theorem tokens_append {cs : List Char} {depth : Nat}
    (h : ∀ c ∈ cs, isPlain c = true ∧ (isBlank c = false ∨ depth ≠ 0)) (current rest : List Char) :
    tokens none depth current (cs ++ rest) = tokens none depth (cs.reverse ++ current) rest := by
  induction cs generalizing current with
  | nil => rfl
  | cons c cs ih =>
    obtain ⟨hc, hblank⟩ := h c List.mem_cons_self
    rw [List.cons_append, tokens_cons hc hblank, ih fun d hd => h d (List.mem_cons_of_mem c hd), List.reverse_cons,
      List.append_assoc, List.singleton_append]

theorem whole_of_plain {t : List Char} (hne : t ≠ []) (h : ∀ c ∈ t, isPlain c = true ∧ isBlank c = false) : Whole t :=
  ⟨hne, tokens_append fun c hc => ⟨(h c hc).1, .inl (h c hc).2⟩⟩

theorem quiet_literal (l : Literal) : Quiet l.chars where
  free c hc := by
    rcases List.mem_cons.1 hc with rfl | hc
    · rcases l.quotes with hq | hq <;> rw [hq] <;> decide
    · rcases List.mem_append.1 hc with hc | hc
      · exact (l.free c hc).2
      · rw [List.mem_singleton.1 hc]
        rcases l.quotes with hq | hq <;> rw [hq] <;> decide
  tag {rest a r} h := by
    have hvalue : l.quote ∉ l.value := fun hm => (l.free _ hm).1 rfl
    have hrest := Xml.Markup.tag_append_quoted hvalue h
    have hopen : l.quote ≠ '>' := by rcases l.quotes with hq | hq <;> rw [hq] <;> decide
    rw [Literal.chars, List.cons_append, List.append_assoc, List.singleton_append, Xml.Markup.tag, if_pos l.quotes,
      hrest]
    · simp
    · exact hopen

/-- In a quoted value everything up to the quote that ends it belongs to the token. -/
theorem tokens_quoted {q : Char} {cs : List Char} (h : q ∉ cs) (current rest : List Char) :
    tokens (some q) 0 current (cs ++ q :: rest) = tokens none 0 (q :: (cs.reverse ++ current)) rest := by
  induction cs generalizing current with
  | nil => rw [List.nil_append, tokens, if_pos rfl, List.reverse_nil, List.nil_append]
  | cons c cs ih =>
    rw [List.mem_cons, not_or] at h
    rw [List.cons_append, tokens, if_neg (Ne.symm h.1), ih h.2, List.reverse_cons, List.append_assoc,
      List.singleton_append]

theorem whole_literal (l : Literal) : Whole l.chars where
  ne_nil := List.cons_ne_nil _ _
  tokens current rest := by
    have hvalue : l.quote ∉ l.value := fun hm => (l.free _ hm).1 rfl
    rw [Literal.chars, List.cons_append, List.append_assoc, List.singleton_append, tokens, if_pos l.quotes,
      tokens_quoted hvalue]
    simp

theorem quiet_group (g : Group) : Quiet g.chars := by
  refine quiet_of_inert fun c hc => ?_
  rcases List.mem_cons.1 hc with rfl | hc
  · decide
  · rcases List.mem_append.1 hc with hc | hc
    · exact (ne_of_isPlain (g.plain c hc)).1
    · rw [List.mem_singleton.1 hc]
      decide

theorem whole_group (g : Group) : Whole g.chars where
  ne_nil := List.cons_ne_nil _ _
  tokens current rest := by
    rw [Group.chars, List.cons_append, List.append_assoc, List.singleton_append, tokens, if_neg (by decide),
      if_pos rfl, tokens_append fun c hc => ⟨g.plain c hc, .inr (Nat.succ_ne_zero 0)⟩, tokens, if_neg (by decide),
      if_neg (by decide), if_pos rfl]
    simp

theorem quiet_name (n : Xml.Name) : Quiet n.chars :=
  quiet_of_inert fun _ hc => (ne_of_isPlain (isPlain_of_continuesName (n.continuesName_of_mem hc))).1

theorem whole_name {n : Xml.Name} (h : '\u1680' ∉ n.chars) : Whole n.chars := by
  refine whole_of_plain (List.cons_ne_nil _ _) fun c hc => ?_
  have hcontinues := n.continuesName_of_mem hc
  refine ⟨isPlain_of_continuesName hcontinues, Bool.eq_false_iff.2 fun hblank => h ?_⟩
  rwa [← Xml.eq_of_continuesName_of_isBlank hcontinues hblank]

/-- A word of the language of definitions. -/
theorem quiet_whole_word {t : List Char} (hne : t ≠ [])
    (h : (t.all fun c => isPlain c && !isBlank c) = true) : Quiet t ∧ Whole t := by
  have hall : ∀ c ∈ t, isPlain c = true ∧ isBlank c = false := by simpa using h
  exact ⟨quiet_of_inert fun c hc => (ne_of_isPlain (hall c hc).1).1, whole_of_plain hne hall⟩

theorem quiet_whole_type (type : AttributeType) : ∀ t ∈ type.tokens, Quiet t ∧ Whole t := by
  cases type with
  | word w =>
    simp only [AttributeType.tokens, List.forall_mem_singleton]
    cases w <;> exact quiet_whole_word (by decide) (by decide)
  | group g =>
    simp only [AttributeType.tokens, List.forall_mem_singleton]
    exact ⟨quiet_group g, whole_group g⟩
  | notations g =>
    simp only [AttributeType.tokens, List.forall_mem_cons]
    exact ⟨quiet_whole_word (by decide) (by decide), ⟨quiet_group g, whole_group g⟩, fun _ h => by cases h⟩

theorem quiet_whole_rule (rule : DefaultRule) : ∀ t ∈ rule.tokens, Quiet t ∧ Whole t := by
  cases rule with
  | required =>
    simp only [DefaultRule.tokens, List.forall_mem_singleton]
    exact quiet_whole_word (by decide) (by decide)
  | implied =>
    simp only [DefaultRule.tokens, List.forall_mem_singleton]
    exact quiet_whole_word (by decide) (by decide)
  | value l =>
    simp only [DefaultRule.tokens, List.forall_mem_singleton]
    exact ⟨quiet_literal l, whole_literal l⟩
  | fixed l =>
    simp only [DefaultRule.tokens, List.forall_mem_cons]
    exact ⟨quiet_whole_word (by decide) (by decide), ⟨quiet_literal l, whole_literal l⟩, fun _ h => by cases h⟩

/-- Every token of a declaration is quiet, a content model too. -/
theorem Declared.quiet (d : Declared) : ∀ t ∈ d.tokens, Quiet t := by
  cases d with
  | element name model =>
    simp only [Declared.tokens, List.forall_mem_cons]
    exact ⟨quiet_name name, quiet_of_inert model.inert, fun _ h => by cases h⟩
  | attributes owner defs =>
    simp only [Declared.tokens, List.forall_mem_cons, List.mem_flatMap]
    refine ⟨quiet_name owner, ?_⟩
    rintro t ⟨a, -, ht⟩
    rcases List.mem_cons.1 ht with rfl | ht
    · exact quiet_name a.name
    · rcases List.mem_append.1 ht with ht | ht
      · exact (quiet_whole_type a.type t ht).1
      · exact (quiet_whole_rule a.rule t ht).1

/-- Every token of an attribute is whole if its name is. -/
theorem AttributeDef.whole {a : AttributeDef} (h : '\u1680' ∉ a.name.chars) : ∀ t ∈ a.tokens, Whole t := by
  intro t ht
  rcases List.mem_cons.1 ht with rfl | ht
  · exact whole_name h
  · rcases List.mem_append.1 ht with ht | ht
    · exact (quiet_whole_type a.type t ht).2
    · exact (quiet_whole_rule a.rule t ht).2

/-! ## Cutting a declaration into tokens -/

namespace Spaced

variable {ts : List (List Char)} {cs : List Char}

/-- No comment begins in such a text, and no reference. -/
theorem free (h : Spaced ts cs) (hts : ∀ t ∈ ts, Quiet t) : '<' ∉ cs ∧ '%' ∉ cs := by
  have hgap {ws : List Char} (hws : Gap ws) : '<' ∉ ws ∧ '%' ∉ ws :=
    ⟨fun hm => ne_of_isBlank (hws '<' hm) (by decide) rfl, fun hm => ne_of_isBlank (hws '%' hm) (by decide) rfl⟩
  induction h with
  | nil hws => exact hgap hws
  | @cons ws t cs ts _ hws _ ih =>
    obtain ⟨ht, hts⟩ := List.forall_mem_cons.1 hts
    have htoken : '<' ∉ t ∧ '%' ∉ t := ⟨fun hm => (ht.free '<' hm).1 rfl, fun hm => (ht.free '%' hm).2 rfl⟩
    simp [hgap hws, htoken, ih hts]

theorem starts_blank (h : Spaced ts cs) : ∀ c ∈ cs.head?, isBlank c = true := by
  cases h with
  | nil hgap => exact fun c hc => hgap c (List.mem_of_head? hc)
  | cons hne hgap _ =>
    intro c hc
    rw [List.head?_append_of_ne_nil _ hne] at hc
    exact hgap c (List.mem_of_head? hc)

theorem tag (h : Spaced ts cs) (hts : ∀ t ∈ ts, Quiet t) {rest a r : List Char}
    (hrest : Xml.Markup.tag none rest = .ok (a, r)) : Xml.Markup.tag none (cs ++ rest) = .ok (cs ++ a, r) := by
  have hgap {ws rest a : List Char} (hws : Gap ws) (hrest : Xml.Markup.tag none rest = .ok (a, r)) :
      Xml.Markup.tag none (ws ++ rest) = .ok (ws ++ a, r) :=
    Xml.Markup.tag_append_of_plain (fun c hc => ⟨ne_of_isBlank (hws c hc) (by decide),
      ne_of_isBlank (hws c hc) (by decide), ne_of_isBlank (hws c hc) (by decide)⟩) hrest
  induction h with
  | nil hws => exact hgap hws hrest
  | cons _ hws _ ih =>
    obtain ⟨ht, hts⟩ := List.forall_mem_cons.1 hts
    simp only [List.append_assoc]
    exact hgap hws (ht.tag (ih hts))

end Spaced

theorem tokens_blank {c : Char} (hc : isBlank c = true) (current cs : List Char) : tokens none 0 current (c :: cs)
    = if current.isEmpty then tokenize cs else current.reverse :: tokenize cs := by
  have hne {d : Char} (hd : isBlank d = false) : c ≠ d := ne_of_isBlank hc hd
  rw [tokens, if_neg (by simp [hne (d := '"') (by decide), hne (d := '\'') (by decide)]), if_neg (hne (by decide)),
    if_neg (hne (by decide)), if_pos (by rw [hc]; rfl)]
  rfl

theorem tokenize_gap {ws : List Char} (h : Gap ws) (cs : List Char) : tokenize (ws ++ cs) = tokenize cs := by
  induction ws with
  | nil => rfl
  | cons c ws ih =>
    obtain ⟨hc, hws⟩ := List.forall_mem_cons.1 h
    rw [List.cons_append, tokenize, tokens_blank hc]
    exact ih hws

/-- **A whole token is read as such** before white space or the end. -/
theorem tokenize_cons {ws t cs : List Char} (hgap : Gap ws) (ht : Whole t) (h : ∀ c ∈ cs.head?, isBlank c = true) :
    tokenize (ws ++ (t ++ cs)) = t :: tokenize cs := by
  rw [tokenize_gap hgap, tokenize, ht.tokens, List.append_nil]
  have hne : t.reverse.isEmpty = false := by
    simpa using ht.ne_nil
  cases cs with
  | nil =>
    rw [tokens, hne, List.reverse_reverse]
    rfl
  | cons c cs =>
    have hc : isBlank c = true := h c rfl
    have hskip : tokenize (c :: cs) = tokenize cs := tokens_blank hc [] cs
    rw [tokens_blank hc, hne, List.reverse_reverse, hskip]
    rfl

theorem Spaced.tokenize_eq {ts : List (List Char)} {cs : List Char} (h : Spaced ts cs) (hts : ∀ t ∈ ts, Whole t) :
    tokenize cs = ts := by
  induction h with
  | nil hgap =>
    have hnil := tokenize_gap hgap []
    rwa [List.append_nil] at hnil
  | cons _ hgap hrest ih =>
    obtain ⟨ht, hts⟩ := List.forall_mem_cons.1 hts
    rw [tokenize_cons hgap ht hrest.starts_blank, ih hts]

end Dtd
end Bookbinder
