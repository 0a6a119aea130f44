import Bookbinder.Injection.Marker
import Bookbinder.Proofs.TrimmedText
/-!
# The grammar of markers

A marker is written in tokens with gaps between them (`Spells`): a keyword, a colon, and ids with commas between them
(`Renders`).  A comment is read as a marker exactly if it is such a text, blanks around it aside
(`read?_eq_some_iff`).
-/
namespace Bookbinder
namespace Marker

/-! ## Texts of tokens -/

/-- White space of any length, none included. -/
def Gap (ws : List Char) : Prop :=
  ∀ c ∈ ws, isGap c = true

instance (ws : List Char) : Decidable (Gap ws) :=
  inferInstanceAs (Decidable (∀ c ∈ ws, isGap c = true))

/-- The texts that write a token.  Numbers may have leading zeros, and have to fit in 64 signed bits. -/
inductive Lexeme : List Char → Token → Prop
  | word {cs : List Char} : cs ≠ [] → (∀ c ∈ cs, c.isAlpha = true) → Lexeme cs (.word cs)
  | number {cs : List Char} : cs ≠ [] → (∀ c ∈ cs, c.isDigit = true) →
      Decimal.ofDigits cs < Decimal.signedLimit → Lexeme cs (.number (Decimal.ofDigits cs))
  | colon : Lexeme [':'] .colon
  | comma : Lexeme [','] .comma

/-- The texts that write tokens with gaps between them. -/
inductive Spells : List Char → List Token → Prop
  | last {cs : List Char} {t : Token} : Lexeme cs t → Spells cs [t]
  | cons {cs ws ds : List Char} {t : Token} {ts : List Token} : Lexeme cs t → Gap ws → Spells ds ts →
      Spells (cs ++ (ws ++ ds)) (t :: ts)

/-! ## Tokens of markers -/

/-- The tokens that name a topic. -/
inductive NamesId : List Token → MarkerId → Prop
  | required (n : Nat) : NamesId [.number n] ⟨n, false⟩
  | optional (n : Nat) : NamesId [.word ['O', 'P', 'T'], .colon, .number n] ⟨n, true⟩

/-- The tokens that name one or more topics, with commas between them and perhaps one after the last. -/
inductive NamesIds : List Token → List MarkerId → Prop
  | last {ts : List Token} {id : MarkerId} : NamesId ts id → NamesIds ts [id]
  | lastComma {ts : List Token} {id : MarkerId} : NamesId ts id → NamesIds (ts ++ [.comma]) [id]
  | cons {ts us : List Token} {id : MarkerId} {ids : List MarkerId} : NamesId ts id → NamesIds us ids →
      NamesIds (ts ++ .comma :: us) (id :: ids)

/-- The tokens of a marker. -/
def HasTokens (m : Marker) (ts : List Token) : Prop :=
  ∃ us, ts = .word m.kind.keyword.toList :: .colon :: us ∧ NamesIds us m.ids ∧
    (m.kind.takesOne = true → m.ids.length = 1)

/-- A text writes a marker. -/
def Renders (cs : List Char) (m : Marker) : Prop :=
  ∃ ts, Spells cs ts ∧ m.HasTokens ts

/-! ## Classes of characters -/

theorem isBlank_of_isGap {c : Char} (h : isGap c = true) : Text.isBlank c = true := by
  simp only [isGap, Bool.or_eq_true, beq_iff_eq] at h
  rcases h with (((rfl | rfl) | rfl) | rfl) | rfl <;> decide

theorem Gap.nil : Gap [] :=
  fun _ h => absurd h List.not_mem_nil

theorem Gap.append {ws ws' : List Char} (h : Gap ws) (h' : Gap ws') : Gap (ws ++ ws') :=
  fun c hc => (List.mem_append.1 hc).elim (h c) (h' c)

theorem not_isDigit_of_isAlpha {c : Char} (h : c.isAlpha = true) : c.isDigit = false := by
  rw [Bool.eq_false_iff]
  intro hdigit
  have hletter := Text.toNat_of_isAlpha h
  have hcode := Text.toNat_of_isDigit hdigit
  omega

/-- What a token's text may be followed by without becoming longer. -/
def Token.Stops : Token → List Char → Prop
  | .word _, rest => ∀ c ∈ rest.head?, c.isAlpha = false
  | .number _, rest => ∀ c ∈ rest.head?, c.isDigit = false
  | .colon, _ | .comma, _ => True

/-- Whether two tokens may stand side by side: words would run together, and so would numbers. -/
def Token.Apart : Token → Token → Prop
  | .word _, .word _ | .number _, .number _ => False
  | _, _ => True

@[simp]
theorem Token.colon_apart (t : Token) : Token.colon.Apart t := trivial

@[simp]
theorem Token.comma_apart (t : Token) : Token.comma.Apart t := trivial

@[simp]
theorem Token.apart_colon (t : Token) : t.Apart .colon := by cases t <;> trivial

@[simp]
theorem Token.apart_comma (t : Token) : t.Apart .comma := by cases t <;> trivial

/-- There is no blank in the text of a token. -/
theorem Lexeme.not_isBlank {cs : List Char} {t : Token} (h : Lexeme cs t) : ∀ c ∈ cs, Text.isBlank c = false := by
  cases h with
  | word _ hall => exact fun c hc => Text.not_isBlank_of_isAlphanum (by rw [Char.isAlphanum, hall c hc]; rfl)
  | number _ hall _ =>
    exact fun c hc => Text.not_isBlank_of_isAlphanum (by rw [Char.isAlphanum, hall c hc, Bool.or_true])
  | colon => exact fun c hc => by rw [List.mem_singleton.1 hc]; decide
  | comma => exact fun c hc => by rw [List.mem_singleton.1 hc]; decide

theorem Lexeme.ne_nil {cs : List Char} {t : Token} (h : Lexeme cs t) : cs ≠ [] := by
  cases h <;> first | assumption | exact List.cons_ne_nil _ _

/-! ## Reading tokens -/

theorem tokens?_gap {ws : List Char} (h : Gap ws) (rest : List Char) : tokens? (ws ++ rest) = tokens? rest := by
  induction ws with
  | nil => rfl
  | cons c ws ih =>
    rw [List.cons_append, tokens?, if_pos (h c List.mem_cons_self)]
    exact ih fun d hd => h d (List.mem_cons_of_mem c hd)

theorem not_isGap_of_isAlphanum {c : Char} (h : c.isAlphanum = true) : ¬ isGap c = true := fun hgap =>
  absurd (isBlank_of_isGap hgap) (by rw [Text.not_isBlank_of_isAlphanum h]; exact Bool.false_ne_true)

theorem tokens?_digit {c : Char} (hc : c.isDigit = true) (cs : List Char) : tokens? (c :: cs) =
    if Decimal.ofDigits (c :: cs.takeWhile Char.isDigit) < Decimal.signedLimit then
      (tokens? (cs.dropWhile Char.isDigit)).map (.number (Decimal.ofDigits (c :: cs.takeWhile Char.isDigit)) :: ·)
    else none := by
  have hgap := not_isGap_of_isAlphanum (c := c) (by rw [Char.isAlphanum, hc, Bool.or_true])
  have hcolon : c ≠ ':' := by rintro rfl; exact absurd hc (by decide)
  have hcomma : c ≠ ',' := by rintro rfl; exact absurd hc (by decide)
  rw [tokens?, if_neg hgap, if_neg hcolon, if_neg hcomma, if_pos hc]

theorem tokens?_letter {c : Char} (hc : c.isAlpha = true) (cs : List Char) : tokens? (c :: cs) =
    (tokens? (cs.dropWhile Char.isAlpha)).map (.word (c :: cs.takeWhile Char.isAlpha) :: ·) := by
  have hgap := not_isGap_of_isAlphanum (c := c) (by rw [Char.isAlphanum, hc]; rfl)
  have hcolon : c ≠ ':' := by rintro rfl; exact absurd hc (by decide)
  have hcomma : c ≠ ',' := by rintro rfl; exact absurd hc (by decide)
  have hdigit : ¬ c.isDigit = true := by rw [not_isDigit_of_isAlpha hc]; exact Bool.false_ne_true
  rw [tokens?, if_neg hgap, if_neg hcolon, if_neg hcomma, if_neg hdigit, if_pos hc]

/-- **A token is read as far as it goes.** -/
theorem tokens?_lexeme {cs rest : List Char} {t : Token} (h : Lexeme cs t) (hstop : t.Stops rest) :
    tokens? (cs ++ rest) = (tokens? rest).map (t :: ·) := by
  cases h with
  | colon => rw [List.singleton_append, tokens?, if_neg (by decide), if_pos rfl]
  | comma => rw [List.singleton_append, tokens?, if_neg (by decide), if_neg (by decide), if_pos rfl]
  | number hne hall hfits =>
    obtain ⟨c, cs, rfl⟩ := List.exists_cons_of_ne_nil hne
    have hcs : ∀ d ∈ cs, d.isDigit = true := fun d hd => hall d (List.mem_cons_of_mem c hd)
    rw [List.cons_append, tokens?_digit (hall c List.mem_cons_self), List.takeWhile_append_of_pos hcs,
      List.dropWhile_append_of_pos hcs, Text.takeWhile_eq_nil hstop, Text.dropWhile_eq_self hstop, List.append_nil,
      if_pos hfits]
  | word hne hall =>
    obtain ⟨c, cs, rfl⟩ := List.exists_cons_of_ne_nil hne
    have hcs : ∀ d ∈ cs, d.isAlpha = true := fun d hd => hall d (List.mem_cons_of_mem c hd)
    rw [List.cons_append, tokens?_letter (hall c List.mem_cons_self), List.takeWhile_append_of_pos hcs,
      List.dropWhile_append_of_pos hcs, Text.takeWhile_eq_nil hstop, Text.dropWhile_eq_self hstop, List.append_nil]

theorem Gap.stops {ws : List Char} (h : Gap ws) (hne : ws ≠ []) (rest : List Char) (t : Token) :
    t.Stops (ws ++ rest) := by
  obtain ⟨c, ws, rfl⟩ := List.exists_cons_of_ne_nil hne
  have hc : ¬ c.isAlphanum = true := fun halphanum => not_isGap_of_isAlphanum halphanum (h c List.mem_cons_self)
  rw [Char.isAlphanum, Bool.or_eq_true, not_or, Bool.not_eq_true, Bool.not_eq_true] at hc
  cases t with
  | word _ => exact fun d hd => Option.some.inj hd ▸ hc.1
  | number _ => exact fun d hd => Option.some.inj hd ▸ hc.2
  | colon => trivial
  | comma => trivial

theorem Lexeme.stops {cs : List Char} {t u : Token} (h : Lexeme cs u) (hapart : t.Apart u) (rest : List Char) :
    t.Stops (cs ++ rest) := by
  obtain ⟨c, cs, rfl⟩ := List.exists_cons_of_ne_nil h.ne_nil
  cases t with
  | colon => trivial
  | comma => trivial
  | word _ =>
    refine fun d hd => Option.some.inj hd ▸ ?_
    cases h with
    | word => exact hapart.elim
    | number _ hall _ =>
      rw [Bool.eq_false_iff]
      intro hc
      exact absurd (hall c List.mem_cons_self) (by rw [not_isDigit_of_isAlpha hc]; exact Bool.false_ne_true)
    | colon => decide
    | comma => decide
  | number _ =>
    refine fun d hd => Option.some.inj hd ▸ ?_
    cases h with
    | word _ hall => exact not_isDigit_of_isAlpha (hall c List.mem_cons_self)
    | number => exact hapart.elim
    | colon => decide
    | comma => decide

/-- What is spelled begins with the text of the first token. -/
theorem Spells.exists_lexeme {cs : List Char} {ts : List Token} (h : Spells cs ts) :
    ∃ ds rest t us, cs = ds ++ rest ∧ ts = t :: us ∧ Lexeme ds t := by
  cases h with
  | @last _ t hlex => exact ⟨cs, [], t, [], (List.append_nil cs).symm, rfl, hlex⟩
  | @cons ds ws rest t us hlex _ _ => exact ⟨ds, ws ++ rest, t, us, rfl, rfl, hlex⟩

/-- **Tokens that keep apart are read from every text that spells them.** -/
theorem tokens?_of_spells {cs : List Char} {ts : List Token} (h : Spells cs ts) (hapart : ts.IsChain Token.Apart) :
    tokens? cs = some ts := by
  induction h with
  | @last cs t hlex =>
    have hstop : t.Stops [] := by cases t <;> first | trivial | exact fun _ h => by cases h
    rw [← List.append_nil cs, tokens?_lexeme hlex hstop, tokens?]
    rfl
  | @cons cs ws ds t ts hlex hgap hrest ih =>
    obtain ⟨cs', rest, u, us, rfl, rfl, hnext⟩ := hrest.exists_lexeme
    have hstop : t.Stops (ws ++ (cs' ++ rest)) := by
      by_cases hws : ws = []
      · subst hws
        exact hnext.stops (List.isChain_cons_cons.1 hapart).1 rest
      · exact hgap.stops hws (cs' ++ rest) t
    rw [tokens?_lexeme hlex hstop, tokens?_gap hgap, ih (List.isChain_cons_cons.1 hapart).2]
    rfl

/-- Tokens with gaps between them, before the first and after the last. -/
def Spaced (cs : List Char) (ts : List Token) : Prop :=
  ∃ ws body ws', cs = ws ++ (body ++ ws') ∧ Gap ws ∧ Gap ws' ∧ (Spells body ts ∨ body = [] ∧ ts = [])

theorem Spaced.gap {c : Char} {cs : List Char} {ts : List Token} (hc : isGap c = true) (h : Spaced cs ts) :
    Spaced (c :: cs) ts := by
  obtain ⟨ws, body, ws', rfl, hws, hws', hbody⟩ := h
  exact ⟨c :: ws, body, ws', rfl, List.forall_mem_cons.2 ⟨hc, hws⟩, hws', hbody⟩

theorem Spaced.lexeme {cs ds : List Char} {t : Token} {ts : List Token} (hlex : Lexeme cs t) (h : Spaced ds ts) :
    Spaced (cs ++ ds) (t :: ts) := by
  obtain ⟨ws, body, ws', rfl, hws, hws', hbody | ⟨rfl, rfl⟩⟩ := h
  · exact ⟨[], cs ++ (ws ++ body), ws', by simp, Gap.nil, hws', .inl (.cons hlex hws hbody)⟩
  · exact ⟨[], cs, ws ++ ws', rfl, Gap.nil, hws.append hws', .inl (.last hlex)⟩

/-- **What is read is spelled by the text.** -/
theorem spaced_of_tokens? {cs : List Char} {ts : List Token} (h : tokens? cs = some ts) : Spaced cs ts := by
  fun_induction tokens? cs generalizing ts with
  | case1 =>
    cases h
    exact ⟨[], [], [], rfl, Gap.nil, Gap.nil, .inr ⟨rfl, rfl⟩⟩
  | case2 c cs hc ih => exact (ih h).gap hc
  | case3 cs _ ih =>
    obtain ⟨us, hus, rfl⟩ := Option.map_eq_some_iff.1 h
    exact (ih hus).lexeme .colon
  | case4 cs _ _ ih =>
    obtain ⟨us, hus, rfl⟩ := Option.map_eq_some_iff.1 h
    exact (ih hus).lexeme .comma
  | case5 c cs _ _ _ hc _ n hfits =>
    rename_i ih
    obtain ⟨us, hus, rfl⟩ := Option.map_eq_some_iff.1 h
    have hlex : Lexeme (c :: cs.takeWhile Char.isDigit) (.number n) :=
      .number (List.cons_ne_nil _ _) (List.forall_mem_cons.2 ⟨hc, fun _ hd => List.mem_takeWhile_imp hd⟩) hfits
    have hspaced := (ih hus).lexeme hlex
    rwa [List.cons_append, List.takeWhile_append_dropWhile] at hspaced
  | case6 => cases h
  | case7 c cs _ _ _ _ hc _ ih =>
    obtain ⟨us, hus, rfl⟩ := Option.map_eq_some_iff.1 h
    have hlex : Lexeme (c :: cs.takeWhile Char.isAlpha) (.word (c :: cs.takeWhile Char.isAlpha)) :=
      .word (List.cons_ne_nil _ _) (List.forall_mem_cons.2 ⟨hc, fun _ hd => List.mem_takeWhile_imp hd⟩)
    have hspaced := (ih hus).lexeme hlex
    rwa [List.cons_append, List.takeWhile_append_dropWhile] at hspaced
  | case8 => cases h

/-! ## Whole texts -/

/-- What tokens are spelled by has no blank at either end. -/
theorem Spells.ends {cs : List Char} {ts : List Token} (h : Spells cs ts) :
    (∀ c ∈ cs.head?, Text.isBlank c = false) ∧ ∀ c ∈ cs.getLast?, Text.isBlank c = false := by
  induction h with
  | last hlex =>
    exact ⟨fun c hc => hlex.not_isBlank c (List.mem_of_head? hc), fun c hc => hlex.not_isBlank c (List.mem_of_getLast? hc)⟩
  | @cons cs ws ds t ts hlex _ hrest ih =>
    obtain ⟨us, rest, u, _, rfl, -, hnext⟩ := hrest.exists_lexeme
    have hne : us ++ rest ≠ [] := List.append_ne_nil_of_left_ne_nil hnext.ne_nil rest
    refine ⟨fun c hc => hlex.not_isBlank c (List.mem_of_head? ?_), fun c hc => ih.2 c ?_⟩
    · rwa [List.head?_append_of_ne_nil _ hlex.ne_nil] at hc
    · rwa [← List.append_assoc, List.getLast?_append_of_ne_nil _ hne] at hc

/-- A text without blanks at its ends is spelled without gaps there. -/
theorem Spaced.spells {cs : List Char} {ts : List Token} (h : Spaced cs ts) (hne : ts ≠ [])
    (hhead : ∀ c ∈ cs.head?, Text.isBlank c = false) (hlast : ∀ c ∈ cs.getLast?, Text.isBlank c = false) :
    Spells cs ts := by
  obtain ⟨ws, body, ws', rfl, hws, hws', hbody⟩ := h
  have hspells : Spells body ts := hbody.resolve_right fun hnil => hne hnil.2
  have hlead : ws = [] := by
    by_contra hws_ne
    obtain ⟨c, ws, rfl⟩ := List.exists_cons_of_ne_nil hws_ne
    exact absurd (isBlank_of_isGap (hws c List.mem_cons_self)) (by rw [hhead c rfl]; exact Bool.false_ne_true)
  have htail : ws' = [] := by
    by_contra hws_ne
    have hmem : ws'.getLast hws_ne ∈ (ws ++ (body ++ ws')).getLast? := by
      rw [← List.append_assoc, List.getLast?_append_of_ne_nil _ hws_ne]
      exact List.getLast?_eq_some_getLast hws_ne
    exact absurd (isBlank_of_isGap (hws' _ (List.getLast_mem hws_ne))) (by rw [hlast _ hmem]; exact Bool.false_ne_true)
  rw [hlead, htail, List.nil_append, List.append_nil]
  exact hspells

/-- **The tokens of a trimmed text are those it spells**, if they keep apart. -/
theorem tokens?_eq_some_iff {cs : List Char} {ts : List Token} (hne : ts ≠ []) (hapart : ts.IsChain Token.Apart)
    (hhead : ∀ c ∈ cs.head?, Text.isBlank c = false) (hlast : ∀ c ∈ cs.getLast?, Text.isBlank c = false) :
    tokens? cs = some ts ↔ Spells cs ts :=
  ⟨fun h => (spaced_of_tokens? h).spells hne hhead hlast, fun h => tokens?_of_spells h hapart⟩

/-! ## Reading ids -/

theorem ids?_append {ts : List Token} {id : MarkerId} (h : NamesId ts id) (us : List Token) :
    ids? (ts ++ us) = ids?.more id us := by
  cases h <;> rfl

theorem more_comma {ts : List Token} {id : MarkerId} (h : NamesId ts id) (first : MarkerId) (us : List Token) :
    ids?.more first (.comma :: (ts ++ us)) = (ids?.more id us).map (first :: ·) := by
  cases h <;> rfl

theorem NamesIds.exists_namesId {ts : List Token} {ids : List MarkerId} (h : NamesIds ts ids) :
    ∃ us id rest, ts = us ++ rest ∧ NamesId us id := by
  cases h with
  | last hid => exact ⟨ts, _, [], (List.append_nil ts).symm, hid⟩
  | lastComma hid => exact ⟨_, _, _, rfl, hid⟩
  | cons hid _ => exact ⟨_, _, _, rfl, hid⟩

theorem namesIds_of_more {id : MarkerId} {us : List Token} {ids : List MarkerId} (h : ids?.more id us = some ids) :
    ∀ ts, NamesId ts id → NamesIds (ts ++ us) ids := by
  fun_induction ids?.more id us generalizing ids with
  | case1 id =>
    intro ts hid
    cases h
    rw [List.append_nil]
    exact .last hid
  | case2 id =>
    intro ts hid
    cases h
    exact .lastComma hid
  | case3 id n us ih =>
    intro ts hid
    obtain ⟨rest, hrest, rfl⟩ := Option.map_eq_some_iff.1 h
    exact .cons hid (ih hrest _ (.optional n))
  | case4 id n us ih =>
    intro ts hid
    obtain ⟨rest, hrest, rfl⟩ := Option.map_eq_some_iff.1 h
    exact .cons hid (ih hrest _ (.required n))
  | case5 => cases h

theorem ids?_eq_some_iff {ts : List Token} {ids : List MarkerId} : ids? ts = some ids ↔ NamesIds ts ids := by
  constructor
  · intro h
    unfold ids? at h
    split at h
    · exact namesIds_of_more h _ (.optional _)
    · exact namesIds_of_more h _ (.required _)
    · cases h
  · intro h
    induction h with
    | @last ts id hid => rw [← List.append_nil ts, ids?_append hid, ids?.more]
    | lastComma hid => rw [ids?_append hid, ids?.more]
    | cons hid hrest ih =>
      obtain ⟨us, id', rest, rfl, hid'⟩ := hrest.exists_namesId
      rw [ids?_append hid, more_comma hid', ← ids?_append hid', ih]
      rfl

/-! ## Reading markers -/

theorem ofKeyword?_eq_some_iff {letters : List Char} {kind : MarkerKind} :
    MarkerKind.ofKeyword? (String.ofList letters) = some kind ↔ letters = kind.keyword.toList := by
  constructor
  · intro h
    have hword := List.find?_some h
    rw [beq_iff_eq] at hword
    rw [hword, String.toList_ofList]
  · rintro rfl
    rw [String.ofList_toList]
    cases kind <;> decide

theorem ofTokens?_eq_some_iff {ts : List Token} {m : Marker} : ofTokens? ts = some m ↔ m.HasTokens ts := by
  constructor
  · intro h
    unfold ofTokens? at h
    split at h
    · rename_i letters us
      obtain ⟨kind, hkind, h⟩ := Option.bind_eq_some_iff.1 h
      obtain ⟨ids, hids, h⟩ := Option.bind_eq_some_iff.1 h
      split at h
      · cases h
      · rename_i hcount
        cases h
        refine ⟨us, by rw [ofKeyword?_eq_some_iff.1 hkind], ids?_eq_some_iff.1 hids, fun hone => ?_⟩
        simpa [hone] using hcount
    · cases h
  · rintro ⟨us, rfl, hids, hcount⟩
    have hkind : MarkerKind.ofKeyword? (String.ofList m.kind.keyword.toList) = some m.kind :=
      ofKeyword?_eq_some_iff.2 rfl
    have hfits : ¬ (m.kind.takesOne && m.ids.length != 1) = true := by simpa using hcount
    simp only [ofTokens?, hkind, ids?_eq_some_iff.2 hids, Option.bind_eq_bind, Option.bind_some, if_neg hfits]

/-- What keeps apart from a separator may stand behind an id. -/
theorem NamesId.isChain {ts us : List Token} {id : MarkerId} (h : NamesId ts id) {t : Token} (ht : ∀ u, t.Apart u)
    (hus : (Token.comma :: us).IsChain Token.Apart) : (t :: (ts ++ .comma :: us)).IsChain Token.Apart := by
  cases h <;> simp [ht, hus]

/-- The tokens of ids keep apart, and any separator may stand before them. -/
theorem NamesIds.isChain {ts : List Token} {ids : List MarkerId} (h : NamesIds ts ids) {t : Token}
    (ht : ∀ u, t.Apart u) : (t :: ts).IsChain Token.Apart := by
  induction h generalizing t with
  | last hid => cases hid <;> simp [ht]
  | lastComma hid => exact hid.isChain ht (.singleton _)
  | cons hid _ ih => exact hid.isChain ht (ih Token.comma_apart)

theorem HasTokens.isChain {m : Marker} {ts : List Token} (h : m.HasTokens ts) : ts.IsChain Token.Apart := by
  obtain ⟨us, rfl, hids, -⟩ := h
  exact List.isChain_cons_cons.2 ⟨Token.apart_colon _, hids.isChain Token.colon_apart⟩

theorem HasTokens.ne_nil {m : Marker} {ts : List Token} (h : m.HasTokens ts) : ts ≠ [] := by
  obtain ⟨us, rfl, -, -⟩ := h
  exact List.cons_ne_nil _ _

/-- A text that is trimmed is read as the marker that it renders. -/
theorem read_trimmed_iff {cs : List Char} {m : Marker} (hcs : Text.trimChars cs = cs) :
    (tokens? cs).bind ofTokens? = some m ↔ Renders cs m := by
  obtain ⟨hhead, hlast⟩ := Text.trimChars_eq_self_iff.1 hcs
  constructor
  · intro h
    obtain ⟨ts, hts, hm⟩ := Option.bind_eq_some_iff.1 h
    have htokens := ofTokens?_eq_some_iff.1 hm
    exact ⟨ts, (tokens?_eq_some_iff htokens.ne_nil htokens.isChain hhead hlast).1 hts, htokens⟩
  · rintro ⟨ts, hts, hm⟩
    exact Option.bind_eq_some_iff.2
      ⟨ts, (tokens?_eq_some_iff hm.ne_nil hm.isChain hhead hlast).2 hts, ofTokens?_eq_some_iff.2 hm⟩

theorem Renders.trimChars_eq {cs : List Char} {m : Marker} (h : Renders cs m) : Text.trimChars cs = cs := by
  obtain ⟨ts, hts, -⟩ := h
  exact Text.trimChars_eq_self_iff.2 hts.ends

/-- **A comment is a marker exactly if it renders one**, blanks around it aside: a keyword, a colon and one or more ids
with commas between them, just one if the keyword takes no more.  So every rendering of a marker is read as it. -/
theorem read?_eq_some_iff (comment : String) (m : Marker) :
    (read? comment = some m ↔ Renders (Text.trimChars comment.toList) m) ∧
      (Renders comment.toList m → read? comment = some m) := by
  have hread : read? comment = some m ↔ Renders (Text.trimChars comment.toList) m :=
    read_trimmed_iff (Text.trimChars_trimChars comment.toList)
  exact ⟨hread, fun h => hread.2 (by rwa [h.trimChars_eq])⟩

/-- Leading zeros, gaps and a last comma are all allowed. -/
theorem read?_sequence : read? "InjectList: 012,\tOPT:15 ," = some ⟨.list, [⟨12, false⟩, ⟨15, true⟩]⟩ := by
  have hword : Lexeme "InjectList".toList (.word "InjectList".toList) := .word (by decide) (by decide)
  have hopt : Lexeme ['O', 'P', 'T'] (.word ['O', 'P', 'T']) := .word (by decide) (by decide)
  have htwelve : Lexeme ['0', '1', '2'] (.number 12) := .number (by decide) (by decide) (by decide)
  have hfifteen : Lexeme ['1', '5'] (.number 15) := .number (by decide) (by decide) (by decide)
  have hspace : Gap [' '] := by decide
  have htab : Gap ['\t'] := by decide
  have hids := Spells.cons htwelve Gap.nil (.cons .comma htab (.cons hopt Gap.nil (.cons .colon Gap.nil
    (.cons hfifteen hspace (.last .comma)))))
  exact (read?_eq_some_iff _ _).2 ⟨_, .cons hword Gap.nil (.cons .colon hspace hids), _, rfl,
    .cons (.required 12) (.lastComma (.optional 15)), by decide⟩

end Marker
end Bookbinder
