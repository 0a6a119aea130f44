import Bookbinder.Proofs.BackMatterPages
import Bookbinder.Proofs.DtdTexts
import Bookbinder.Proofs.ImagePlaces
/-!
# Declarations of entities

The entities of a book are declared in a file of their own, each with a value in quotes.  What is escaped there can stand
in content and in attribute values, but a value of an entity has rules of its own: a percent sign begins a reference to
a parameter entity.  So a reader finds the declarations, and content that refers to the entities reads as the texts, if
and only if the texts are writable (`Bindery.entities_read`).
-/
namespace Bookbinder

namespace Text

/-! ## Escaped texts -/

/-- **A character is escaped as itself, or as a reference to a predefined entity.** -/
theorem escapeChar_eq (c : Char) : (escapeChar c = [c] ∧ c ∉ predefined.map (·.2)) ∨
    ∃ e ∈ predefined, c = e.2 ∧ escapeChar c = '&' :: (e.1.toList ++ [';']) := by
  unfold escapeChar
  split
  · exact .inr ⟨("lt", '<'), by decide, rfl, by decide⟩
  · exact .inr ⟨("gt", '>'), by decide, rfl, by decide⟩
  · exact .inr ⟨("amp", '&'), by decide, rfl, by decide⟩
  · exact .inr ⟨("apos", '\''), by decide, rfl, by decide⟩
  · exact .inr ⟨("quot", '"'), by decide, rfl, by decide⟩
  · exact .inl ⟨rfl, by simp_all [predefined]⟩

/-- What is in an escaped text is in the text, unless it is of a reference. -/
theorem mem_or_mem_of_mem_escapeChars {cs : List Char} {d : Char} (h : d ∈ escapeChars cs) :
    (d ∈ cs ∧ d ∉ predefined.map (·.2)) ∨ ∃ e ∈ predefined, d ∈ '&' :: (e.1.toList ++ [';']) := by
  obtain ⟨c, hc, hd⟩ := List.mem_flatMap.1 h
  rcases escapeChar_eq c with ⟨he, hplain⟩ | ⟨e, he, -, hc'⟩
  · obtain rfl := List.mem_singleton.1 (he ▸ hd)
    exact .inl ⟨hc, hplain⟩
  · exact .inr ⟨e, he, hc' ▸ hd⟩

theorem angle_notMem_escapeChars (cs : List Char) : '>' ∉ escapeChars cs := fun h => by
  rcases mem_or_mem_of_mem_escapeChars h with ⟨-, h⟩ | ⟨e, he, h⟩
  · exact h (by decide)
  · exact absurd h ((show ∀ e ∈ predefined, '>' ∉ '&' :: (e.1.toList ++ [';']) by decide) e he)

/-- No escaped text refers to a character by its number. -/
theorem hash_notMem_escapeChars (cs : List Char) : ¬ ['&', '#'] <:+: escapeChars cs := by
  induction cs with
  | nil => simp [escapeChars]
  | cons c cs ih =>
    rw [escapeChars, List.flatMap_cons, ← escapeChars]
    rcases escapeChar_eq c with ⟨he, hplain⟩ | ⟨e, he, -, hc⟩
    · have hamp : '&' ≠ c := fun hc => hplain (by rw [← hc]; decide)
      simp [he, List.infix_cons_iff, hamp, ih]
    · simp only [predefined, List.mem_cons, List.not_mem_nil, or_false] at he
      rw [hc]
      rcases he with rfl | rfl | rfl | rfl | rfl <;> simp [List.infix_cons_iff, ih]

end Text

namespace Xml

/-! ## Lines of a file -/

/-- Lines as XML hands them on: they end in line feeds, whatever they end in in the file. -/
def unifyLines : List Char → List Char
  | [] => []
  | '\r' :: '\n' :: cs => '\n' :: unifyLines cs
  | '\r' :: cs => '\n' :: unifyLines cs
  | c :: cs => c :: unifyLines cs

theorem unifyLines_append {as : List Char} (h : '\r' ∉ as) (cs : List Char) :
    unifyLines (as ++ cs) = as ++ unifyLines cs := by
  induction as with
  | nil => rfl
  | cons a as ih =>
    rw [List.mem_cons, not_or] at h
    rw [List.cons_append, unifyLines, ih h.2, List.cons_append]
    · exact fun _ ha _ => h.1 ha.symm
    · exact fun ha => h.1 ha.symm

theorem unifyLines_of_notMem {cs : List Char} (h : '\r' ∉ cs) : unifyLines cs = cs := by
  rw [← List.append_nil cs, unifyLines_append h, unifyLines]

theorem return_notMem_unifyLines (cs : List Char) : '\r' ∉ unifyLines cs := by
  fun_induction unifyLines cs <;> simp_all [eq_comm]

theorem unifyLines_return {cs : List Char} (h : cs.head? ≠ some '\n') :
    unifyLines ('\r' :: cs) = '\n' :: unifyLines cs := by
  rw [unifyLines]
  rintro rest rfl
  exact h rfl

theorem head?_escapeChars_ne {cs rest : List Char} (h : cs.head? ≠ some '\n') (hrest : rest.head? ≠ some '\n') :
    (Text.escapeChars cs ++ rest).head? ≠ some '\n' := by
  cases cs with
  | nil => exact hrest
  | cons c cs =>
    rw [Text.escapeChars, List.flatMap_cons]
    rcases Text.escapeChar_eq c with ⟨hc, -⟩ | ⟨e, -, -, hc⟩
    · simpa [hc] using h
    · simp [hc]

theorem return_notMem_escapeChar {c : Char} (h : c ≠ '\r') : '\r' ∉ Text.escapeChar c := by
  rcases Text.escapeChar_eq c with ⟨hc, -⟩ | ⟨e, he, -, hc⟩
  · rw [hc, List.mem_singleton]
    exact h.symm
  · rw [hc]
    exact (show ∀ e ∈ Text.predefined, '\r' ∉ '&' :: (e.1.toList ++ [';']) by decide) e he

theorem unifyLines_escapeChars (cs : List Char) {rest : List Char} (h : rest.head? ≠ some '\n') :
    unifyLines (Text.escapeChars cs ++ rest) = Text.escapeChars (unifyLines cs) ++ unifyLines rest := by
  fun_induction unifyLines cs with
  | case1 => rfl
  | case2 cs ih => exact congrArg ('\n' :: ·) ih
  | case3 cs hne ih =>
    have hhead : cs.head? ≠ some '\n' := by
      cases cs with
      | nil => simp
      | cons c cs => exact fun he => hne cs (by rw [← Option.some.inj he])
    exact (unifyLines_return (head?_escapeChars_ne hhead h)).trans (congrArg ('\n' :: ·) ih)
  | case4 c cs _ hne ih =>
    have hc := return_notMem_escapeChar fun he => hne he
    simp only [Text.escapeChars, List.flatMap_cons, List.append_assoc] at ih ⊢
    rw [unifyLines_append hc, ih]

/-! ## Values of entities -/

/-- A piece of the value that an entity is declared with: `EntityValue` of XML 1.0. -/
inductive ValuePiece where
  | char (c : Char)
  /-- A reference to a character by its number, the number with what marks it as hexadecimal. -/
  | number (digits : List Char)
  | entity (name : Name)
  | parameter (name : Name)

namespace ValuePiece

def chars : ValuePiece → List Char
  | char c => [c]
  | number digits => '&' :: '#' :: (digits ++ [';'])
  | entity name => '&' :: (name.chars ++ [';'])
  | parameter name => '%' :: (name.chars ++ [';'])

/-- Whether a piece may stand between two quotes. -/
def Fits (quote : Char) : ValuePiece → Prop
  | char c => isLegal c = true ∧ c ≠ '%' ∧ c ≠ '&' ∧ c ≠ quote
  | number digits => ∃ c, Text.referent? ('#' :: digits) = some c ∧ isLegal c = true
  | entity _ | parameter _ => True

/-- What a piece is replaced by where its entity is declared.  References to entities wait for the content that the
entity is put into.  No reference to a parameter entity can be replaced: the declarations of a book are themselves the
only one that there is so far, and must not refer to themselves. -/
def replacement? : ValuePiece → Option (List Char)
  | number digits => (Text.referent? ('#' :: digits)).map ([·])
  | parameter _ => none
  | p => some p.chars

end ValuePiece

/-- Content that is running text, and what it reads as. -/
inductive ReadsAs : List Char → List Char → Prop
  | nil : ReadsAs [] []
  | char {c : Char} {cs text : List Char} : isLegal c = true → c ≠ '<' → c ≠ '&' → ReadsAs cs text →
      ReadsAs (c :: cs) (c :: text)
  | reference {name cs text : List Char} {c : Char} : Text.referent? name = some c → '&' ∉ name → ';' ∉ name →
      ReadsAs cs text → ReadsAs ('&' :: (name ++ ';' :: cs)) (c :: text)

/-- The declaration of an entity: its name, its value between quotes as it is written, and the white space before the
name, before the value and behind it. -/
structure EntityDeclaration where
  name : Name
  quote : Char
  value : List Char
  lead : List Char
  gap : List Char
  tail : List Char
  quotes : quote = '"' ∨ quote = '\''
  closed : quote ∉ value
  apart : lead ≠ [] ∧ gap ≠ []
  spaces : ∀ c ∈ lead ++ (gap ++ tail), Text.isSpace c = true

namespace EntityDeclaration

def keyword : List Char :=
  "<!ENTITY".toList

def chars (d : EntityDeclaration) : List Char :=
  keyword ++ (d.lead ++ (d.name.chars ++ (d.gap ++ d.quote :: (d.value ++ d.quote :: (d.tail ++ ['>'])))))

end EntityDeclaration

/-- The texts of declarations of entities, with white space around them. -/
inductive DeclaresEntities : List Char → List EntityDeclaration → Prop
  | nil : DeclaresEntities [] []
  | space {c : Char} {cs : List Char} {ds : List EntityDeclaration} : Text.isSpace c = true → DeclaresEntities cs ds →
      DeclaresEntities (c :: cs) ds
  | cons {cs : List Char} {ds : List EntityDeclaration} (d : EntityDeclaration) : DeclaresEntities cs ds →
      DeclaresEntities (d.chars ++ cs) (d :: ds)

/-- **An entity is declared well and reads as a text**: its value is made of pieces that may stand between its quotes,
and content that refers to it reads as the text. -/
def EntityDeclaration.Yields (d : EntityDeclaration) (text : String) : Prop :=
  ∃ ps rs, d.value = ps.flatMap ValuePiece.chars ∧ (∀ p ∈ ps, p.Fits d.quote) ∧
    List.Forall₂ (fun p r => p.replacement? = some r) ps rs ∧ ¬ "]]>".toList <:+: rs.flatten ∧
    ReadsAs rs.flatten text.toList

/-- A file that declares entities which read as texts. -/
def Defines (file : String) (entities : List (Name × String)) : Prop :=
  ∃ ds, DeclaresEntities (unifyLines file.toList) ds ∧
    List.Forall₂ (fun d e => d.name = e.1 ∧ d.Yields e.2) ds entities

/-- A text that a value of an entity can hold by escaping it: without percent signs, without carriage returns, which
would be read as line feeds, and without characters that XML does not allow. -/
def Writable (s : String) : Prop :=
  ∀ c ∈ s.toList, isLegal c = true ∧ c ≠ '%' ∧ c ≠ '\r'

instance (s : String) : Decidable (Writable s) :=
  inferInstanceAs (Decidable (∀ c ∈ s.toList, isLegal c = true ∧ c ≠ '%' ∧ c ≠ '\r'))

/-! ## Escaped values -/

namespace ValuePiece

/-- What a character is escaped as. -/
def ofChar : Char → ValuePiece
  | '<' => entity ⟨'l', ['t'], by decide, by decide⟩
  | '>' => entity ⟨'g', ['t'], by decide, by decide⟩
  | '&' => entity ⟨'a', ['m', 'p'], by decide, by decide⟩
  | '\'' => entity ⟨'a', ['p', 'o', 's'], by decide, by decide⟩
  | '"' => entity ⟨'q', ['u', 'o', 't'], by decide, by decide⟩
  | c => char c

theorem chars_ofChar (c : Char) : (ofChar c).chars = Text.escapeChar c := by
  unfold ofChar
  split <;> simp_all [chars, Name.chars, Text.escapeChar]

theorem replacement?_ofChar (c : Char) : (ofChar c).replacement? = some (Text.escapeChar c) := by
  rw [← chars_ofChar]
  unfold ofChar
  split <;> rfl

theorem fits_ofChar {c : Char} (hlegal : isLegal c = true) (hpercent : c ≠ '%') : (ofChar c).Fits '"' := by
  unfold ofChar
  split
  · trivial
  · trivial
  · trivial
  · trivial
  · trivial
  · exact ⟨hlegal, hpercent, by assumption, by assumption⟩

end ValuePiece

theorem readsAs_escapeChars {cs : List Char} (h : ∀ c ∈ cs, isLegal c = true) : ReadsAs (Text.escapeChars cs) cs := by
  induction cs with
  | nil => exact .nil
  | cons c cs ih =>
    obtain ⟨hc, hcs⟩ := List.forall_mem_cons.1 h
    rw [Text.escapeChars, List.flatMap_cons, ← Text.escapeChars]
    rcases Text.escapeChar_eq c with ⟨he, hplain⟩ | ⟨e, he, rfl, hc'⟩
    · rw [he]
      exact .char hc (fun h => hplain (by rw [h]; decide)) (fun h => hplain (by rw [h]; decide)) (ih hcs)
    · obtain ⟨hname, hamp, hend⟩ := (show ∀ e ∈ Text.predefined, Text.referent? e.1.toList = some e.2 ∧
        '&' ∉ e.1.toList ∧ ';' ∉ e.1.toList by decide) e he
      rw [hc', List.cons_append, List.append_assoc]
      exact .reference hname hamp hend (ih hcs)

theorem decodeChars_held {name : List Char} (hamp : '&' ∉ name) (hend : ';' ∉ name) (held cs : List Char) :
    Text.decodeChars (some held) (name ++ ';' :: cs) = Text.decodeChars (some (held ++ name)) (';' :: cs) := by
  induction name generalizing held with
  | nil => rw [List.nil_append, List.append_nil]
  | cons c name ih =>
    rw [List.mem_cons, not_or] at hamp hend
    rw [List.cons_append, Text.decodeChars, if_neg (Ne.symm hend.1), if_neg (Ne.symm hamp.1), ih hamp.2 hend.2,
      List.append_assoc, List.singleton_append]

/-- **Running text reads in one way only.** -/
theorem ReadsAs.decodeChars_eq {cs text : List Char} (h : ReadsAs cs text) : Text.decodeChars none cs = text := by
  induction h with
  | nil => rfl
  | char _ _ hamp _ ih => rw [Text.decodeChars, if_neg hamp, ih]
  | @reference name cs text c hname hamp hend _ ih =>
    rw [Text.decodeChars, if_pos rfl, decodeChars_held hamp hend, List.nil_append, Text.decodeChars, if_pos rfl]
    simp only [hname, ih]

/-! ## Declarations -/

theorem not_isSpace_of_continuesName {c : Char} (h : continuesName c = true) : ¬ Text.isSpace c = true := by
  intro hspace
  simp only [Text.isSpace, Bool.or_eq_true, beq_iff_eq] at hspace
  rcases hspace with ((rfl | rfl) | rfl) | rfl <;> exact absurd h (by decide)

theorem isLegal_of_continuesName {c : Char} (h : continuesName c = true) : isLegal c = true := by
  have hlegal : ∀ r ∈ nameStarts ++ nameExtras, (0x20 ≤ r.1 ∧ r.2 ≤ 0xD7FF) ∨ (0xE000 ≤ r.1 ∧ r.2 ≤ 0xFFFD) ∨
      0x10000 ≤ r.1 := by decide
  obtain ⟨r, hr, hlow, hhigh⟩ := exists_of_continuesName h
  simp only [isLegal, Bool.or_eq_true, Bool.and_eq_true, decide_eq_true_eq]
  rcases hlegal r hr with h | h | h
  · exact .inl (.inl (.inr ⟨by omega, by omega⟩))
  · exact .inl (.inr ⟨by omega, by omega⟩)
  · exact .inr (by omega)

theorem Name.chars_injective : Function.Injective Name.chars := by
  rintro ⟨first, rest, _, _⟩ ⟨first', rest', _, _⟩ h
  obtain ⟨rfl, rfl⟩ := List.cons.inj h
  rfl

namespace EntityDeclaration

variable {d e : EntityDeclaration}

theorem not_isSpace_quote (d : EntityDeclaration) : ¬ Text.isSpace d.quote = true := by
  rcases d.quotes with h | h <;> rw [h] <;> decide

theorem not_continuesName_gap (d : EntityDeclaration) (cs : List Char) :
    ∀ c ∈ (d.gap ++ cs).head?, ¬ continuesName c = true := by
  intro c hc hname
  obtain ⟨-, hgap⟩ := List.forall_mem_append.1 d.spaces
  obtain ⟨g, gs, hcons⟩ := List.exists_cons_of_ne_nil d.apart.2
  rw [hcons] at hc hgap
  cases hc
  exact not_isSpace_of_continuesName hname (hgap _ List.mem_cons_self)

theorem chars_append (d : EntityDeclaration) (rest : List Char) : d.chars ++ rest = keyword ++ (d.lead ++
    (d.name.chars ++ (d.gap ++ d.quote :: (d.value ++ d.quote :: (d.tail ++ '>' :: rest))))) := by
  simp only [chars, List.append_assoc, List.cons_append, List.nil_append]

/-- **The text of a declaration tells its parts**, whatever follows it. -/
theorem chars_append_inj {u v : List Char} (h : d.chars ++ u = e.chars ++ v) : d = e ∧ u = v := by
  obtain ⟨hlead, hrest⟩ := List.forall_mem_append.1 d.spaces
  obtain ⟨hgap, htail⟩ := List.forall_mem_append.1 hrest
  obtain ⟨hlead', hrest'⟩ := List.forall_mem_append.1 e.spaces
  obtain ⟨hgap', htail'⟩ := List.forall_mem_append.1 hrest'
  have hfirst (n : Name) (cs : List Char) : ∀ c ∈ (n.chars ++ cs).head?, ¬ Text.isSpace c = true := by
    rintro c ⟨⟩
    exact not_isSpace_of_continuesName (Name.continuesName_of_mem List.mem_cons_self)
  rw [chars_append, chars_append] at h
  have h := List.append_cancel_left h
  obtain ⟨elead, h⟩ := append_inj_of_boundary (hfirst d.name _) (hfirst e.name _) hlead hlead' h
  obtain ⟨ename, h⟩ := append_inj_of_boundary (d.not_continuesName_gap _) (e.not_continuesName_gap _)
    (fun _ => Name.continuesName_of_mem) (fun _ => Name.continuesName_of_mem) h
  obtain ⟨egap, h⟩ := append_inj_of_boundary (by rintro c ⟨⟩; exact d.not_isSpace_quote)
    (by rintro c ⟨⟩; exact e.not_isSpace_quote) hgap hgap' h
  obtain ⟨equote, h⟩ := List.cons.inj h
  rw [← equote] at h
  obtain ⟨evalue, h⟩ := append_inj_of_boundary (p := (· ≠ d.quote)) (by rintro c ⟨⟩; exact not_not_intro rfl)
    (by rintro c ⟨⟩; exact not_not_intro rfl) (fun c hc he => d.closed (he ▸ hc))
    (fun c hc he => e.closed (equote ▸ he ▸ hc)) h
  obtain ⟨etail, h⟩ := append_inj_of_boundary (by rintro c ⟨⟩; decide) (by rintro c ⟨⟩; decide) htail htail'
    (List.cons.inj h).2
  obtain ename := Name.chars_injective ename
  refine ⟨?_, (List.cons.inj h).2⟩
  cases d
  cases e
  simp_all

theorem chars_ne_cons_space {c : Char} (hc : Text.isSpace c = true) (u v : List Char) : d.chars ++ u ≠ c :: v := by
  intro h
  obtain ⟨rfl, -⟩ := List.cons.inj h
  exact absurd hc (by decide)

end EntityDeclaration

/-- **A text declares entities in one way only.** -/
theorem DeclaresEntities.unique {cs : List Char} {ds ds' : List EntityDeclaration} (h : DeclaresEntities cs ds)
    (h' : DeclaresEntities cs ds') : ds = ds' := by
  induction h generalizing ds' with
  | nil =>
    generalize hcs : ([] : List Char) = cs at h'
    cases h' with
    | nil => rfl
    | space _ _ => cases hcs
    | cons d _ => cases hcs
  | @space c cs ds hc _ ih =>
    generalize hcs : c :: cs = cs' at h'
    cases h' with
    | nil => cases hcs
    | space _ h' =>
      cases hcs
      exact ih h'
    | cons d _ => exact absurd hcs.symm (EntityDeclaration.chars_ne_cons_space hc _ _)
  | @cons cs ds d _ ih =>
    generalize hcs : d.chars ++ cs = cs' at h'
    cases h' with
    | nil => cases hcs
    | space hc _ => exact absurd hcs (EntityDeclaration.chars_ne_cons_space hc _ _)
    | cons e h' =>
      obtain ⟨rfl, rfl⟩ := EntityDeclaration.chars_append_inj hcs
      rw [ih h']

/-! ## Declarations of escaped texts -/

/-- The declaration of an entity by a text, which is escaped. -/
def EntityDeclaration.ofText (name : Name) (text : String) : EntityDeclaration where
  name
  quote := '"'
  value := Text.escapeChars (unifyLines text.toList)
  lead := [' ']
  gap := [' ']
  tail := []
  quotes := .inl rfl
  closed := Text.quote_notMem_escapeChars _
  apart := ⟨by decide, by decide⟩
  spaces := by decide

section Yields

variable {cs : List Char} {ps : List ValuePiece} {rs : List (List Char)}

theorem number_notMem {digits : List Char} (h : Text.escapeChars cs = ps.flatMap ValuePiece.chars) :
    .number digits ∉ ps := fun hp => by
  have hin : (ValuePiece.number digits).chars <:+: ps.flatMap ValuePiece.chars :=
    List.infix_of_mem_flatten (List.mem_map_of_mem hp)
  refine Text.hash_notMem_escapeChars cs (h ▸ List.IsInfix.trans ?_ hin)
  exact ⟨[], digits ++ [';'], rfl⟩

/-- The pieces of an escaped text are replaced by themselves, if they are at all. -/
theorem flatten_replacements (h : Text.escapeChars cs = ps.flatMap ValuePiece.chars)
    (hrs : List.Forall₂ (fun p r => p.replacement? = some r) ps rs) : rs.flatten = Text.escapeChars cs := by
  have hself : ∀ p ∈ ps, ∀ r, p.replacement? = some r → r = p.chars := by
    intro p hp r hr
    cases p with
    | char c => cases hr; rfl
    | number digits => exact absurd hp (number_notMem h)
    | entity name => cases hr; rfl
    | parameter name => cases hr
  have hmap : rs = ps.map ValuePiece.chars := by
    clear h
    induction hrs with
    | nil => rfl
    | cons hr _ ih =>
      obtain ⟨hp, hps⟩ := List.forall_mem_cons.1 hself
      rw [hp _ hr, ih hps, List.map_cons]
  rw [hmap, h, List.flatMap_def]

/-- What is in pieces that fit and can be replaced is legal and no percent sign, references to numbers apart. -/
theorem ValuePiece.allowed_of_fits {p : ValuePiece} {r : List Char} (hp : p.Fits '"') (hr : p.replacement? = some r)
    (hnumber : ∀ digits, p ≠ .number digits) : ∀ c ∈ p.chars, isLegal c = true ∧ c ≠ '%' := by
  cases p with
  | char c => exact List.forall_mem_singleton.2 ⟨hp.1, hp.2.1⟩
  | number digits => exact absurd rfl (hnumber digits)
  | entity name =>
    refine List.forall_mem_cons.2 ⟨by decide, List.forall_mem_append.2 ⟨fun c hc => ?_, by decide⟩⟩
    have hname := Name.continuesName_of_mem hc
    refine ⟨isLegal_of_continuesName hname, ?_⟩
    rintro rfl
    exact absurd hname (by decide)
  | parameter name => cases hr

theorem forall₂_ofChar (cs : List Char) :
    List.Forall₂ (fun p r => ValuePiece.replacement? p = some r) (cs.map .ofChar) (cs.map Text.escapeChar) := by
  induction cs with
  | nil => exact .nil
  | cons c cs ih => exact .cons (ValuePiece.replacement?_ofChar c) ih

theorem writable_of_yields {name : Name} {s : String} (h : (EntityDeclaration.ofText name s).Yields s) :
    Writable s := by
  obtain ⟨ps, rs, hvalue, hfits, hrs, -, hreads⟩ := h
  have hvalue : Text.escapeChars (unifyLines s.toList) = ps.flatMap ValuePiece.chars := hvalue
  rw [flatten_replacements hvalue hrs] at hreads
  -- content reads in one way only, so the lines of the text are unified already
  have hsame : s.toList = unifyLines s.toList := by
    have hdecode := Text.decode_escape (String.ofList (unifyLines s.toList))
    rw [Text.decode, Text.escape, String.toList_ofList, String.toList_ofList, hreads.decodeChars_eq] at hdecode
    simpa using congrArg String.toList hdecode
  intro c hc
  have hreturn : c ≠ '\r' := fun he => return_notMem_unifyLines s.toList (hsame ▸ he ▸ hc)
  by_cases hreserved : c ∈ Text.predefined.map (·.2)
  · exact (show ∀ c ∈ Text.predefined.map (·.2), isLegal c = true ∧ c ≠ '%' ∧ c ≠ '\r' by decide) c hreserved
  have hmem : c ∈ ps.flatMap ValuePiece.chars := by
    rw [← hvalue, ← hsame, Text.escapeChars, List.mem_flatMap]
    refine ⟨c, hc, ?_⟩
    rcases Text.escapeChar_eq c with ⟨he, -⟩ | ⟨e, he, rfl, -⟩
    · rw [he]
      exact List.mem_singleton_self c
    · exact absurd (List.mem_map_of_mem he) hreserved
  obtain ⟨p, hp, hcp⟩ := List.mem_flatMap.1 hmem
  obtain ⟨r, -, hr⟩ := exists_of_forall₂_left hrs hp
  obtain ⟨hlegal, hpercent⟩ := ValuePiece.allowed_of_fits (hfits p hp) hr
    (fun digits he => number_notMem hvalue (he ▸ hp)) c hcp
  exact ⟨hlegal, hpercent, hreturn⟩

theorem yields_of_writable {s : String} (h : Writable s) (name : Name) :
    (EntityDeclaration.ofText name s).Yields s := by
  have hvalue : (EntityDeclaration.ofText name s).value = Text.escapeChars s.toList :=
    congrArg Text.escapeChars (unifyLines_of_notMem fun hm => (h _ hm).2.2 rfl)
  refine ⟨s.toList.map .ofChar, s.toList.map Text.escapeChar, ?_, ?_, forall₂_ofChar _, ?_, ?_⟩
  · rw [hvalue, List.flatMap_map, Text.escapeChars]
    exact congrArg (List.flatMap · s.toList) (funext fun c => (ValuePiece.chars_ofChar c).symm)
  · exact List.forall_mem_map.2 fun c hc => ValuePiece.fits_ofChar (h c hc).1 (h c hc).2.1
  · rw [← List.flatMap_def]
    exact fun hin => Text.angle_notMem_escapeChars s.toList (hin.subset (by decide))
  · rw [← List.flatMap_def]
    exact readsAs_escapeChars fun c hc => (h c hc).1

/-- **An escaped text is read back from the entity that is declared by it, just if it is writable.** -/
theorem yields_ofText_iff (name : Name) (s : String) : (EntityDeclaration.ofText name s).Yields s ↔ Writable s :=
  ⟨writable_of_yields, fun h => yields_of_writable h name⟩

end Yields

/-! ## Files of declarations -/

/-- The line that declares an entity by a text. -/
def entityLine (e : Name × String) : String :=
  "<!ENTITY " ++ e.1.text ++ " \"" ++ Text.escape e.2 ++ "\">"

theorem toList_entityLine (e : Name × String) : (entityLine e).toList =
    EntityDeclaration.keyword ++ ' ' :: (e.1.chars ++ ' ' :: '"' :: (Text.escapeChars e.2.toList ++ ['"', '>'])) := by
  have hkeyword : "<!ENTITY ".toList = EntityDeclaration.keyword ++ [' '] := by decide
  simp [entityLine, Name.text, Text.escape, hkeyword]

theorem unifyLines_entityLine (e : Name × String) (rest : List Char) :
    unifyLines ((entityLine e).toList ++ rest) = (EntityDeclaration.ofText e.1 e.2).chars ++ unifyLines rest := by
  have hname : '\r' ∉ e.1.chars := fun h => absurd (Name.continuesName_of_mem h) (by decide)
  have hlead : '\r' ∉ EntityDeclaration.keyword ++ ' ' :: (e.1.chars ++ [' ', '"']) := by
    simp only [List.mem_append, List.mem_cons, not_or]
    exact ⟨by decide, by decide, hname, by decide⟩
  have hline : (entityLine e).toList ++ rest = (EntityDeclaration.keyword ++ ' ' :: (e.1.chars ++ [' ', '"']))
      ++ (Text.escapeChars e.2.toList ++ (['"', '>'] ++ rest)) := by
    simp only [toList_entityLine, List.append_assoc, List.cons_append, List.nil_append]
  rw [hline, unifyLines_append hlead, unifyLines_escapeChars _ (by simp), unifyLines_append (by decide),
    EntityDeclaration.chars_append]
  simp [EntityDeclaration.ofText]

theorem declares_entityLines : ∀ es : List (Name × String),
    DeclaresEntities (unifyLines ("\n".intercalate (es.map entityLine)).toList)
      (es.map fun e => EntityDeclaration.ofText e.1 e.2)
  | [] => .nil
  | [e] => by
    have hline := unifyLines_entityLine e []
    rw [List.append_nil] at hline
    rw [List.map_singleton, String.intercalate_singleton, hline]
    exact .cons _ .nil
  | e :: e' :: es => by
    have ih := declares_entityLines (e' :: es)
    rw [List.map_cons] at ih ⊢
    rw [List.map_cons, String.intercalate_cons_cons, String.toList_append, String.toList_append, List.append_assoc,
      unifyLines_entityLine, unifyLines_append (show '\r' ∉ "\n".toList by decide), List.map_cons]
    exact .cons _ (.space (by decide) ih)

/-- **A file of lines for escaped texts defines the entities just if all the texts are writable.** -/
theorem defines_entityLines_iff (es : List (Name × String)) :
    Defines ("\n".intercalate (es.map entityLine)) es ↔ ∀ e ∈ es, Writable e.2 := by
  have hpairs (es : List (Name × String)) : List.Forall₂ (fun (d : EntityDeclaration) e => d.name = e.1 ∧ d.Yields e.2)
      (es.map fun e => EntityDeclaration.ofText e.1 e.2) es ↔ ∀ e ∈ es, Writable e.2 := by
    rw [List.forall₂_map_left_iff, List.forall₂_same]
    exact forall₂_congr fun e _ => (and_iff_right rfl).trans (yields_ofText_iff e.1 e.2)
  rw [← hpairs]
  constructor
  · rintro ⟨ds, hds, hall⟩
    rwa [hds.unique (declares_entityLines es)] at hall
  · exact fun hall => ⟨_, declares_entityLines es, hall⟩

end Xml

namespace Draft

variable {σ : Type} {b : Bindery σ} {d : Draft} {s s' : Session σ} {images : List Image} {fs : List File}

theorem count_entities (hrun : (d.files b images).Gives s fs s') :
    (fs.map (·.path)).count (d.localePath (d.name ++ ".ent")) = 1 := by
  have hslash : '/' ∉ (d.name ++ ".ent").toList := slash_notMem_append.2 ⟨d.slash_notMem_name, by decide⟩
  have hpages : ((d.pages ++ [d.name]).map (· ++ ".xml")).count (d.name ++ ".ent") = 0 :=
    List.count_eq_zero.2 fun hm => by
      have hkind := d.fileKind_pages _ hm
      rw [fileKind_entities] at hkind
      cases hkind
  rw [count_localePath hrun hslash, hpages, List.count_singleton_self]

/-! ## The declarations of a book -/

def productText (d : Draft) : String :=
  (d.metadata "product" d.spec.product).getD ""

def holderText (d : Draft) : String :=
  (d.metadata "holder" d.spec.copyrightHolder).getD defaultHolder

/-- The entities of a book and the texts that they stand for. -/
def entityTexts (b : Bindery σ) (d : Draft) : List (Xml.Name × String) :=
  [(⟨'P', "RODUCT".toList, by decide, by decide⟩, d.productText), (⟨'B', "OOKID".toList, by decide, by decide⟩, d.name),
    (⟨'Y', "EAR".toList, by decide, by decide⟩, toString (date b d).date.year),
    (⟨'H', "OLDER".toList, by decide, by decide⟩, d.holderText)]

/-- What the declarations of a book are rendered from. -/
def entitiesContext (b : Bindery σ) (d : Draft) : Template.Context :=
  d.baseContext "book" ++ [("product", .ofText? (d.metadata "product" d.spec.product)),
    ("year", .int (date b d).date.year), ("holder", .text d.holderText)]

theorem entitiesPage_entitiesContext (b : Bindery σ) (d : Draft) :
    Template.entitiesPage (d.entitiesContext b) = .ok ("\n".intercalate ((d.entityTexts b).map Xml.entityLine)) := by
  have hproduct : Template.xml (d.entitiesContext b) "product" = Text.escape d.productText := by
    change (Template.Value.ofText? (d.metadata "product" d.spec.product)).printXml = _
    unfold productText
    cases d.metadata "product" d.spec.product <;> rfl
  have hname : Template.xml (d.entitiesContext b) "escaped_book_title" = Text.escape d.name := rfl
  have hyear : Template.raw (d.entitiesContext b) "year" = Text.escape (toString (date b d).date.year) :=
    (escape_of_slug (Slug.all_int _)).symm
  have hholder : Template.xml (d.entitiesContext b) "holder" = Text.escape d.holderText := rfl
  rw [Template.entitiesPage, hproduct, hname, hyear, hholder]
  refine congrArg Except.ok (String.toList_inj.1 ?_)
  simp [entityTexts, Xml.entityLine, Xml.Name.text, Xml.Name.chars, String.intercalate_cons_cons]

theorem entities_eq {f : File} (hb : b.renderer = Renderer.pages) (hrun : (entities b d).Gives s f s') :
    f = .ofText (d.localePath (d.name ++ ".ent")) ("\n".intercalate ((d.entityTexts b).map Xml.entityLine)) := by
  rw [entities, renderFile, hb] at hrun
  obtain ⟨text, htext, rfl⟩ := hrun.map
  have hpage := htext.render.1
  rw [Template.render_file] at hpage
  rw [Except.ok.inj ((d.entitiesPage_entitiesContext b).symm.trans hpage)]

theorem text?_entities (hb : b.renderer = Renderer.pages) (hrun : (d.files b images).Gives s fs s') :
    (Archive.ofFiles fs).text? (d.localePath (d.name ++ ".ent"))
      = some ("\n".intercalate ((d.entityTexts b).map Xml.entityLine)) := by
  have hcount := count_entities hrun
  obtain ⟨front, problems, chapters, topics, appendices, book, ⟨_, hfront⟩, -, -, -, -, -, rfl⟩ := exists_parts hrun
  obtain ⟨config, info, authors, preface, history, declarations, assets, -, -, -, -, -, ⟨_, _, hdeclarations⟩, -, rfl⟩ :=
    exists_frontParts hfront
  refine text?_ofText ?_ hcount
  rw [entities_eq hb hdeclarations]
  simp

theorem writable_of_slug {s : String} (h : s.toList.all Slug.isSlugChar = true) : Xml.Writable s := by
  intro c hc
  have hslug := List.all_eq_true.1 h c hc
  have hne (e : Char) (he : Slug.isSlugChar e = false) : c ≠ e := by
    rintro rfl
    rw [hslug] at he
    cases he
  exact ⟨Xml.legal_of_slug h c hc, hne '%' (by decide), hne '\r' (by decide)⟩

theorem defines_entityTexts_iff (b : Bindery σ) (d : Draft) :
    Xml.Defines ("\n".intercalate ((d.entityTexts b).map Xml.entityLine)) (d.entityTexts b) ↔
      Xml.Writable d.productText ∧ Xml.Writable d.holderText := by
  rw [Xml.defines_entityLines_iff]
  simp only [entityTexts, List.forall_mem_cons, and_iff_right (writable_of_slug d.slug_name),
    and_iff_right (writable_of_slug (Slug.all_int _)), and_iff_left (fun _ h => absurd h List.not_mem_nil)]

end Draft

namespace Bindery

variable {σ : Type} {b : Bindery σ} {spec : ContentSpec} {settings : Settings} {requester : Option String} {book : Book}
  {d : Draft} {images : List Image} {s s' t : Session σ}

/-- **What is read of the declarations of a book's entities.**  In a bound book there is a file of declarations.  They
are declarations of entities, and content that refers to the entities reads as the product, the name, the year and the
holder of the book, if and only if product and holder are writable. -/
theorem entities_read (hb : b.renderer = Renderer.pages) (hbind : (b.bind spec settings requester).Gives s book s')
    (hprepare : (b.prepare spec settings requester).Gives s (d, images) t) :
    (d.spec = spec ∧ d.settings = settings) ∧ ∃ text, book.archive.text? (d.localePath (d.name ++ ".ent")) = some text ∧
      (Xml.Defines text (d.entityTexts b) ↔ Xml.Writable d.productText ∧ Xml.Writable d.holderText) := by
  obtain ⟨d₀, s₀, hdraft, hfollows, -, -⟩ := exists_draft_of_prepare hprepare
  have hbegins := begins_draft hdraft
  obtain ⟨fs, t', hfiles, harchive⟩ := exists_files_of_bind hbind hprepare
  refine ⟨⟨hfollows.spec.trans hbegins.spec, hfollows.settings.trans hbegins.settings⟩, _, ?_,
    d.defines_entityTexts_iff b⟩
  rw [harchive, Draft.text?_entities hb hfiles]

/-- A book by a holder. -/
def heldBy (holder : String) : ContentSpec :=
  { titled "Book" with copyrightHolder := some holder }

/-- Entities that hold markup and quotes read as it is. -/
theorem entities_read_of_markup : ∃ book d images s' t,
    (sample.bind (heldBy "A & \"B\" <C>") sampleSettings none).Gives (sampleSession "<section/>" "<section/>") book s' ∧
    (sample.prepare (heldBy "A & \"B\" <C>") sampleSettings none).Gives (sampleSession "<section/>" "<section/>")
      (d, images) t ∧ d.holderText = "A & \"B\" <C>" ∧
    ∃ text, book.archive.text? (d.localePath (d.name ++ ".ent")) = some text ∧ Xml.Defines text (d.entityTexts sample) := by
  have hruns : ∃ book d images s' t,
      (sample.bind (heldBy "A & \"B\" <C>") sampleSettings none).Gives (sampleSession "<section/>" "<section/>") book s' ∧
      (sample.prepare (heldBy "A & \"B\" <C>") sampleSettings none).Gives (sampleSession "<section/>" "<section/>")
        (d, images) t ∧
      ((Xml.Writable d.productText ∧ Xml.Writable d.holderText) ∧ d.holderText = "A & \"B\" <C>") ∧ True :=
    exists_bound (P := fun d => (Xml.Writable d.productText ∧ Xml.Writable d.holderText) ∧
      d.holderText = "A & \"B\" <C>") (Q := fun _ _ => True) (by decide +kernel)
  obtain ⟨book, d, images, s', t, hbind, hprepare, ⟨hwritable, hholder⟩, -⟩ := hruns
  obtain ⟨-, text, htext, hdefines⟩ := entities_read rfl hbind hprepare
  exact ⟨book, d, images, s', t, hbind, hprepare, hholder, text, htext, hdefines.2 hwritable⟩

/-- A percent sign is read as the beginning of a reference, and the file declares no such entities. -/
theorem not_defines_of_percent : ∃ book d images s' t,
    (sample.bind (heldBy "50% Co") sampleSettings none).Gives (sampleSession "<section/>" "<section/>") book s' ∧
    (sample.prepare (heldBy "50% Co") sampleSettings none).Gives (sampleSession "<section/>" "<section/>") (d, images) t ∧
    ¬ ∃ text, book.archive.text? (d.localePath (d.name ++ ".ent")) = some text ∧
      Xml.Defines text (d.entityTexts sample) := by
  have hruns : ∃ book d images s' t,
      (sample.bind (heldBy "50% Co") sampleSettings none).Gives (sampleSession "<section/>" "<section/>") book s' ∧
      (sample.prepare (heldBy "50% Co") sampleSettings none).Gives (sampleSession "<section/>" "<section/>") (d, images) t ∧
      ¬ Xml.Writable d.holderText ∧ True :=
    exists_bound (P := fun d => ¬ Xml.Writable d.holderText) (Q := fun _ _ => True) (by decide +kernel)
  obtain ⟨book, d, images, s', t, hbind, hprepare, hpercent, -⟩ := hruns
  obtain ⟨fs, t', hfiles, harchive⟩ := exists_files_of_bind hbind hprepare
  refine ⟨book, d, images, s', t, hbind, hprepare, ?_⟩
  rintro ⟨text, htext, hdefines⟩
  rw [harchive, Draft.text?_entities rfl hfiles] at htext
  cases htext
  exact hpercent ((d.defines_entityTexts_iff sample).1 hdefines).2

end Bindery
end Bookbinder
