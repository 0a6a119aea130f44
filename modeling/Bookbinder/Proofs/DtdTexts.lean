import Bookbinder.Dtd
import Bookbinder.Text.Unseen
/-!
# Texts of declarations

A document type definition lists elements and attributes in declarations.  A declaration is written as tokens with white
space before each of them (`Spaced`), and white space and comments stand between declarations (`Lists`).  Names are
those of XML 1.0; groups and content models may hold more here than XML lets them.
-/
namespace Bookbinder

namespace Xml

/-! ## Names -/

/-- The characters that names begin with: `NameStartChar` of XML 1.0. -/
def nameStarts : Text.Ranges :=
  [(0x3A, 0x3A), (0x41, 0x5A), (0x5F, 0x5F), (0x61, 0x7A), (0xC0, 0xD6), (0xD8, 0xF6), (0xF8, 0x2FF), (0x370, 0x37D),
   (0x37F, 0x1FFF), (0x200C, 0x200D), (0x2070, 0x218F), (0x2C00, 0x2FEF), (0x3001, 0xD7FF), (0xF900, 0xFDCF),
   (0xFDF0, 0xFFFD), (0x10000, 0xEFFFF)]

/-- The characters that `NameChar` adds to those. -/
def nameExtras : Text.Ranges :=
  [(0x2D, 0x2E), (0x30, 0x39), (0xB7, 0xB7), (0x300, 0x36F), (0x203F, 0x2040)]

def beginsName (c : Char) : Bool :=
  nameStarts.covers c.toNat

def continuesName (c : Char) : Bool :=
  beginsName c || nameExtras.covers c.toNat

/-- A name of XML. -/
structure Name where
  first : Char
  rest : List Char
  begins : beginsName first = true
  continues : ∀ c ∈ rest, continuesName c = true

namespace Name

def chars (n : Name) : List Char :=
  n.first :: n.rest

def text (n : Name) : String :=
  String.ofList n.chars

theorem continuesName_of_mem {n : Name} {c : Char} (h : c ∈ n.chars) : continuesName c = true := by
  rcases List.mem_cons.1 h with rfl | h
  · rw [continuesName, n.begins]
    rfl
  · exact n.continues c h

end Name

/-- The characters that are white space. -/
def blanks : Text.Ranges :=
  [(0x9, 0xD), (0x20, 0x20), (0x85, 0x85), (0xA0, 0xA0), (0x1680, 0x1680), (0x2000, 0x200A), (0x2028, 0x2029),
   (0x202F, 0x202F), (0x205F, 0x205F), (0x3000, 0x3000)]

theorem exists_of_isBlank {c : Char} (h : Text.isBlank c = true) : ∃ b ∈ blanks, b.1 ≤ c.toNat ∧ c.toNat ≤ b.2 := by
  simp only [Text.isBlank, Bool.or_eq_true, Bool.and_eq_true, decide_eq_true_eq, beq_iff_eq] at h
  simp only [blanks, List.mem_cons, List.not_mem_nil, or_false, exists_eq_or_imp, exists_eq_left]
  omega

theorem exists_of_continuesName {c : Char} (h : continuesName c = true) :
    ∃ r ∈ nameStarts ++ nameExtras, r.1 ≤ c.toNat ∧ c.toNat ≤ r.2 := by
  rcases Bool.or_eq_true_iff.1 h with h | h
  · obtain ⟨r, hr, hin⟩ := Text.Ranges.exists_of_covers h
    exact ⟨r, List.mem_append_left _ hr, hin⟩
  · obtain ⟨r, hr, hin⟩ := Text.Ranges.exists_of_covers h
    exact ⟨r, List.mem_append_right _ hr, hin⟩

/-- The one character of names that is white space all the same, the Ogham space mark. -/
theorem eq_of_continuesName_of_isBlank {c : Char} (h : continuesName c = true) (hc : Text.isBlank c = true) :
    c = '\u1680' := by
  -- No other range of names meets one of white space.
  have hapart : ∀ r ∈ nameStarts ++ nameExtras, ∀ b ∈ blanks, r.2 < b.1 ∨ b.2 < r.1 ∨ b = (0x1680, 0x1680) := by
    decide
  obtain ⟨r, hr, hlow, hhigh⟩ := exists_of_continuesName h
  obtain ⟨b, hb, hlow', hhigh'⟩ := exists_of_isBlank hc
  refine Char.toNat_inj.1 (?_ : c.toNat = 0x1680)
  rcases hapart r hr b hb with hlt | hlt | rfl <;> omega

end Xml

namespace Dtd

open Text (isBlank)

/-! ## Tokens -/

/-- A character that means nothing in a declaration. -/
def isInert (c : Char) : Bool :=
  !(['"', '\'', '<', '>', '%'].contains c)

/-- A character that means nothing among tokens either, but for white space. -/
def isPlain (c : Char) : Bool :=
  isInert c && c != '(' && c != ')'

theorem isPlain_of_continuesName {c : Char} (h : Xml.continuesName c = true) : isPlain c = true := by
  have hne (d : Char) (hd : Xml.continuesName d = false) : c ≠ d := by
    rintro rfl
    rw [h] at hd
    cases hd
  have hquotes := And.intro (hne '"' (by decide)) (hne '\'' (by decide))
  have hangles := And.intro (hne '<' (by decide)) (hne '>' (by decide))
  have hparens := And.intro (hne '(' (by decide)) (hne ')' (by decide))
  simp [isPlain, isInert, hquotes, hangles, hparens, hne '%' (by decide)]

/-- A group, by what stands between its parentheses. -/
structure Group where
  inside : List Char
  plain : ∀ c ∈ inside, isPlain c = true

def Group.chars (g : Group) : List Char :=
  '(' :: (g.inside ++ [')'])

/-- A value in quotes. -/
structure Literal where
  quote : Char
  value : List Char
  quotes : quote = '"' ∨ quote = '\''
  free : ∀ c ∈ value, c ≠ quote ∧ c ≠ '<' ∧ c ≠ '%'

def Literal.chars (l : Literal) : List Char :=
  l.quote :: (l.value ++ [l.quote])

/-- The types of attributes that are a word. -/
inductive TypeWord where
  | cdata
  | id
  | idref
  | idrefs
  | entity
  | entities
  | nmtoken
  | nmtokens

def TypeWord.chars : TypeWord → List Char
  | cdata => "CDATA".toList
  | id => "ID".toList
  | idref => "IDREF".toList
  | idrefs => "IDREFS".toList
  | entity => "ENTITY".toList
  | entities => "ENTITIES".toList
  | nmtoken => "NMTOKEN".toList
  | nmtokens => "NMTOKENS".toList

inductive AttributeType where
  | word (w : TypeWord)
  | group (g : Group)
  | notations (g : Group)

def AttributeType.tokens : AttributeType → List (List Char)
  | word w => [w.chars]
  | group g => [g.chars]
  | notations g => ["NOTATION".toList, g.chars]

/-- What is said of an attribute that a document leaves out. -/
inductive DefaultRule where
  | required
  | implied
  | value (l : Literal)
  | fixed (l : Literal)

def DefaultRule.tokens : DefaultRule → List (List Char)
  | required => ["#REQUIRED".toList]
  | implied => ["#IMPLIED".toList]
  | value l => [l.chars]
  | fixed l => ["#FIXED".toList, l.chars]

/-- One attribute of a list. -/
structure AttributeDef where
  name : Xml.Name
  type : AttributeType
  rule : DefaultRule

def AttributeDef.tokens (a : AttributeDef) : List (List Char) :=
  a.name.chars :: (a.type.tokens ++ a.rule.tokens)

/-- What an element may hold. -/
structure ContentModel where
  chars : List Char
  inert : ∀ c ∈ chars, isInert c = true

/-! ## Declarations -/

/-- What one declaration says. -/
inductive Declared where
  | element (name : Xml.Name) (model : ContentModel)
  | attributes (owner : Xml.Name) (defs : List AttributeDef)

namespace Declared

def keyword : Declared → List Char
  | element _ _ => "ELEMENT".toList
  | attributes _ _ => "ATTLIST".toList

def tokens : Declared → List (List Char)
  | element name model => [name.chars, model.chars]
  | attributes owner defs => owner.chars :: defs.flatMap AttributeDef.tokens

def names : Declared → List Xml.Name
  | element name _ => [name]
  | attributes owner defs => owner :: defs.map (·.name)

end Declared

/-- White space of any length, none included. -/
def Gap (ws : List Char) : Prop :=
  ∀ c ∈ ws, isBlank c = true

/-- The texts of tokens, with white space before each and perhaps behind the last. -/
inductive Spaced : List (List Char) → List Char → Prop
  | nil {ws : List Char} : Gap ws → Spaced [] ws
  | cons {ws t cs : List Char} {ts : List (List Char)} : ws ≠ [] → Gap ws → Spaced ts cs →
      Spaced (t :: ts) (ws ++ (t ++ cs))

theorem Spaced.cons_blank {c : Char} {t cs : List Char} {ts : List (List Char)} (hc : isBlank c = true)
    (h : Spaced ts cs) : Spaced (t :: ts) (c :: (t ++ cs)) :=
  .cons (List.cons_ne_nil c []) (List.forall_mem_singleton.2 hc) h

/-- White space and comments.  A comment may hold anything but its end. -/
inductive Filler : List Char → Prop
  | nil : Filler []
  | blank {c : Char} {cs : List Char} : isBlank c = true → Filler cs → Filler (c :: cs)
  | comment {content cs : List Char} : ¬ "-->".toList <:+: content → Filler cs →
      Filler ("<!--".toList ++ (content ++ ("-->".toList ++ cs)))

/-- The texts of declarations, with texts of some kind around them. -/
inductive Lists (Between : List Char → Prop) : List Declared → List Char → Prop
  | nil {cs : List Char} : Between cs → Lists Between [] cs
  | cons {d : Declared} {ds : List Declared} {ws body cs : List Char} : Between ws → Spaced d.tokens body →
      Lists Between ds cs → Lists Between (d :: ds) (ws ++ ('<' :: '!' :: (d.keyword ++ (body ++ '>' :: cs))))

/-- A definition that declares what is listed and nothing else. -/
structure Declares (d : Dtd) (ds : List Declared) : Prop where
  element_iff : ∀ name, d.declaresElement name = true ↔ ∃ n model, Declared.element n model ∈ ds ∧ n.text = name
  attribute_iff : ∀ owner name, d.declaresAttribute owner name = true ↔
    ∃ o defs, Declared.attributes o defs ∈ ds ∧ o.text = owner ∧ ∃ a ∈ defs, a.name.text = name

end Dtd
end Bookbinder
