import Bookbinder.Xml.Doctype
import Bookbinder.Xml.Error
/-!
# Pieces of markup

An XML text is a sequence of pieces: text, references, tags, comments and the like.  `Markup.next` reads the first
piece of a nonempty text and leaves a rest that is shorter.  Nothing is expanded: a piece holds what was written.
-/
namespace Bookbinder
namespace Xml

/-- One piece of an XML text. -/
inductive Markup where
  | text (raw : List Char)
  | reference (name : List Char)
  /-- A start tag: all that stands between its angle brackets. -/
  | opening (content : List Char)
  /-- An empty tag: all that stands between `<` and `/>`. -/
  | empty (content : List Char)
  | closing (name : List Char)
  | cdata (content : List Char)
  | comment (content : List Char)
  | instruction (content : List Char)
  | declaration
  | doctype (content : List Char)

namespace Markup

open Text (after? cut? isSpace)

/-- A piece and what follows it, or why there is none. -/
abbrev Step := Except MarkupError (Markup × List Char)

/-- A character of running text. -/
def isText (c : Char) : Bool :=
  c != '<' && c != '&'

/-- A reference, its `&` read already.  What stands between it and the semicolon is not checked. -/
def nextReference (cs : List Char) : Step :=
  let inside := fun c => c != ';' && isText c
  match cs.dropWhile inside with
  | ';' :: r => .ok (.reference (cs.takeWhile inside), r)
  | _ => .error .referenceNotClosed

/-- The content of a tag up to the first `>` outside quotes, and what follows. -/
def tag : Option Char → List Char → Except MarkupError (List Char × List Char)
  | none, [] => .error .tagNotClosed
  | some q, [] => .error (.valueNotClosed q)
  | none, '>' :: cs => .ok ([], cs)
  | none, c :: cs => match tag (if c = '"' ∨ c = '\'' then some c else none) cs with
    | .ok (a, r) => .ok (c :: a, r)
    | .error e => .error e
  | some q, c :: cs => match tag (if c = q then none else some q) cs with
    | .ok (a, r) => .ok (c :: a, r)
    | .error e => .error e

/-- The name that an end tag holds: all of it but the markup space at its right end.  A tag that holds nothing else has
the space for its name. -/
def closingName (cs : List Char) : List Char :=
  if cs.all isSpace then cs else (cs.reverse.dropWhile isSpace).reverse

/-- An end tag, its `</` read already. -/
def nextClosing (cs : List Char) : Step :=
  match tag none cs with
  | .ok (a, r) => .ok (.closing (closingName a), r)
  | .error e => .error e

/-- A start tag or an empty tag, its `<` read already. -/
def nextTag (cs : List Char) : Step :=
  match tag none cs with
  | .ok (a, r) => .ok (if a.getLast? = some '/' then .empty a.dropLast else .opening a, r)
  | .error e => .error e

/-- Whether the content of an instruction is that of an XML declaration. -/
def isDeclaration (cs : List Char) : Bool :=
  match after? "xml".toList cs with
  | some [] => true
  | some (c :: _) => isSpace c
  | none => false

/-- Whether an instruction that never ends would be an XML declaration. -/
def opensDeclaration (cs : List Char) : Bool :=
  match after? "xml".toList cs with
  | some [] => true
  | some (c :: _) => isSpace c || c == '?'
  | none => false

/-- A processing instruction or XML declaration, its `<?` read already.  The `?` of its end may be the one of its
beginning, which is then no instruction. -/
def nextInstruction (cs : List Char) : Step :=
  if cs.head? = some '>' then .error .instructionNotClosed
  else match cut? "?>".toList cs with
    | some (a, r) => .ok (if isDeclaration a then .declaration else .instruction a, r)
    | none => .error (if opensDeclaration cs then .declarationNotClosed else .instructionNotClosed)

/-- What follows the keyword `DOCTYPE` in any case. -/
def afterKeyword? (cs : List Char) : Option (List Char) :=
  if (cs.take 7).map Char.toUpper = "DOCTYPE".toList then some (cs.drop 7) else none

/-- A document type declaration, its `<!` read already. -/
def nextDoctype (cs : List Char) : Step :=
  match afterKeyword? cs with
  | none => .error .doctypeNotClosed
  | some cs => match Doctype.afterDoctype none cs with
    | none => .error .doctypeNotClosed
    | some r =>
      match (cs.take (cs.length - r.length - 1)).dropWhile isSpace with
      | [] => .error .doctypeWithoutName
      | a => .ok (.doctype a, r)

/-- A comment, CDATA section or document type declaration, its `<!` read already. -/
def nextBang (cs : List Char) : Step :=
  match cs.head? with
  | some '[' => match (after? "[CDATA[".toList cs).bind (cut? "]]>".toList) with
    | some (a, r) => .ok (.cdata a, r)
    | none => .error .cdataNotClosed
  | some '-' => match (after? "--".toList cs).bind (cut? "-->".toList) with
    | some (a, r) => .ok (.comment a, r)
    | none => .error .commentNotClosed
  | some 'D' => nextDoctype cs
  | some 'd' => nextDoctype cs
  | _ => .error .unknownMarkup

/-- A piece that begins with `<`, which has been read. -/
def nextAngle : List Char → Step
  | '!' :: cs => nextBang cs
  | '?' :: cs => nextInstruction cs
  | '/' :: cs => nextClosing cs
  | cs => nextTag cs

/-- The first piece of a text, given by its first character and the rest. -/
def next (c : Char) (cs : List Char) : Step :=
  if c = '<' then nextAngle cs
  else if c = '&' then nextReference cs
  else .ok (.text (c :: cs.takeWhile isText), cs.dropWhile isText)

/-! ## A piece leaves a shorter rest -/

theorem length_lt_of_tag {q : Option Char} {cs a r : List Char} (h : tag q cs = .ok (a, r)) :
    r.length < cs.length := by
  fun_induction tag q cs generalizing a with
  | case1 => cases h
  | case2 => cases h
  | case3 => cases h; simp
  | case4 c cs _ a' r' h' ih => cases h; have := ih h'; simp only [List.length_cons]; omega
  | case5 => cases h
  | case6 q c cs a' r' h' ih => cases h; have := ih h'; simp only [List.length_cons]; omega
  | case7 => cases h

theorem length_le_of_nextReference {cs r : List Char} {m : Markup} (h : nextReference cs = .ok (m, r)) :
    r.length ≤ cs.length := by
  simp only [nextReference] at h
  split at h
  · rename_i r' hr
    cases h
    have := (List.dropWhile_sublist (l := cs) (fun c => c != ';' && isText c)).length_le
    rw [hr, List.length_cons] at this
    omega
  · cases h

theorem length_le_of_nextDoctype {cs r : List Char} {m : Markup} (h : nextDoctype cs = .ok (m, r)) :
    r.length ≤ cs.length := by
  simp only [nextDoctype, afterKeyword?] at h
  split at h
  · cases h
  · rename_i cs' hk
    split at hk
    · cases hk
      split at h
      · cases h
      · rename_i r' hr
        split at h
        · cases h
        · cases h
          have := Doctype.length_le_of_afterDoctype hr
          simp only [List.length_drop] at this
          omega
    · cases hk

theorem length_le_of_cut_after {p q cs a r : List Char} (h : (after? p cs).bind (cut? q) = some (a, r)) :
    r.length ≤ cs.length := by
  obtain ⟨cs', h1, h2⟩ := Option.bind_eq_some_iff.1 h
  have e1 := congrArg List.length (Text.after?_eq_some h1)
  have e2 := congrArg List.length (Text.cut?_eq_some h2)
  simp only [List.length_append] at e1 e2
  omega

theorem length_le_of_nextBang {cs r : List Char} {m : Markup} (h : nextBang cs = .ok (m, r)) :
    r.length ≤ cs.length := by
  unfold nextBang at h
  split at h
  · split at h
    · rename_i hc
      cases h
      exact length_le_of_cut_after hc
    · cases h
  · split at h
    · rename_i hc
      cases h
      exact length_le_of_cut_after hc
    · cases h
  · exact length_le_of_nextDoctype h
  · exact length_le_of_nextDoctype h
  · cases h

theorem length_le_of_nextInstruction {cs r : List Char} {m : Markup} (h : nextInstruction cs = .ok (m, r)) :
    r.length ≤ cs.length := by
  unfold nextInstruction at h
  split at h
  · cases h
  · split at h
    · rename_i hc
      cases h
      exact Nat.le_of_lt (Text.length_lt_of_cut? (by decide) hc)
    · cases h

theorem length_le_of_nextAngle {cs r : List Char} {m : Markup} (h : nextAngle cs = .ok (m, r)) :
    r.length ≤ cs.length := by
  unfold nextAngle at h
  split at h
  · exact Nat.le_succ_of_le (length_le_of_nextBang h)
  · exact Nat.le_succ_of_le (length_le_of_nextInstruction h)
  · unfold nextClosing at h
    split at h
    · rename_i ht
      cases h
      exact Nat.le_succ_of_le (Nat.le_of_lt (length_lt_of_tag ht))
    · cases h
  · unfold nextTag at h
    split at h
    · rename_i ht
      cases h
      exact Nat.le_of_lt (length_lt_of_tag ht)
    · cases h

/-- **Reading a piece leaves no more than what follows its first character.** -/
theorem length_le_of_next {c : Char} {cs r : List Char} {m : Markup} (h : next c cs = .ok (m, r)) :
    r.length ≤ cs.length := by
  unfold next at h
  split at h
  · exact length_le_of_nextAngle h
  · split at h
    · exact length_le_of_nextReference h
    · cases h
      exact (List.dropWhile_sublist _).length_le

end Markup
end Xml
end Bookbinder
