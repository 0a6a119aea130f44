import Bookbinder.Text.Blank
import Bookbinder.Text.Find
import Bookbinder.Xml.Error
import Bookbinder.Xml.Node
/-!
# The name and the attributes of a tag

The content of a tag is a name and then attributes.  Values keep what was written between their quotes.  The first
fault in reading order is the answer, placed by the bytes before it.
-/
namespace Bookbinder
namespace Xml
namespace Tag

open Text (cut? isSpace)

/-- How many bytes a text takes. -/
def byteCount (cs : List Char) : Nat :=
  cs.foldr (fun c n => c.utf8Size + n) 0

/-- A character that continues an attribute's key. -/
def isKeyChar (c : Char) : Bool :=
  c != '=' && !isSpace c

/-- The quoted value after an `=`, in a tag whose content takes `size` bytes, and what follows it. -/
def value (size : Nat) (cs : List Char) : Except AttributeError (List Char × List Char) :=
  match cs.dropWhile isSpace with
  | [] => .error (.expectedValue size)
  | q :: r =>
    if q = '"' ∨ q = '\'' then
      match cut? [q] r with
      | some (a, r) => .ok (a, r)
      | none => .error (.expectedQuote size q)
    else .error (.unquotedValue (size - byteCount (q :: r)))

theorem length_dropWhile_cons {p : Char → Bool} {cs r : List Char} {c : Char} (h : cs.dropWhile p = c :: r) :
    r.length < cs.length := by
  have := (List.dropWhile_sublist p (l := cs)).length_le
  rw [h, List.length_cons] at this
  exact this

theorem length_lt_of_value {size : Nat} {cs a r : List Char} (h : value size cs = .ok (a, r)) :
    r.length < cs.length := by
  unfold value at h
  split at h
  · cases h
  · rename_i hc
    split at h
    · split at h
      · rename_i hq
        cases h
        have := length_dropWhile_cons hc
        have := Text.length_lt_of_cut? (by simp) hq
        omega
      · cases h
    · cases h

/-- The attributes of a tag whose content takes `size` bytes, from the given rest of it.  `seen` holds the keys read
before, with their positions.  A key runs from any character to the next space or `=`. -/
def attributes (size : Nat) (seen : List (List Char × Nat)) (cs : List Char) : Except AttributeError Attributes :=
  match h : cs.dropWhile isSpace with
  | [] => .ok []
  | c :: r =>
    match h' : (r.dropWhile isKeyChar).dropWhile isSpace with
    | '=' :: r' =>
      let start := size - byteCount (c :: r)
      let key := c :: r.takeWhile isKeyChar
      match seen.find? (fun s => s.1 == key) with
      | some (_, earlier) => .error (.duplicate start earlier)
      | none => match h'' : value size r' with
        | .error e => .error e
        | .ok (a, r'') =>
          have : r''.length < cs.length := by
            have := length_dropWhile_cons h
            have := length_dropWhile_cons h'
            have := (List.dropWhile_sublist isKeyChar (l := r)).length_le
            have := length_lt_of_value h''
            omega
          match attributes size ((key, start) :: seen) r'' with
          | .ok as => .ok ((String.ofList key, String.ofList a) :: as)
          | .error e => .error e
    | r' => .error (.expectedEquals (size - byteCount r'))
termination_by cs.length

/-- A tag's name is all before the first space; it may be empty. -/
def name (content : List Char) : String :=
  String.ofList (content.takeWhile fun c => !isSpace c)

/-- The element without children that a tag's content writes. -/
def element (content : List Char) : Except AttributeError Element :=
  match attributes (byteCount content) [] (content.dropWhile fun c => !isSpace c) with
  | .ok as => .ok ⟨name content, as, []⟩
  | .error e => .error e

end Tag
end Xml
end Bookbinder
