import Bookbinder.Text.Decimal
import Bookbinder.Text.Find
/-!
# Names of images

The file names under which a book's images are stored.  A name tells the image's id, and a name is safe if it leads
nowhere outside the folder of images.
-/
namespace Bookbinder
namespace ImageName

/-- What follows the last slash. -/
def lastSegment (cs : List Char) : List Char :=
  (cs.reverse.takeWhile (· != '/')).reverse

/-- What precedes the last dot; all of a text without one. -/
def stem (cs : List Char) : List Char :=
  match cs.reverse.dropWhile (· != '.') with
  | _ :: r => r.reverse
  | [] => cs

/-- The id that an image's name tells: the number between its last slash and its last dot. -/
def id? (name : String) : Option Int :=
  Decimal.signed? (stem (lastSegment name.toList))

/-- Whether a name has only proper segments, and so stays inside its folder. -/
def isSafe (name : String) : Bool :=
  !name.toList.contains '\\' && (Text.splitAt '/' name.toList).all fun s => s != [] && s != ['.'] && s != ['.', '.']

/-- A name without the folder of images in front of it, however often that stands there. -/
def withoutFolder (cs : List Char) : List Char :=
  match h : Text.after? "images/".toList cs with
  | some r =>
    have : r.length < cs.length := by
      have := congrArg List.length (Text.after?_eq_some h)
      have e : "images/".toList.length = 7 := by decide
      simp only [List.length_append, e] at this
      omega
    withoutFolder r
  | none => cs
termination_by cs.length

/-- The name that an image has if its own cannot be used. -/
def placeholder : String := "failpenguin.png"

/-- The name under which the image of a reference is stored. -/
def ofReference (fileref : String) : String :=
  let name := String.ofList (withoutFolder fileref.toList)
  if isSafe name then name else placeholder

end ImageName
end Bookbinder
