import Bookbinder.Registry
/-!
# The layout of a book

Which levels get files of their own, and what every file of the outline includes.  The levels directly below the book,
or below one of its parts, are its chapters.  Levels without any reference are left out, and so are references outside
all chapters.
-/
namespace Bookbinder

/-- A node of an outline as a file of the book shows it. -/
inductive OutlineNode where
  | inclusion (href : String)
  | element (name id title : String) (children : List OutlineNode)
deriving Inhabited

mutual

def OutlineNode.value : OutlineNode → Template.Value
  | .inclusion href => .record [("kind", .text "include"), ("href", .text href)]
  | .element name id title children =>
    .record [("kind", .text "element"), ("element", .text name), ("id", .text id), ("title", .text title),
      ("children", .list (outlineValues children))]

def outlineValues : List OutlineNode → List Template.Value
  | [] => []
  | n :: ns => n.value :: outlineValues ns

end

namespace Layout

/-! ## Chapters -/

/-- The levels among items that hold a reference. -/
def usedLevels : List Item → List Level
  | [] => []
  | .topic _ :: is => usedLevels is
  | .level h children :: is => if itemsHaveRef children then ⟨h, children⟩ :: usedLevels is else usedLevels is

theorem hasRef_of_mem_usedLevels {l : Level} {is : List Item} (h : l ∈ usedLevels is) : l.hasRef = true := by
  fun_induction usedLevels is with
  | case1 => cases h
  | case2 _ is ih => exact ih h
  | case3 heading children is hu ih =>
    rcases List.mem_cons.1 h with rfl | h
    · exact hu
    · exact ih h
  | case4 heading children is hu ih => exact ih h

/-- The chapters of a level directly below the book: those of a part, else the level itself. -/
def chaptersIn (l : Level) : List Level :=
  if l.heading.kind = .part then usedLevels l.children else [l]

/-- The levels that get files of their own, in book order. -/
def chapters (root : Level) : List Level :=
  (usedLevels root.children).flatMap chaptersIn

/-- The references that end up in the book, in book order. -/
def outlined (root : Level) : List TopicRef :=
  (chapters root).flatMap Level.refs

/-- Whether the reference at a step ends up in the book. -/
def isOutlined (root : Level) (step : Nat) : Bool :=
  (outlined root).any fun ref => ref.step == step

/-! ## Files and what they include -/

/-- The file of a chapter, within the locale's folder. -/
def chapterFile (stable : Bool) (h : Heading) : String :=
  h.linkId stable ++ ".xml"

/-- The file of a topic with a link id. -/
def topicFile (linkId : String) : String :=
  "topics/" ++ linkId ++ ".xml"

/-- The file that a reference includes. -/
def refFile (r : Registry) (stable : Bool) (ref : TopicRef) : String :=
  topicFile (match r.entry? ref.step with
    | some e => e.linkId stable
    | none => "TopicID" ++ toString ref.topicId)

mutual

/-- What an item below a chapter is shown as: the inclusion of a reference's file, or an element for a level that holds
a reference. -/
def itemNodes (r : Registry) (stable : Bool) : Item → List OutlineNode
  | .topic ref => [.inclusion (refFile r stable ref)]
  | .level h children =>
    if itemsHaveRef children then [.element h.kind.element (h.linkId stable) h.title (nodes r stable children)] else []

/-- What the items of a chapter, or of a level below one, are shown as. -/
def nodes (r : Registry) (stable : Bool) : List Item → List OutlineNode
  | [] => []
  | i :: is => itemNodes r stable i ++ nodes r stable is

end

/-- What a level directly below the book is shown as: a part as an element with the inclusions of its chapters, any
other level as the inclusion of its file. -/
def topNode (stable : Bool) (l : Level) : OutlineNode :=
  if l.heading.kind = .part then
    .element l.heading.kind.element (l.heading.linkId stable) l.heading.title
      ((usedLevels l.children).map fun c => .inclusion (chapterFile stable c.heading))
  else .inclusion (chapterFile stable l.heading)

/-- What the book's own file shows of its outline. -/
def topNodes (stable : Bool) (root : Level) : List OutlineNode :=
  (usedLevels root.children).map (topNode stable)

end Layout
end Bookbinder
