import Bookbinder.Book.BackMatter
import Bookbinder.Book.Images
/-!
# The body of a book

The files of the chapters and topics, of the images, and of the book itself, which includes all others.
-/
namespace Bookbinder
namespace Draft

variable {σ : Type}

/-! ## Chapters -/

/-- What a chapter's page is rendered from. -/
def chapterContext (d : Draft) (l : Level) : Template.Context :=
  d.baseContext l.heading.kind.element ++
    [("element", .text l.heading.kind.element), ("id", .text (l.heading.linkId d.stable)),
      ("title", .text l.heading.title),
      ("children", .list (outlineValues (Layout.nodes d.registry d.stable l.children)))]

def chapter (b : Bindery σ) (d : Draft) (l : Level) : Press σ File :=
  renderFile b d (Layout.chapterFile d.stable l.heading) .chapter (d.chapterContext l)

/-! ## Topics -/

/-- What the page of a topic is rendered from if a body stands in for it. -/
def standInPageContext (d : Draft) (content : String) (c : Template.Context) : Template.Context :=
  (((c.set "root_element" (.text "section")).set "escaped_book_title" (.text d.name)).set "include_preamble"
    (.bool true)).set "content" (.text content)

/-- The file of a reference: its document after a preamble, or a page with what stands in for it. -/
def topicFile? (b : Bindery σ) (d : Draft) (preamble : String) (e : TopicEntry) : Press σ (Option File) := do
  let path := d.localePath (Layout.topicFile (e.linkId d.stable))
  match e.outcome, e.document with
  | .valid, some doc => return some (.ofText path (Text.trimEnd preamble ++ "\n" ++ doc.root.toXml))
  | .fallback content, _ =>
    let page ← Press.render b.renderer .topic (d.standInPageContext content (e.context.getD []))
    return some (.ofText path page)
  | _, _ => return none

/-- The files of the references that end up in the book. -/
def topicFiles (b : Bindery σ) (d : Draft) : Press σ (List File) := do
  let preamble ← Press.render b.renderer .preamble (d.baseContext "section")
  let entries := d.registry.entries.filter fun e => Layout.isOutlined d.outline e.ref.step
  return (← entries.mapM (topicFile? b d preamble)).filterMap id

/-! ## The book -/

def imageFile (d : Draft) (i : Image) : File :=
  ⟨d.localePath (ImageRef.path i.name), i.bytes⟩

/-- What the book's own file includes between preface and history. -/
def bookNodes (d : Draft) : List OutlineNode :=
  (if d.settings.suppressErrorsPage then [] else [.inclusion problemsFile])
    ++ Layout.topNodes d.stable d.outline
    ++ if d.settings.suppressContentSpecPage then [] else [.inclusion specFile]

def bookFile (b : Bindery σ) (d : Draft) : Press σ File :=
  renderFile b d (d.name ++ ".xml") .book
    (d.baseContext "book" ++ [("levels", .list (outlineValues d.bookNodes))])

/-- All files of the book, in the order in which they are written. -/
def files (b : Bindery σ) (d : Draft) (images : List Image) : Press σ (List File) := do
  Press.check
  let front ← frontMatter b d
  let problems ← problemChapters b d
  Press.check
  let chapters ← (Layout.chapters d.outline).mapM (chapter b d)
  let topics ← topicFiles b d
  let appendices ← specAppendices b d
  let book ← bookFile b d
  return front ++ problems ++ chapters ++ topics ++ images.map d.imageFile ++ appendices ++ [book]

end Draft
end Bookbinder
