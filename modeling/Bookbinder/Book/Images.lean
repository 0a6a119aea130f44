import Bookbinder.Book.Draft
import Bookbinder.Book.ImageName
import Bookbinder.Book.Layout
/-!
# Images

Every image that a topic of the book shows is moved into the book's folder of images and loaded from the store.  What
cannot be loaded is a problem of its topic and gives way to the placeholder.
-/
namespace Bookbinder

open Xml (Document)

/-- A reference to an image in a topic. -/
structure ImageRef where
  topic : Topic
  /-- Where the topic says that the image is. -/
  fileref : String
  /-- The name under which the image is stored. -/
  name : String

/-- An image of the book. -/
structure Image where
  name : String
  bytes : ByteArray

namespace ImageRef

/-- The place of an image within the locale's folder. -/
def path (name : String) : String :=
  "images/" ++ name

def notFoundMessage (id : Int) (fileref : String) : String :=
  "ImageFile ID " ++ toString id ++ " from image location " ++ Text.escape fileref ++ " was not found!"

def badNameMessage (fileref : String) : String :=
  Text.escape fileref
    ++ " is not a valid image. Must be in the format [ImageFileID].extension e.g. 123.png, or images/321.jpg"

/-- An element's attributes with its image moved, and the references gathered so far. -/
def relocate (t : Topic) (element : String) (as : Xml.Attributes) (refs : List ImageRef) :
    Xml.Attributes × List ImageRef :=
  if element = "imagedata" then
    match as.get? "fileref" with
    | some fileref =>
      let name := ImageName.ofReference fileref
      (as.set "fileref" (path name), refs ++ [⟨t, fileref, name⟩])
    | none => (as, refs)
  else (as, refs)

/-- A topic's document with its images moved, and its references to them. -/
def relocateAll (t : Topic) (doc : Document) : Document × List ImageRef :=
  let (root, refs) := doc.root.mapAttributes (relocate t) []
  ({ doc with root }, refs)

end ImageRef

namespace Draft

variable {σ : Type}

/-- A registered reference with its images moved, if it ends up in the book, and its references to them. -/
def relocateEntry (outline : Level) (e : TopicEntry) : TopicEntry × List ImageRef :=
  match e.topic, e.document with
  | some t, some doc =>
    if Layout.isOutlined outline e.ref.step then
      let (doc, refs) := ImageRef.relocateAll t doc
      ({ e with document := some doc }, refs)
    else (e, [])
  | _, _ => (e, [])

/-- The draft with all images moved, and the references to them in document order. -/
def relocateImages (d : Draft) : Draft × List ImageRef :=
  let moved := d.registry.entries.map (relocateEntry d.outline)
  ({ d with registry := { d.registry with entries := moved.map (·.1) } }, moved.flatMap (·.2))

/-- The image that a reference asks for, if the store has it. -/
def findImage (b : Bindery σ) (d : Draft) (r : ImageRef) : Press σ (Draft × Option ByteArray) := do
  match ImageName.id? r.name with
  | none => return (d.error r.topic (ImageRef.badNameMessage r.fileref), none)
  | some id =>
    match ← Press.ask (b.store.image id) with
    | some bytes => return (d, some bytes)
    | none => return (d.error r.topic (ImageRef.notFoundMessage id r.fileref), none)

/-- One reference's image loaded; of several under one name, the first is kept. -/
def loadImage (b : Bindery σ) (placeholder : ByteArray) (d : Draft) (images : List Image) (r : ImageRef) :
    Press σ (Draft × List Image) := do
  Press.check
  let (d, bytes) ← findImage b d r
  if images.any fun i => i.name == r.name then return (d, images)
  else return (d, images ++ [⟨r.name, bytes.getD placeholder⟩])

/-- All images moved and loaded. -/
def collectImages (b : Bindery σ) (d : Draft) : Press σ (Draft × List Image) := do
  let (d, refs) := d.relocateImages
  if refs.isEmpty then return (d, [])
  else
    let placeholder ← Press.ask (b.store.blob ConstantId.placeholderImage)
    refs.foldlM (fun (d, images) r => loadImage b placeholder d images r) (d, [])

end Draft
end Bookbinder
