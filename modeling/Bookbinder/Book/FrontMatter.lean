import Bookbinder.Book.Archive
import Bookbinder.Book.Draft
import Bookbinder.Book.PublicanConfig
/-!
# Front matter

The files that every book has: the publisher's configuration, what is told about the book and its writers, its history,
its entities, and the pictures and scripts of its style.  Metadata comes from the caller, else from the content
specification, else from a default.
-/
namespace Bookbinder
namespace Draft

variable {σ : Type}

/-! ## Paths -/

/-- The path of a file within the locale's folder. -/
def localePath (d : Draft) (file : String) : String :=
  d.name ++ "/" ++ d.locale ++ "/" ++ file

/-- What every page of the book is rendered from. -/
def baseContext (d : Draft) (rootElement : String) : Template.Context :=
  [("root_element", .text rootElement), ("escaped_book_title", .text d.name)]

/-- A page rendered to a file within the locale's folder. -/
def renderFile (b : Bindery σ) (d : Draft) (file : String) (page : Template.PageName) (c : Template.Context) :
    Press σ File := do
  return .ofText (d.localePath file) (← Press.render b.renderer page c)

/-! ## Metadata -/

def defaultBrand : String := "common"
def defaultEdition : String := "1"
def defaultHolder : String := "Red Hat, Inc."

/-- Metadata by its name: what the caller says, else the value at hand. -/
def metadata (d : Draft) (key : String) (value : Option String) : Option String :=
  match d.settings.overrides.find? fun o => o.1 == key with
  | some o => some o.2
  | none => value

def edition (d : Draft) : String :=
  (d.metadata "edition" d.spec.edition).getD defaultEdition

def date (b : Bindery σ) (d : Draft) : Calendar.Instant :=
  d.settings.buildDate.getD b.now

/-! ## The publisher's configuration -/

/-- Lines of the configuration that go beyond the base text. -/
def configLines (d : Draft) : List String :=
  ((d.spec.publicanCfg.filter fun extra => !Text.allBlank extra).map Text.trim).toList
    ++ (if d.settings.showRemarks then ["show_remarks: 1"] else [])
    ++ (d.settings.cvsPackage.map ("cvs_pkg: " ++ ·)).toList

def publicanConfig (b : Bindery σ) (d : Draft) : Press σ File := do
  let base ← Press.ask (b.store.text ConstantId.publicanCfg)
  return .ofText (d.name ++ "/publican.cfg")
    (PublicanConfig.text base (d.spec.brand.getD defaultBrand) d.locale d.configLines)

/-! ## The book and its writers -/

def bookInfo (b : Bindery σ) (d : Draft) : Press σ File :=
  let value := fun key text => Template.Value.ofText? (d.metadata key text)
  renderFile b d "Book_Info.xml" .bookInfo (d.baseContext "bookinfo" ++
    [("title", value "title" d.spec.title), ("subtitle", value "subtitle" d.spec.subtitle),
      ("product", value "product" d.spec.product), ("version", value "version" d.spec.version),
      ("edition", .text d.edition), ("pubsnumber", value "pubsnumber" none),
      ("abstract", value "abstract" d.spec.abstractText)])

/-- The tags of the topics that name writers, each once, in the order of the topics. -/
def writerTags (d : Draft) : List Int :=
  (((d.topics.flatMap (·.tags)).filter fun t => t.categories.contains writerCategory).map (·.id)).eraseDups

/-- The writers that tags name, as far as the store knows them. -/
def knownAuthors (b : Bindery σ) : List Int → Press σ (List Author)
  | [] => return []
  | id :: ids => do
    let author ← Press.ask (b.store.author id)
    return author.toList ++ (← knownAuthors b ids)

end Draft

def Author.value (a : Author) : Template.Value :=
  .record [("author_id", .int a.id), ("first_name", .text a.firstName), ("last_name", .text a.lastName),
    ("email", .ofText? a.email), ("organization", .ofText? a.organization), ("org_division", .ofText? a.division)]

namespace Draft

variable {σ : Type}

def authorGroup (b : Bindery σ) (d : Draft) : Press σ File := do
  let authors ← knownAuthors b d.writerTags
  renderFile b d "Author_Group.xml" .authorGroup
    (d.baseContext "authorgroup" ++ [("authors", .list (authors.map Author.value))])

def preface (b : Bindery σ) (d : Draft) : Press σ File :=
  renderFile b d "Preface.xml" .preface (d.baseContext "preface")

/-! ## Revision history -/

/-- Whom a revision is attributed to. -/
structure Reviser where
  firstName : String := "Unknown"
  lastName : String := "Writer"
  email : String := "Unknown"
deriving DecidableEq, Repr, Inhabited

def Reviser.value (r : Reviser) : Template.Value :=
  .record [("first_name", .text r.firstName), ("last_name", .text r.lastName), ("email", .text r.email)]

def Reviser.of (a : Author) : Reviser :=
  ⟨a.firstName, a.lastName, a.email.getD "Unknown"⟩

/-- The first of some tags that names a writer. -/
def firstAuthor (b : Bindery σ) : List Tag → Press σ (Option Author)
  | [] => return none
  | tag :: tags => do
    match ← Press.ask (b.store.author tag.id) with
    | some a => return some a
    | none => firstAuthor b tags

/-- The writer who goes by the requester's name. -/
def reviser (b : Bindery σ) (d : Draft) : Press σ Reviser := do
  match d.requester with
  | none => return {}
  | some name =>
    match ← firstAuthor b (← Press.ask (b.store.tagsNamed name)) with
    | some a => return .of a
    | none => return {}

def revisionNumber (d : Draft) : String :=
  d.edition ++ "-" ++ toString (d.spec.revision.getD 0)

def revisionMessage : String := "Initial creation of book by publican"

def revisionHistory (b : Bindery σ) (d : Draft) : Press σ File := do
  let author ← reviser b d
  renderFile b d "Revision_History.xml" .revisionHistory (d.baseContext "appendix" ++
    [("revnumber", .text d.revisionNumber), ("date", .text (Calendar.dateText (date b d).day)),
      ("author", author.value), ("messages", .list [.text revisionMessage])])

/-! ## Entities and style -/

def entities (b : Bindery σ) (d : Draft) : Press σ File :=
  renderFile b d (d.name ++ ".ent") .entities (d.baseContext "book" ++
    [("product", .ofText? (d.metadata "product" d.spec.product)), ("year", .int (date b d).date.year),
      ("holder", .text ((d.metadata "holder" d.spec.copyrightHolder).getD defaultHolder))])

/-- A text of the store as a file within the locale's folder. -/
def textAsset (b : Bindery σ) (d : Draft) (id : Int) (file : String) : Press σ File := do
  return .ofText (d.localePath file) (← Press.ask (b.store.text id))

/-- A file of the store as a file within the locale's folder. -/
def blobAsset (b : Bindery σ) (d : Draft) (id : Int) (file : String) : Press σ File := do
  return ⟨d.localePath file, ← Press.ask (b.store.blob id)⟩

/-- The icon, and what else the book's style needs. -/
def assets (b : Bindery σ) (d : Draft) : Press σ (List File) := do
  let icon ← textAsset b d ConstantId.icon "images/icon.svg"
  if d.spec.outputStyle = .skynet then
    let texts ← skynetTexts.mapM fun (id, file) => textAsset b d id file
    let blobs ← skynetBlobs.mapM fun (id, file) => blobAsset b d id file
    return icon :: texts ++ blobs
  else return [icon]

/-- All files of the front matter. -/
def frontMatter (b : Bindery σ) (d : Draft) : Press σ (List File) := do
  let config ← publicanConfig b d
  let info ← bookInfo b d
  let authors ← authorGroup b d
  let preface ← preface b d
  let history ← revisionHistory b d
  let entities ← entities b d
  return [config, info, authors, preface, history, entities] ++ (← assets b d)

end Draft
end Bookbinder
