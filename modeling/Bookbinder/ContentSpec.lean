import Bookbinder.Injection.Policy
import Bookbinder.Outline
/-!
# Content specifications

A content specification is what an author hands in: a book's metadata and its outline.  `ContentSpec.text` is the
text that shows it in the book, the authored text where there is one.
-/
namespace Bookbinder

/-- Where a topic's lists of links come from. -/
inductive OutputStyle where
  /-- From the relations that the outline declares. -/
  | outlined
  /-- From the relations of the topics, by topic type. -/
  | skynet
deriving DecidableEq, Repr, Inhabited

structure ContentSpec where
  id : Option Int := none
  revision : Option Int := none
  title : String
  subtitle : Option String := none
  product : Option String := none
  version : Option String := none
  edition : Option String := none
  copyrightHolder : Option String := none
  abstractText : Option String := none
  locale : String
  outputStyle : OutputStyle := .outlined
  brand : Option String := none
  /-- Lines to be added to the publisher's configuration. -/
  publicanCfg : Option String := none
  injection : InjectionMode := .none
  injectionTypes : List String := []
  root : Level
  /-- The text the outline was authored in. -/
  sourceText : Option String := none
deriving Inhabited

/-- A specification with an empty outline. -/
def ContentSpec.ofTitle (title locale : String) : ContentSpec :=
  { title, locale, root := ⟨{ kind := .base, title }, []⟩ }

/-- The line of a reference: its title, the topic's id and revision, and its target id. -/
def TopicRef.line (r : TopicRef) : String :=
  r.title ++ " [" ++ toString r.topicId
    ++ (match r.revision with | some n => ", rev: " ++ toString n | none => "") ++ "]"
    ++ (match r.target with | some t => " [" ++ t ++ "]" | none => "")

def indent (depth : Nat) : String :=
  String.ofList (List.replicate (2 * depth) ' ')

mutual

/-- An item's lines, indented by two spaces for each level above. -/
def Item.text (depth : Nat) : Item → String
  | .topic ref => indent depth ++ ref.line ++ "\n"
  | .level heading children =>
    indent depth ++ heading.kind.name ++ ": " ++ heading.title ++ "\n" ++ itemsText (depth + 1) children

def itemsText (depth : Nat) : List Item → String
  | [] => ""
  | i :: is => i.text depth ++ itemsText depth is

end

namespace ContentSpec

/-- A line of metadata, if there is anything to tell. -/
def metaLine (name : String) : Option String → String
  | some value => name ++ " = " ++ value ++ "\n"
  | none => ""

/-- The specification's text: as authored, else its metadata and its outline. -/
def text (s : ContentSpec) : String :=
  match s.sourceText with
  | some source => source
  | none =>
    metaLine "ID" (s.id.map toString) ++ metaLine "Title" (some s.title) ++ metaLine "Subtitle" s.subtitle
      ++ metaLine "Product" s.product ++ metaLine "Version" s.version ++ metaLine "Brand" s.brand
      ++ (if s.outputStyle = .skynet then "Output Style = skynet\n" else "")
      ++ "\n" ++ itemsText 0 s.root.children

end ContentSpec
end Bookbinder
