import Bookbinder.Injection.Link
/-!
# Links that the outline declares

The relations of a reference, resolved to links.  A relation whose target is unknown is passed over.  A reference with
steps before or after it is part of a process, and names the level that it stands in.
-/
namespace Bookbinder

/-- The links of one reference, by what they are for. -/
structure OutlineLinks where
  prerequisites : List RelatedLink := []
  seeAlso : List RelatedLink := []
  previousSteps : List RelatedLink := []
  nextSteps : List RelatedLink := []
  /-- The enclosing level, for a reference that is part of a process. -/
  process : Option RelatedLink := none
deriving DecidableEq, Repr, Inhabited

namespace OutlineLinks

/-- The link to what a target id names. -/
def resolve? (r : Registry) (stable : Bool) (target : String) : Option RelatedLink :=
  match r.resolve? target with
  | some (.topic step) => (r.entry? step).map fun e => ⟨.xref (e.linkId stable), e.title⟩
  | some (.level index) => (r.level? index).map fun l => ⟨.xref (l.linkId stable), l.heading.title⟩
  | none => none

/-- The links of the relations of a kind, in their order. -/
def linksOf (r : Registry) (stable : Bool) (kind : RelationKind) (relations : List Relation) : List RelatedLink :=
  (relations.filter fun rel => rel.kind == kind).filterMap fun rel => resolve? r stable rel.target

/-- The links of the reference at a step. -/
def collect (r : Registry) (stable : Bool) (step : Nat) : OutlineLinks :=
  match r.entry? step with
  | none => {}
  | some e =>
    let links := fun kind => linksOf r stable kind e.ref.relations
    { prerequisites := links .prerequisite
      seeAlso := links .related
      previousSteps := links .previous
      nextSteps := links .next
      process :=
        if (links .previous).isEmpty && (links .next).isEmpty then none
        else (r.level? e.parent).map fun l => ⟨.xref (l.linkId stable), l.heading.title⟩ }

/-- A context with a list of links under a name, unless the list is empty. -/
def setLinks (c : Template.Context) (name : String) (links : List RelatedLink) : Template.Context :=
  if links.isEmpty then c else c.set name (.list (links.map RelatedLink.value))

/-- The context of a page with the links added. -/
def apply (l : OutlineLinks) (c : Template.Context) : Template.Context :=
  let c := setLinks (setLinks c "prerequisites" l.prerequisites) "see_also" l.seeAlso
  match l.process with
  | none => c
  | some process =>
    setLinks (setLinks (c.set "process_link" process.value) "previous_steps" l.previousSteps) "next_steps" l.nextSteps

end OutlineLinks
end Bookbinder
