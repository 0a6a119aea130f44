import Bookbinder.Book.BugReport
import Bookbinder.Book.Manuscript
import Bookbinder.Injection.OutlineLinks
import Bookbinder.Injection.RelatedList
import Bookbinder.Injection.Substitution
import Bookbinder.Text.Utf8
import Bookbinder.Xml.CharacterData
/-!
# References to topics

Every reference gets a document of its own: markers are substituted, lists of links are added, and the page that comes
out is validated and its ids are made unique.  A topic whose markers cannot be resolved, or whose page is not valid, is
published as a page that says so.
-/
namespace Bookbinder

open Xml (Document Element)

namespace Draft

variable {σ : Type}

/-! ## Translations -/

def placeholderMessage (t : Topic) : String :=
  "Topic ID " ++ toString t.sourceId ++ ", Revision " ++ toString t.sourceRevision ++ ", Title \""
    ++ Text.escape t.title ++ "\" is an untranslated topic."

/-- The related topics of a translation that are placeholders themselves.  Those outside the book are of no interest
where missing injections are tolerated. -/
def untranslated (d : Draft) (t : Topic) : List Topic :=
  if t.isTranslated then
    t.outgoing.filter fun r =>
      r.isDummy && (d.registry.containsTopic r.sourceId || !d.settings.ignoreMissingInjections)
  else []

/-- What is to be said about the state of a topic's translation. -/
def translationWarnings (d : Draft) (t : Topic) : List String :=
  (d.untranslated t).map placeholderMessage
    ++ if t.isDummy then ["This topic is an untranslated topic."]
      else if t.isIncomplete then ["This topic is a translated topic that hasn't been fully translated."]
      else []

/-! ## Markers and links -/

/-- A document after its markers were substituted, what is said about them, and what its page is rendered from. -/
structure Injected where
  root : Element
  report : Injection.Report
  context : Template.Context

/-- The policy of the book. -/
def policy (d : Draft) : InjectionPolicy :=
  .resolve d.settings.injection d.settings.injectionTypes d.spec.injection d.spec.injectionTypes

/-- The lists of links that go with the reference at a step, given what its markers claimed. -/
def addLinks (d : Draft) (step : Nat) (t : Topic) (i : Injected) : Injected :=
  match d.spec.outputStyle with
  | .skynet =>
    let related := RelatedTopics.of (.book d.registry d.stable step) i.report.claimed
      d.settings.ignoreMissingInjections t
    { i with
      report := { i.report with errors := i.report.errors ++ related.message?.toList }
      context := i.context.set "related_topics" (.list (related.lists.map RelatedList.value)) }
  | .outlined => { i with context := (OutlineLinks.collect d.registry d.stable step).apply i.context }

/-- The document of the reference at a step with all that is injected into it. -/
def inject (d : Draft) (step : Nat) (t : Topic) (root : Element) (context : Template.Context) : Injected :=
  let policy := d.policy
  let (root, report) :=
    if policy.allowedFor t then
      Injection.process (.book d.registry d.stable step) d.settings.ignoreMissingInjections t root
    else (root, {})
  if policy.allowed then d.addLinks step t ⟨root, report, context⟩ else ⟨root, report, context⟩

/-! ## Pages -/

def injectionMessage (root : Element) : String :=
  "Topic has invalid Injection Points. The processed XML is <programlisting>" ++ Xml.wrapInCdata root.toXml
    ++ "</programlisting>"

def invalidMessage (failure page : String) : String :=
  "Topic has invalid Docbook XML. The error is <emphasis>" ++ Text.escape failure
    ++ "</emphasis>. The processed XML is <programlisting>" ++ Xml.wrapInCdata page ++ "</programlisting>"

/-- The link by which bugs in a topic are reported. -/
def bugLink (d : Draft) (t : Topic) : String :=
  (BugReport.of t d.spec.product d.spec.version (d.settings.buildName.getD d.name) d.locale).url d.settings.bugzillaUrl

/-- What the page of a document is rendered from.  The page supplies the title, so the document's own is dropped. -/
def pageContext (d : Draft) (t : Topic) (root : Element) (context : Template.Context) : Template.Context :=
  let context := if d.settings.insertBugLinks then context.set "bug_link" (.text (d.bugLink t)) else context
  (context.set "content" (.text (root.dropFirstChild "title").innerXml)).set "include_preamble" (.bool false)

/-- The document that a page is, or what is wrong with it, and the validator for the next page. -/
def judge (validator : Validator) (dtd page : String) : Except String Document × Validator :=
  match Document.read page with
  | .error e => (.error e.message, validator)
  | .ok doc =>
    let (verdict, validator) := validator.validate dtd doc
    (if verdict.passed then .ok doc else .error (verdict.message.getD ""), validator)

/-- What has become of one reference. -/
structure Settled where
  document : Option Document
  outcome : Outcome
  context : Template.Context

/-- The draft with what has become of the reference at a step. -/
def settle (d : Draft) (step : Nat) (s : Settled) : Draft :=
  { d with registry := d.registry.update step fun e =>
      { e with document := s.document, outcome := s.outcome, context := some s.context } }

/-- A valid page with its ids made unique. -/
def accept (d : Draft) (ref : TopicRef) (t : Topic) (context : Template.Context) (doc : Document) : Draft :=
  let (_, root, ledger) := d.ledger.enforce t.sourceId ref.duplicate ref.step doc.root
  { d with ledger }.settle ref.step ⟨some { doc with root }, .valid, context⟩

/-- A page that says why there is none. -/
def refuse (b : Bindery σ) (d : Draft) (page : Template.PageName) (ref : TopicRef) (t : Topic)
    (context : Template.Context) : Press σ Draft := do
  let content ← Press.render b.renderer page (d.standInContext t)
  return d.settle ref.step ⟨none, .fallback content, context⟩

/-- The page of an injected document, if it is valid. -/
def typeset (b : Bindery σ) (dtd : String) (d : Draft) (ref : TopicRef) (t : Topic) (i : Injected) :
    Press σ Draft := do
  if i.report.isValid then
    let context := d.pageContext t i.root i.context
    let page ← Press.render b.renderer .topic context
    let (judged, validator) := judge d.validator dtd page
    let d := { d with validator }
    match judged with
    | .ok doc =>
      Press.check
      return d.accept ref t context doc
    | .error failure => refuse b (d.error t (invalidMessage failure page)) .failedValidation ref t context
  else refuse b (d.error t (injectionMessage i.root)) .failedInjection ref t i.context

/-- A reference's document worked out, if its topic has one. -/
def processEntry (b : Bindery σ) (dtd : String) (d : Draft) (e : TopicEntry) : Press σ Draft := do
  match e.topic with
  | none => return d
  | some t =>
    let d := d.warnAll t (d.translationWarnings t)
    match e.document with
    | none => return d
    | some doc =>
      let root := (doc.withRootId (e.linkId d.stable)).root
      let i := d.inject e.ref.step t root (e.context.getD [])
      typeset b dtd ((d.warnAll t i.report.warnings).errorAll t i.report.errors) e.ref t i

/-- The reference at a step worked out. -/
def processStep (b : Bindery σ) (dtd : String) (d : Draft) (step : Nat) : Press σ Draft := do
  Press.check
  match d.registry.entry? step with
  | some e => processEntry b dtd d e
  | none => return d

/-- The link ids of all references and levels reserved, so that no id within a topic takes one. -/
def reserveLinkIds (d : Draft) : Draft :=
  let ids := d.registry.entries.map (·.linkId d.stable) ++ d.registry.levels.map (·.linkId d.stable)
  { d with ledger := ids.foldl IdLedger.reserve d.ledger }

/-- All references worked out, in document order. -/
def processReferences (b : Bindery σ) (d : Draft) : Press σ Draft := do
  let dtd ← Press.ask (b.store.blob ConstantId.docbookDtd)
  d.registry.steps.foldlM (processStep b (Utf8.text dtd)) d.reserveLinkIds

end Draft
end Bookbinder
