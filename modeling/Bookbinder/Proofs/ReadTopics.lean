import Bookbinder.Proofs.DraftSteps
import Bookbinder.Proofs.Registration
import Bookbinder.Proofs.TopicPages
/-!
# What reading makes of the references

Once all topics are read, a reference whose topic was found holds it, with the document that its author wrote or with a
body that stands in for one (`read_readTopics`).
-/
namespace Bookbinder

open Xml (Document Element)

/-- The document that a topic is written as, if it is. -/
def Manuscript.document? : Manuscript → Option Document
  | .document d => some d
  | _ => none

/-- What reading makes of a reference. -/
inductive TopicEntry.Read (stable : Bool) (e : TopicEntry) : Prop
  | absent (topic : e.topic = none) (outcome : e.outcome = .pending)
  | bodiless (t : Topic) (content : String) (topic : e.topic = some t) (manuscript : (Manuscript.of t).document? = none)
      (document : e.document = none) (outcome : e.outcome = .fallback content) (standsIn : Template.StandsIn content)
      (context : e.context = some (Draft.topicContext t (e.linkId stable)))
  | authored (t : Topic) (doc : Document) (topic : e.topic = some t)
      (manuscript : (Manuscript.of t).document? = some doc)
      (document : e.document = some (doc.withRootId (t.linkId stable))) (outcome : e.outcome = .pending)
      (context : e.context = some (Draft.topicContext t (e.linkId stable)))

/-- Every reference of a draft has a step of its own and is as reading left it. -/
structure Draft.AllRead (d : Draft) : Prop where
  steps : d.registry.steps.Nodup
  entries : ∀ e ∈ d.registry.entries, e.Read d.stable

namespace Draft

variable {σ : Type} {b : Bindery σ}

theorem topicId_standInContext (d : Draft) (t : Topic) : (d.standInContext t).get "topic_id" = .int t.sourceId := rfl

theorem standsIn_of_gives {page : Template.PageName}
    (hpage : page ∈ [.emptyTopic, .failedInjection, .failedValidation]) {d : Draft} {t : Topic} {content : String}
    {s s' : Session σ} (h : (Press.render Renderer.pages page (d.standInContext t)).Gives s content s') :
    Template.StandsIn content :=
  Template.standsIn_of_render hpage (d.topicId_standInContext t) h.render.1

theorem AllRead.attach {d : Draft} (h : d.AllRead) {t : Topic} {document : Option Document} {outcome : Outcome}
    (hnew : ∀ e : TopicEntry, (attachTo d.stable t document outcome e).Read d.stable) :
    (d.attach t document outcome).AllRead := by
  refine ⟨?_, fun e he => ?_⟩
  · have hsteps : (d.attach t document outcome).registry.steps = d.registry.steps := by
      rw [Registry.steps, Registry.steps, Draft.attach, List.map_map]
      refine List.map_congr_left fun e _ => ?_
      simp only [Function.comp]
      split <;> rfl
    rw [hsteps]
    exact h.steps
  · obtain ⟨e', he', rfl⟩ := List.mem_map.1 he
    change TopicEntry.Read d.stable
      (if e'.ref.topicId = t.sourceId then attachTo d.stable t document outcome e' else e')
    split
    · exact hnew e'
    · exact h.entries e' he'

/-- **Reading a topic leaves all references read.** -/
theorem AllRead.readTopic (hb : b.renderer = Renderer.pages) {d d' : Draft} {t : Topic} {s s' : Session σ}
    (h : d.AllRead) (hrun : (readTopic b d t).Gives s d' s') : d'.AllRead := by
  have hreads := reads_readTopic hrun
  rw [hb] at hreads
  cases hreads with
  | empty content s₁ s₂ manuscript rendered =>
    have hstand := standsIn_of_gives (by decide) rendered
    exact AllRead.attach (d := d.warn t _) ⟨h.steps, h.entries⟩ fun e =>
      .bodiless t content rfl (by rw [manuscript]; rfl) rfl rfl hstand rfl
  | malformed cause content s₁ s₂ manuscript rendered =>
    have hstand := standsIn_of_gives (by decide) rendered
    exact AllRead.attach (d := d.error t _) ⟨h.steps, h.entries⟩ fun e =>
      .bodiless t content rfl (by rw [manuscript]; rfl) rfl rfl hstand rfl
  | document doc ledger manuscript recorded =>
    exact AllRead.attach (d := { d with ledger }) ⟨h.steps, h.entries⟩ fun e =>
      .authored t doc rfl (by rw [manuscript]; rfl) rfl rfl rfl

/-- **Once all topics are read, all references are.** -/
theorem AllRead.readTopics (hb : b.renderer = Renderer.pages) {d d' : Draft} {s s' : Session σ} (h : d.AllRead)
    (hrun : (d.readTopics b).Gives s d' s') : d'.AllRead :=
  Press.Gives.foldlM (P := fun _ d => d.AllRead) (fun _ _ _ _ _ _ h hrun => h.readTopic hb hrun) h hrun

/-- A draft that has just been registered is read, as far as that goes. -/
theorem allRead_of_unlearned {d : Draft} (h : d.registry.Unlearned) : d.AllRead where
  steps := h.steps.imp Nat.ne_of_lt
  entries e he := .absent (h.entries e he).1 (h.entries e he).2.2

end Draft
end Bookbinder
