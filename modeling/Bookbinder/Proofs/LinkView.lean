import Bookbinder.Book.References
/-!
# What links see of a draft

A build learns more and more about each reference: its document, its context, its outcome.  Where links lead depends on
none of that, and neither does what is injected into a topic: all of it is the same for a draft and for the draft
without what was learnt (`inject_bare`).
-/
namespace Bookbinder

/-- A reference without what is made of its topic. -/
def TopicEntry.bare (e : TopicEntry) : TopicEntry :=
  { e with document := none, context := none, outcome := .pending }

namespace TopicEntry

@[simp] theorem bare_ref (e : TopicEntry) : e.bare.ref = e.ref := rfl

@[simp] theorem bare_parent (e : TopicEntry) : e.bare.parent = e.parent := rfl

end TopicEntry

namespace Registry

/-- A registry without what is made of the topics. -/
def bare (r : Registry) : Registry :=
  { r with entries := r.entries.map TopicEntry.bare }

theorem containsTopic_bare (r : Registry) : r.bare.containsTopic = r.containsTopic := by
  funext id
  rw [containsTopic, containsTopic, bare, List.any_map]
  rfl

theorem entriesFor_bare (r : Registry) (id : Int) : r.bare.entriesFor id = (r.entriesFor id).map TopicEntry.bare := by
  rw [entriesFor, entriesFor, bare, List.filter_map]
  rfl

theorem nearest_map_bare (start : Nat) : ∀ es : List TopicEntry,
    nearest start (es.map TopicEntry.bare) = (nearest start es).map TopicEntry.bare
  | [] => rfl
  | e :: es => by
    rw [List.map_cons, nearest, nearest, nearest_map_bare start es]
    cases nearest start es with
    | none => rfl
    | some e' =>
      simp only [Option.map_some, TopicEntry.bare_ref]
      rw [apply_ite (Option.map TopicEntry.bare)]
      rfl

theorem closest?_bare (r : Registry) (id : Int) (start : Nat) :
    r.bare.closest? id start = (r.closest? id start).map TopicEntry.bare := by
  rw [closest?, closest?, entriesFor_bare, nearest_map_bare]

theorem entry?_bare (r : Registry) (step : Nat) : r.bare.entry? step = (r.entry? step).map TopicEntry.bare := by
  rw [Registry.entry?, Registry.entry?, bare, List.find?_map]
  rfl

theorem level?_bare (r : Registry) (index : Nat) : r.bare.level? index = r.level? index := rfl

theorem resolve?_bare (r : Registry) (id : String) : r.bare.resolve? id = r.resolve? id := rfl

theorem steps_bare (r : Registry) : r.bare.steps = r.steps := by
  rw [steps, steps, bare, List.map_map]
  rfl

theorem bare_update {f : TopicEntry → TopicEntry} (h : ∀ e, (f e).bare = e.bare) (r : Registry) (step : Nat) :
    (r.update step f).bare = r.bare := by
  have hmap : (r.update step f).entries.map TopicEntry.bare = r.entries.map TopicEntry.bare := by
    rw [update, List.map_map]
    refine List.map_congr_left fun e _ => ?_
    simp only [Function.comp]
    split
    · exact h e
    · rfl
  rw [bare, hmap]
  rfl

end Registry

/-- Links of a book lead where they led before anything was made of the topics. -/
theorem LinkTargets.book_bare (r : Registry) (stable : Bool) (start : Nat) :
    LinkTargets.book r.bare stable start = LinkTargets.book r stable start := by
  simp only [LinkTargets.book, r.containsTopic_bare, r.closest?_bare, Option.map_map]
  rfl

namespace OutlineLinks

theorem resolve?_bare (r : Registry) (stable : Bool) (target : String) :
    resolve? r.bare stable target = resolve? r stable target := by
  simp only [resolve?, Registry.resolve?_bare, Registry.entry?_bare, Registry.level?_bare, Option.map_map]
  rfl

theorem collect_bare (r : Registry) (stable : Bool) (step : Nat) :
    collect r.bare stable step = collect r stable step := by
  have hresolve : resolve? r.bare stable = resolve? r stable := funext (resolve?_bare r stable)
  rw [collect, collect, Registry.entry?_bare]
  cases r.entry? step with
  | none => rfl
  | some e =>
    simp only [Option.map_some, linksOf, hresolve, TopicEntry.bare_ref, TopicEntry.bare_parent, Registry.level?_bare]
    rfl

end OutlineLinks

namespace Draft

/-- A draft without what was learnt about its topics. -/
def bare (d : Draft) : Draft :=
  { d with registry := d.registry.bare, problems := ⟨"", []⟩, ledger := {}, validator := .dtd none }

theorem bare_warnAll (t : Topic) : ∀ (messages : List String) (d : Draft), (d.warnAll t messages).bare = d.bare
  | [], _ => rfl
  | _ :: ms, d => bare_warnAll t ms (d.warn t _)

/-- **What is injected into a topic does not depend on what was made of other topics.** -/
theorem inject_bare (d : Draft) : d.bare.inject = d.inject := by
  funext step t root context
  have htargets : LinkTargets.book d.bare.registry d.bare.stable step = LinkTargets.book d.registry d.stable step :=
    LinkTargets.book_bare d.registry d.stable step
  have hlinks :
      OutlineLinks.collect d.bare.registry d.bare.stable step = OutlineLinks.collect d.registry d.stable step :=
    OutlineLinks.collect_bare d.registry d.stable step
  simp only [inject, addLinks, htargets, hlinks]
  rfl

theorem inject_congr {d d' : Draft} (h : d.bare = d'.bare) : d.inject = d'.inject := by
  rw [← inject_bare d, h, inject_bare]

theorem pageContext_congr {d d' : Draft} (h : d.bare = d'.bare) : d.pageContext = d'.pageContext := by
  have hbare (d : Draft) : d.bare.pageContext = d.pageContext := rfl
  rw [← hbare d, h, hbare]

end Draft
end Bookbinder
