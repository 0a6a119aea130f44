import Bookbinder.Proofs.PlaceholderOrigins
/-!
# Completed translations

Completing translations fails for the first topic that has neither a translation nor a source nor a copy to make a
placeholder of, and else gives one translation for each topic: what was found, or a placeholder with an echo of each
relation (`complete_answers`).
-/
namespace Bookbinder
namespace Translation

variable {σ : Type} {store : TopicStore σ} {s s' : Session σ} {source? : Int → Option Topic} {found ts os : List Topic}
  {required : List Int} {locale : String}

/-! ## What stands for a topic -/

/-- The topics that placeholders are made of: every source that was asked for, and what copies lead to from there.
There is one of each id, and none of a topic that is translated. -/
structure Origins (source? : Int → Option Topic) (found : List Topic) (required : List Int) (os : List Topic) :
    Prop where
  nodup : (os.map (·.id)).Nodup
  untranslated : ∀ o ∈ os, ∀ t ∈ found, t.sourceId ≠ o.id
  sources : ∀ id ∈ required, (∀ t ∈ found, t.sourceId ≠ id) → ∀ o ∈ source? id, o ∈ os
  copies : ∀ o ∈ os, ∀ c ∈ o.copies, (∃ t ∈ found, t.sourceId = c.id) ∨ ∃ o' ∈ os, o'.id = c.id
  follows : Follows source? (required.filterMap source?) os

/-- A placeholder in the words of another topic, with an echo of each of its relations. -/
structure StandsFor (locale : String) (o p : Topic) : Prop where
  id : p.id = -o.id
  translation : p.translation = some ⟨o.id, o.revision, 100, true⟩
  locale : p.locale = locale
  title : p.title = "[" ++ o.locale ++ "] " ++ o.title
  revision : p.revision = o.revision
  xml : p.xml = o.xml
  tags : p.tags = o.tags
  properties : p.properties = o.properties
  outgoing : List.Forall₂ Echo o.outgoing p.outgoing
  incoming : List.Forall₂ Echo o.incoming p.incoming

/-- What a topic is translated to: the first translation that was found, else a placeholder for the source topic, or
where there is none, for a copy of it that something else has which a placeholder is made of. -/
inductive Answers (locale : String) (source? : Int → Option Topic) (found os : List Topic) (id : Int) : Topic → Prop
  | translation {t : Topic} (h : (found.find? fun u => u.sourceId == id) = some t) :
    Answers locale source? found os id t
  | source {o p : Topic} (hnone : ∀ u ∈ found, u.sourceId ≠ id) (ho : source? id = some o) (hp : StandsFor locale o p) :
    Answers locale source? found os id p
  | copy {o c p : Topic} (hnone : ∀ u ∈ found, u.sourceId ≠ id) (hsource : source? id = none) (ho : o ∈ os)
    (hc : c ∈ o.copies) (hid : c.id = id) (hp : StandsFor locale c p) : Answers locale source? found os id p

/-- Whether there is nothing that can stand for a topic. -/
def lacks (source? : Int → Option Topic) (found os : List Topic) (id : Int) : Bool :=
  !(found.any fun t => t.sourceId == id) && (source? id).isNone && !(os.any fun o => o.copies.any fun c => c.id == id)

theorem lacks_eq_true_iff {id : Int} : lacks source? found os id = true ↔
    (∀ t ∈ found, t.sourceId ≠ id) ∧ source? id = none ∧ ∀ o ∈ os, ∀ c ∈ o.copies, c.id ≠ id := by
  unfold lacks
  simp [and_assoc]

theorem Work.Mirrors.standsFor {w : Work} {o p : Topic} (h : w.Mirrors locale o p) : StandsFor locale o p := by
  have hfield {α : Type} (field : Topic → α) : field p.shallow = field (placeholder locale o) :=
    congrArg field h.shallow
  exact ⟨hfield Topic.id, hfield Topic.translation, hfield Topic.locale, hfield Topic.title, hfield Topic.revision,
    hfield Topic.xml, hfield Topic.tags, hfield Topic.properties, h.outgoing.imp fun _ _ he => he.toEcho,
    h.incoming.imp fun _ _ he => he.toEcho⟩

theorem Work.Mirrors.find?_ne_none {w : Work} {o p c : Topic} (h : w.Mirrors locale o p) (hc : c ∈ o.copies) :
    w.find? c.id ≠ none := by
  obtain ⟨hmem, ht⟩ := Topic.mem_copies.1 hc
  have hshown : ∃ c', w.shown? c.id = some c' := by
    rcases List.mem_append.1 hmem with hmem | hmem
    · obtain ⟨c', -, he⟩ := exists_of_forall₂_left h.outgoing hmem
      exact ⟨c', he.shown ht⟩
    · obtain ⟨c', -, he⟩ := exists_of_forall₂_left h.incoming hmem
      exact ⟨c', he.shown ht⟩
  obtain ⟨c', hc'⟩ := hshown
  obtain ⟨t, hfind, -⟩ := Option.map_eq_some_iff.1 hc'
  rw [hfind]
  exact Option.some_ne_none t

theorem exists_origins (ts : List Topic) (required : List Int) (hfound : ∀ t ∈ found, t.isTranslated = true)
    (locale : String) : ∃ os, Origins (given? ts) found required os ∧
      Work.Makes locale os ⟨found, lastOfEach ts⟩ (completed found ts required locale) := by
  obtain ⟨os, hmakes, hfollows, hsources⟩ := exists_makes_completed ts required hfound locale
  refine ⟨os, ⟨hmakes.nodup, fun o ho => find?_found_eq_none_iff.1 (hmakes.fresh o ho), hsources, fun o ho c hc => ?_,
    hfollows⟩, hmakes⟩
  obtain ⟨p, -, hmirrors⟩ := hmakes.mirrored o ho
  by_cases hknown : ∃ t ∈ found, t.sourceId = c.id
  · exact .inl hknown
  · refine .inr (hmakes.mem_ids (find?_found_eq_none_iff.2 fun t ht he => ?_) (hmirrors.find?_ne_none hc))
    exact hknown ⟨t, ht, he⟩

section Completing

variable {id : Int} {p : Topic}

/-- **What is known in the end of a required topic answers for it.** -/
theorem Origins.answers (h : Origins (given? ts) found required os)
    (hmakes : Work.Makes locale os ⟨found, lastOfEach ts⟩ (completed found ts required locale))
    (hp : (completed found ts required locale).find? id = some p) : Answers locale (given? ts) found os id p := by
  cases hknown : (Work.mk found (lastOfEach ts)).find? id with
  | some t =>
    rw [hmakes.find?_eq_some hknown] at hp
    cases hp
    exact .translation hknown
  | none =>
    have hnone := find?_found_eq_none_iff.1 hknown
    obtain ⟨o, ho, rfl⟩ := hmakes.mem_ids hknown (by rw [hp]; exact Option.some_ne_none p)
    obtain ⟨q, hq, hmirrors⟩ := hmakes.mirrored o ho
    rw [hq] at hp
    cases hp
    cases hsource : given? ts o.id with
    | some s =>
      obtain rfl : o = s := h.follows.eq_source (fun _ _ => id_of_given?) ho hsource
      exact .source hnone hsource hmirrors.standsFor
    | none =>
      -- Without a source an origin is itself a copy, and it is not among the topics known from the start.
      obtain ⟨c, hc, horigin⟩ := h.follows.exists_origin o ho
      have hid : (origin (given? ts) c).id = c.id := id_origin (fun _ _ => id_of_given?) c
      obtain rfl : c = o := by rw [← horigin, origin, ← hid, horigin, hsource, Option.getD_none]
      rcases hc with hc | ⟨o', ho', hc⟩
      · obtain ⟨i, -, hi⟩ := List.mem_filterMap.1 hc
        rw [← id_of_given? hi, hsource] at hi
        cases hi
      · exact .copy hnone hsource ho' hc rfl hmirrors.standsFor

theorem Origins.isNone_find? (h : Origins (given? ts) found required os)
    (hmakes : Work.Makes locale os ⟨found, lastOfEach ts⟩ (completed found ts required locale)) (hid : id ∈ required) :
    ((completed found ts required locale).find? id).isNone = lacks (given? ts) found os id := by
  rw [Bool.eq_iff_iff, Option.isNone_iff_eq_none, lacks_eq_true_iff]
  constructor
  · intro hnone
    have hknown := find?_found_eq_none_iff.1 (hmakes.find?_eq_none hnone)
    refine ⟨hknown, ?_, fun o ho c hc he => ?_⟩
    · rw [Option.eq_none_iff_forall_ne_some]
      intro s hs
      obtain ⟨p, hp, -⟩ := hmakes.mirrored s (h.sources id hid hknown s hs)
      rw [id_of_given? hs, hnone] at hp
      cases hp
    · obtain ⟨p, -, hmirrors⟩ := hmakes.mirrored o ho
      exact hmirrors.find?_ne_none hc (he ▸ hnone)
  · rintro ⟨hknown, hsource, hcopies⟩
    rw [Option.eq_none_iff_forall_ne_some]
    intro p hp
    cases h.answers hmakes hp with
    | translation ht => exact hknown _ (List.mem_of_find?_eq_some ht) (by simpa using List.find?_some ht)
    | source _ ho _ =>
      rw [hsource] at ho
      cases ho
    | copy _ _ ho hc he _ => exact hcopies _ ho _ hc he

end Completing

/-! ## Whether there is an answer for each topic -/

/-- Completing translations comes down to looking up what is known in the end. -/
theorem exists_run_complete (hs : s.cancelled = false)
    (hgiven : (store.topics (missingIds found required) s.store).result = .ok ts)
    (hrunning : (store.topics (missingIds found required) s.store).cancelled = false) (locale : String) :
    ∃ t : Session σ, t.cancelled = false ∧ (complete store found required locale).run.run s
      = (required.mapM (Press.present (completed found ts required locale).find?) : Press σ (List Topic)).run.run t := by
  have hask : (Press.ask (store.topics (missingIds found required))).Gives s ts
      ⟨(store.topics (missingIds found required) s.store).state, false⟩ := by
    rw [Press.Gives, Press.run_ask, hgiven, hrunning, hs]
    rfl
  unfold complete
  rw [(Press.gives_check hs).run_bind]
  dsimp only
  split
  · rename_i hnone
    refine ⟨s, hs, ?_⟩
    rw [collect_eq, completed, List.isEmpty_iff.1 hnone]
    rfl
  · refine ⟨⟨(store.topics (missingIds found required) s.store).state, false⟩, rfl, ?_⟩
    rw [hask.run_bind, (gives_addSources rfl locale _ _).run_bind, collect_eq]
    rfl

theorem failure?_complete (hs : s.cancelled = false)
    (hgiven : (store.topics (missingIds found required) s.store).result = .ok ts)
    (hrunning : (store.topics (missingIds found required) s.store).cancelled = false)
    (horigins : Origins (given? ts) found required os)
    (hmakes : Work.Makes locale os ⟨found, lastOfEach ts⟩ (completed found ts required locale)) :
    (complete store found required locale).failure? s
      = (required.find? (lacks (given? ts) found os)).map Press.missingTopic := by
  obtain ⟨t, -, hrun⟩ := exists_run_complete hs hgiven hrunning locale
  have hlacks : (required.find? fun id => ((completed found ts required locale).find? id).isNone)
      = required.find? (lacks (given? ts) found os) :=
    List.find?_congr fun id hid => horigins.isNone_find? hmakes hid
  rw [← hlacks, ← Press.failure?_mapM_present, Press.failure?, hrun]
  rfl

theorem Origins.forall₂_answers (hs : s.cancelled = false)
    (hgiven : (store.topics (missingIds found required) s.store).result = .ok ts)
    (hrunning : (store.topics (missingIds found required) s.store).cancelled = false)
    (horigins : Origins (given? ts) found required os)
    (hmakes : Work.Makes locale os ⟨found, lastOfEach ts⟩ (completed found ts required locale)) {answers : List Topic}
    (h : (complete store found required locale).Gives s answers s') :
    List.Forall₂ (Answers locale (given? ts) found os) required answers := by
  obtain ⟨t, -, hrun⟩ := exists_run_complete hs hgiven hrunning locale
  refine (Press.Gives.mapM (hrun.symm.trans h)).imp fun id p hp => ?_
  obtain ⟨_, _, hp⟩ := hp
  unfold Press.present at hp
  split at hp
  · rename_i q hfind
    obtain ⟨rfl, -⟩ := hp.pure
    exact horigins.answers hmakes hfind
  · exact hp.throw.elim

/-- **Completing translations fails for the first topic that nothing can stand for, and else every topic has an
answer.** -/
theorem complete_answers (hs : s.cancelled = false) (hfound : ∀ t ∈ found, t.isTranslated = true)
    (hgiven : (store.topics (missingIds found required) s.store).result = .ok ts)
    (hrunning : (store.topics (missingIds found required) s.store).cancelled = false) (locale : String) :
    ∃ os, Origins (given? ts) found required os ∧
      (complete store found required locale).failure? s
        = (required.find? (lacks (given? ts) found os)).map Press.missingTopic ∧
      (required.find? (lacks (given? ts) found os) = none →
        ∃ answers s', (complete store found required locale).Gives s answers s' ∧
          List.Forall₂ (Answers locale (given? ts) found os) required answers) := by
  obtain ⟨os, horigins, hmakes⟩ := exists_origins ts required hfound locale
  have hfailure := failure?_complete hs hgiven hrunning horigins hmakes
  refine ⟨os, horigins, hfailure, fun hnone => ?_⟩
  rw [hnone] at hfailure
  obtain ⟨answers, s', hresult⟩ := Press.exists_gives_of_failure? hfailure
  exact ⟨answers, s', hresult, horigins.forall₂_answers hs hgiven hrunning hmakes hresult⟩

/-- Two topics that point at each other. -/
def circle : List Topic :=
  Topic.relateIn (Topic.relateIn [.ofText 1 "A" "<section/>", .ofText 2 "B" "<section/>"] 1 2) 2 1

def circleSession : Session MemoryStore where
  store := { topics := circle }

/-- Each topic of a circle has an answer. -/
theorem complete_answers_of_circle : circleSession.cancelled = false ∧
    (MemoryStore.store.topics (missingIds [] [1, 2, 1]) circleSession.store).result = .ok circle ∧
    (MemoryStore.store.topics (missingIds [] [1, 2, 1]) circleSession.store).cancelled = false ∧
    ∃ os answers s', Origins (given? circle) [] [1, 2, 1] os ∧
      (complete MemoryStore.store [] [1, 2, 1] "de-DE").Gives circleSession answers s' ∧
      List.Forall₂ (Answers "de-DE" (given? circle) [] os) [1, 2, 1] answers := by
  have hgiven : (MemoryStore.store.topics (missingIds [] [1, 2, 1]) circleSession.store).result = .ok circle := rfl
  obtain ⟨os, horigins, -, hgives⟩ := complete_answers (s := circleSession) rfl (fun _ h => absurd h List.not_mem_nil)
    hgiven rfl "de-DE"
  have hstored : ∀ id ∈ [(1 : Int), 2, 1], (given? circle id).isSome := by decide
  have hnone : [1, 2, 1].find? (lacks (given? circle) [] os) = none := by
    refine List.find?_eq_none.2 fun id hid hlacks => ?_
    have := hstored id hid
    rw [(lacks_eq_true_iff.1 hlacks).2.1] at this
    cases this
  obtain ⟨answers, s', hrun, hanswers⟩ := hgives hnone
  exact ⟨rfl, hgiven, rfl, os, answers, s', horigins, hrun, hanswers⟩

/-- Where a stored topic holds a copy of one that is neither stored nor translated, completing does not fail for it. -/
theorem failure?_complete_of_copy : Bindery.copyingSession.cancelled = false ∧
    (MemoryStore.store.topics (missingIds [] [1, 2]) Bindery.copyingSession.store).result = .ok [Bindery.copyingTopic] ∧
    (MemoryStore.store.topics (missingIds [] [1, 2]) Bindery.copyingSession.store).cancelled = false ∧
    ([1, 2].find? fun id => (Bindery.copyingSession.store.topic? id).isNone) = some 2 ∧
    (complete MemoryStore.store [] [1, 2] "de-DE").failure? Bindery.copyingSession = none := by
  have hgiven : (MemoryStore.store.topics (missingIds [] [1, 2]) Bindery.copyingSession.store).result
      = .ok [Bindery.copyingTopic] := rfl
  refine ⟨rfl, hgiven, rfl, by decide, ?_⟩
  obtain ⟨os, horigins, hmakes⟩ :=
    exists_origins [Bindery.copyingTopic] [1, 2] (fun _ h => absurd h List.not_mem_nil) "de-DE"
  have hmem : Bindery.copyingTopic ∈ os :=
    horigins.sources 1 (by decide) (fun _ h => absurd h List.not_mem_nil) Bindery.copyingTopic rfl
  rw [failure?_complete rfl hgiven rfl horigins hmakes, Option.map_eq_none_iff, List.find?_eq_none]
  intro id hid hlacks
  obtain ⟨-, hsource, hcopies⟩ := lacks_eq_true_iff.1 hlacks
  rcases List.mem_pair.1 hid with rfl | rfl
  · cases hsource
  · exact hcopies _ hmem _ Bindery.mem_copies_copyingTopic rfl

end Translation
end Bookbinder
