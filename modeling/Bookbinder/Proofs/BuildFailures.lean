import Bookbinder.Proofs.FinishedBuilds
import Bookbinder.Proofs.Placeholders
import Mathlib.Data.List.Find
/-!
# Why there is no book

On a store in memory a build that nobody cancels fails before anything is made of the book, or not at all: for its
settings, for an outline without references, or for the first topic that there is nothing to make from
(`failure_bind`).  What the topics hold is never a reason.
-/
namespace Bookbinder

/-! ## The topics that an outline refers to -/

/-- The ids of the topics referred to, in the order of their first references. -/
def ContentSpec.topicIds (spec : ContentSpec) : List Int :=
  (spec.root.refs.map (·.topicId)).eraseDups

namespace Registry

mutual

theorem topicIds_addItem : ∀ (i : Item) (r : Registry) (parent : Nat),
    (r.addItem parent i).2.entries.map (·.ref.topicId) = r.entries.map (·.ref.topicId) ++ i.refs.map (·.topicId)
  | .topic ref, r, parent => by
    unfold addItem addRef
    rw [List.map_append]
    rfl
  | .level heading children, r, parent => by
    unfold addItem Item.refs
    exact topicIds_addItems children (r.addHeading (some parent) heading).2 r.levels.length

theorem topicIds_addItems : ∀ (is : List Item) (r : Registry) (parent : Nat),
    (r.addItems parent is).2.entries.map (·.ref.topicId)
      = r.entries.map (·.ref.topicId) ++ (itemsRefs is).map (·.topicId)
  | [], r, _ => (List.append_nil _).symm
  | i :: is, r, parent => by
    unfold addItems itemsRefs
    rw [List.map_append, ← List.append_assoc, ← topicIds_addItem i r parent]
    exact topicIds_addItems is (r.addItem parent i).2 parent

end

theorem topicIds_eq (r : Registry) : r.topicIds = (r.entries.map (·.ref.topicId)).eraseDups := by
  unfold topicIds
  rw [← List.foldl_map (f := fun e : TopicEntry => e.ref.topicId)
    (g := fun (ids : List Int) id => if ids.contains id then ids else ids ++ [id])]
  induction r.entries.map (·.ref.topicId) using List.reverseRecOn with
  | nil => rfl
  | append_singleton ids id ih =>
    rw [List.foldl_append, ih, List.eraseDups_append, List.foldl_cons, List.foldl_nil]
    by_cases h : id ∈ ids
    · simp [List.removeAll, h]
    · simp [List.removeAll, h, List.eraseDups_cons]

theorem topicIds_register (spec : ContentSpec) : (({} : Registry).register spec.root).2.topicIds = spec.topicIds := by
  rw [topicIds_eq]
  exact congrArg List.eraseDups (topicIds_addItems spec.root.children _ _)

theorem isEmpty_register (spec : ContentSpec) :
    (({} : Registry).register spec.root).2.isEmpty = spec.topicIds.isEmpty := by
  rw [← topicIds_register, topicIds_eq, isEmpty]
  cases (({} : Registry).register spec.root).2.entries with
  | nil => rfl
  | cons e es => rw [List.map_cons, List.eraseDups_cons]; rfl

end Registry

namespace Press

variable {σ : Type}

/-- A call that only reads. -/
theorem gives_ask {α : Type} {s : Session σ} {call : StoreCall σ α} {a : α} (h : call s.store = .of (.ok a) s.store) :
    (Press.ask call).Gives s a s := by
  rw [Gives, run_ask, h]
  show (_, (⟨s.store, s.cancelled || false⟩ : Session σ)) = _
  rw [Bool.or_false]
  rfl

theorem gives_topics (s : Session MemoryStore) (ids : List Int) :
    (Press.ask (MemoryStore.store.topics ids)).Gives s (ids.filterMap s.store.topic?) s :=
  gives_ask rfl

theorem gives_translations (s : Session MemoryStore) (ids : List Int) (locale : String) :
    (Press.ask (MemoryStore.store.translations ids locale)).Gives s (ids.filterMap (s.store.translation? locale)) s :=
  gives_ask rfl

/-- **The topics of ids are there unless one is missing, and then it is the first.** -/
theorem failure?_mapM_present (topic? : Int → Option Topic) (s : Session σ) : ∀ ids : List Int,
    (ids.mapM (present topic?)).failure? s = (ids.find? fun id => (topic? id).isNone).map missingTopic
  | [] => rfl
  | id :: ids => by
    rw [List.mapM_cons]
    cases h : topic? id with
    | some t =>
      have hone : (present topic? id : Press σ Topic).Gives s t s := by
        unfold present
        rw [h]
        rfl
      rw [hone.failure?_bind, failure?_bind fun _ _ _ => rfl, failure?_mapM_present topic? s ids,
        List.find?_cons_of_neg (by rw [h]; exact Bool.false_ne_true)]
    | none =>
      have hone : (present topic? id : Press σ Topic) = throw (missingTopic id) := by
        unfold present
        rw [h]
      rw [hone, List.find?_cons_of_pos (by rw [h]; rfl)]
      rfl

theorem spares_present (topic? : Int → Option Topic) (id : Int) : (present topic? id).Spares := fun s hs => by
  refine ⟨s, hs, ?_⟩
  unfold present
  split
  · exact .inl ⟨_, rfl⟩
  · exact .inr ⟨_, rfl⟩

end Press

/-! ## Topics -/

namespace MemoryStore

/-- Whether there is nothing to make a required topic of a book from: no stored topic and, in another language than that
of the source, no translation and no placeholder either. -/
def lacks (s : MemoryStore) (settings : Settings) (locale : String) (required : List Int) (id : Int) : Bool :=
  (s.topic? id).isNone && (locale == settings.defaultLocale ||
    (s.translation? locale id).isNone && !s.makesPlaceholder locale required id)

/-- A topic that an untranslated one holds a copy of is not lacking in another language. -/
theorem lacks_eq_false_of_copy {s : MemoryStore} {settings : Settings} {locale : String} {required : List Int}
    (hlocale : locale ≠ settings.defaultLocale) {t c : Topic} (ht : t ∈ s.untranslated locale required)
    (hc : c ∈ t.copies) : s.lacks settings locale required c.id = false := by
  unfold lacks
  rw [beq_eq_false_iff_ne.2 hlocale, Bool.false_or]
  cases htr : s.translation? locale c.id with
  | some u => exact Bool.and_false _
  | none =>
    rw [makesPlaceholder_of_untranslated htr ⟨t, ht, .inr ⟨c, hc, rfl⟩⟩]
    exact Bool.and_false _

theorem isNone_find?_filterMap {s : MemoryStore} {ids : List Int} {id : Int} (h : id ∈ ids) :
    ((ids.filterMap s.topic?).find? fun t => t.id == id).isNone = (s.topic? id).isNone := by
  rw [Bool.eq_iff_iff, Option.isNone_iff_eq_none, Option.isNone_iff_eq_none, List.find?_eq_none]
  constructor
  · intro hnone
    cases ht : s.topic? id with
    | none => rfl
    | some t => exact absurd (by simpa using id_of_topic? ht) (hnone t (List.mem_filterMap.2 ⟨id, h, ht⟩))
  · intro hnone t ht hid
    obtain ⟨i, -, hi⟩ := List.mem_filterMap.1 ht
    have he : i = id := (id_of_topic? hi).symm.trans (by simpa using hid)
    rw [he, hnone] at hi
    cases hi

end MemoryStore

namespace Translation

variable {σ : Type} {s : Session σ}

theorem gives_addSources (hs : s.cancelled = false) (locale : String) : ∀ (ids : List Int) (w : Work),
    (addSources locale ids w).Gives s (addAll locale ids w) s
  | [], _ => rfl
  | id :: ids, w => by
    unfold addSources
    exact (Press.gives_check hs).andThen (gives_addSources hs locale ids (addSource locale id w))

theorem spares_fetch (required : List Int) (locale : String) :
    (fetch MemoryStore.store required locale).Spares := by
  have hcollect (w : Work) : (collect w required : Press MemoryStore (List Topic)).Spares := by
    rw [collect_eq]
    exact Press.Spares.mapM (Press.spares_present w.find?) required
  have hadd (ids : List Int) (w : Work) : (addSources locale ids w : Press MemoryStore Work).Finishes :=
    fun s hs => ⟨_, s, gives_addSources hs.running locale ids w, hs⟩
  unfold fetch complete
  refine (Press.Spares.ask fun _ hs => ⟨hs, rfl⟩).bind fun found => Press.Finishes.check.spares.bind fun _ => ?_
  dsimp only
  split
  · exact hcollect _
  · exact (Press.Spares.ask fun _ hs => ⟨hs, rfl⟩).bind fun sources => (hadd _ _).spares.bind hcollect

/-- **Completing the translations of topics fails for the first that there is nothing to make from.** -/
theorem failure?_fetch {s : Session MemoryStore} (hs : s.cancelled = false) {settings : Settings} {locale : String}
    (hlocale : locale ≠ settings.defaultLocale) (required : List Int) :
    (fetch MemoryStore.store required locale).failure? s
      = (required.find? (s.store.lacks settings locale required)).map Press.missingTopic := by
  have hcollect : (fetch MemoryStore.store required locale).failure? s
      = (collect (s.store.completed locale required) required : Press MemoryStore _).failure? s := by
    unfold fetch complete
    rw [(Press.gives_translations s required locale).failure?_bind, (Press.gives_check hs).failure?_bind]
    dsimp only
    split
    · rename_i hnone
      rw [MemoryStore.completed, List.isEmpty_iff.1 hnone]
      rfl
    · rw [(Press.gives_topics s _).failure?_bind, (gives_addSources hs locale _ _).failure?_bind]
      rfl
  rw [hcollect, collect_eq, Press.failure?_mapM_present]
  congr 1
  refine List.find?_congr fun id hid => ?_
  have hfound : ((s.store.completed locale required).find? id).isSome ↔ _ := MemoryStore.isSome_find?_completed hid
  unfold MemoryStore.lacks
  rw [beq_eq_false_iff_ne.2 hlocale, Bool.false_or, Bool.eq_iff_iff, ← Option.not_isSome, Bool.not_eq_true',
    ← Bool.not_eq_true, hfound]
  simp

end Translation

namespace Bindery

variable {b : Bindery MemoryStore} {s : Session MemoryStore}

theorem spares_gather (found : List Topic) (ids : List Int) :
    (gather found ids : Press MemoryStore (List Topic)).Spares := by
  rw [gather_eq]
  exact Press.Spares.mapM (Press.spares_present _) ids

theorem finishes_address (settings : Settings) (topics : List Topic) : Press.Finishes (do
    match ← Address.assign MemoryStore.store settings.addressAttempts topics settings.addressRetries with
    | some topics => return (topics, true)
    | none => return (topics, false)) := by
  refine (Address.finishes_assign _ topics _).bind fun assigned _ _ _ => ?_
  split <;> exact .pure _

theorem failure?_fetchTopics (hstore : b.store = MemoryStore.store) (hs : s.Ready) (settings : Settings)
    (required : List Int) : (b.fetchTopics settings required).failure? s
      = (required.find? (s.store.lacks settings settings.defaultLocale required)).map Press.missingTopic := by
  unfold fetchTopics
  rw [hstore, (Press.gives_topics s required).failure?_bind]
  refine (Press.failure?_bind fun topics t hgather => ?_).trans ?_
  · exact (finishes_address settings topics).failure?_eq ((spares_gather _ _).ready hs hgather)
  · rw [gather_eq, Press.failure?_mapM_present]
    congr 1
    refine List.find?_congr fun id hid => ?_
    rw [MemoryStore.isNone_find?_filterMap hid, MemoryStore.lacks, beq_self_eq_true, Bool.true_or, Bool.and_true]

theorem spares_fetch (hstore : b.store = MemoryStore.store) (settings : Settings) (required : List Int)
    (locale : String) : (b.fetch settings required locale).Spares := by
  unfold fetch fetchTopics
  rw [hstore]
  split
  · exact (Press.Spares.ask fun _ hs => ⟨hs, rfl⟩).bind fun found => (spares_gather found required).bind fun topics =>
      (finishes_address settings topics).spares
  · exact (Translation.spares_fetch required locale).bind fun topics => (Press.Finishes.pure _).spares

/-- **Fetching the topics of a book fails for the first that there is nothing to make from.** -/
theorem failure?_fetch (hstore : b.store = MemoryStore.store) (hs : s.Ready) (settings : Settings)
    (required : List Int) (locale : String) : (b.fetch settings required locale).failure? s
      = (required.find? (s.store.lacks settings locale required)).map Press.missingTopic := by
  unfold fetch
  split
  · rename_i hlocale
    rw [failure?_fetchTopics hstore hs, hlocale]
  · rename_i hlocale
    rw [hstore, Press.failure?_bind fun _ _ _ => rfl, Translation.failure?_fetch hs.running hlocale]

/-! ## Books -/

/-- Why there is no book, if there is none: for the settings, for an outline without references, or for the first topic
that there is nothing to make from. -/
def obstacle? (s : MemoryStore) (spec : ContentSpec) (settings : Settings) : Option BuildError :=
  match settings.fault? with
  | some fault => some (.settings fault)
  | none =>
    if spec.topicIds.isEmpty then some (.noContent spec.title)
    else (spec.topicIds.find? (s.lacks settings (localeOf spec settings) spec.topicIds)).map Press.missingTopic

theorem failure?_draft (hstore : b.store = MemoryStore.store) (hs : s.Ready) {spec : ContentSpec}
    {settings : Settings} (hfault : settings.fault? = none) (requester : Option String) :
    (b.draft spec settings requester).failure? s = obstacle? s.store spec settings := by
  unfold draft obstacle?
  dsimp only
  rw [hfault, Registry.isEmpty_register]
  split
  · rfl
  · refine (Press.failure?_bind fun _ _ _ => rfl).trans ?_
    rw [failure?_fetch hstore hs, Registry.topicIds_register]

/-- **Once there is a draft, a build does not fail.** -/
theorem failure?_bind_eq (hstore : b.store = MemoryStore.store) (hpages : b.renderer = Renderer.pages) (hs : s.Ready)
    {spec : ContentSpec} {settings : Settings} (hfault : settings.fault? = none) (requester : Option String) :
    (b.bind spec settings requester).failure? s = (b.draft spec settings requester).failure? s := by
  unfold bind
  rw [hfault]
  dsimp only
  rw [(Press.gives_check hs.running).failure?_bind]
  refine Press.failure?_bind fun d t hdraft => ?_
  obtain ⟨-, hregistry, hfetch⟩ := exists_fetch_of_draft hdraft
  have hread : d.AllRead := Draft.allRead_of_unlearned (hregistry ▸ Registry.unlearned_register spec.root)
  have hfinish := (finishes_finish hstore hpages hread).failure?_eq ((spares_fetch hstore _ _ _).ready hs hfetch)
  exact hfinish

theorem failure?_eq_obstacle? (hstore : b.store = MemoryStore.store) (hpages : b.renderer = Renderer.pages)
    (hs : s.Ready) (spec : ContentSpec) (settings : Settings) (requester : Option String) :
    (b.bind spec settings requester).failure? s = obstacle? s.store spec settings := by
  cases hfault : settings.fault? with
  | some fault =>
    unfold bind obstacle?
    rw [hfault]
    rfl
  | none => rw [failure?_bind_eq hstore hpages hs hfault, failure?_draft hstore hs hfault]

/-- **A build on a store in memory fails for its settings, for an outline without references or for the first topic that
there is nothing to make from, and for nothing else.**  In another language than that of the source there is something
to make an untranslated topic from if it is stored or if a stored one that is untranslated holds a copy of it, and
nothing unless such copies lead to it. -/
theorem failure_bind (hstore : b.store = MemoryStore.store) (hpages : b.renderer = Renderer.pages) (hs : s.Ready)
    (spec : ContentSpec) (settings : Settings) (requester : Option String) :
    (b.bind spec settings requester).failure? s = obstacle? s.store spec settings ∧
    ∀ id, s.store.translation? (localeOf spec settings) id = none →
      (s.store.makesPlaceholder (localeOf spec settings) spec.topicIds id = true →
        ∃ t, Translation.Met (s.store.untranslated (localeOf spec settings) spec.topicIds) t ∧ t.id = id) ∧
      ((∃ t ∈ s.store.untranslated (localeOf spec settings) spec.topicIds, t.id = id ∨ ∃ c ∈ t.copies, c.id = id) →
        s.store.makesPlaceholder (localeOf spec settings) spec.topicIds id = true) :=
  ⟨failure?_eq_obstacle? hstore hpages hs spec settings requester, fun _ htr =>
    ⟨MemoryStore.exists_met_of_makesPlaceholder htr, MemoryStore.makesPlaceholder_of_untranslated htr⟩⟩

/-- A store of two topics whose texts are no XML, the next updates of which fail. -/
def brokenSession : Session MemoryStore where
  store := { (sampleSession "<section" "&nothing").store with failingUpdates := 9 }

/-- A topic that holds a copy of another. -/
def copyingTopic : Topic :=
  { Topic.ofText 1 "A" "<section/>" with outgoing := [.ofText 2 "B" "<section/>"] }

/-- A store with nothing but that topic. -/
def copyingSession : Session MemoryStore where
  store := { MemoryStore.sample with topics := [copyingTopic] }

/-- A book in another language than that of the source. -/
def foreignSpec : ContentSpec :=
  { sampleSpec [.topic (.ofTopic 1 "A"), .topic (.ofTopic 2 "B")] with locale := "de-DE" }

theorem topicIds_foreignSpec : foreignSpec.topicIds = [1, 2] := by decide +kernel

theorem copyingTopic_mem_untranslated : copyingTopic ∈
    copyingSession.store.untranslated (localeOf foreignSpec sampleSettings) foreignSpec.topicIds :=
  MemoryStore.mem_untranslated.2 ⟨by rw [topicIds_foreignSpec]; decide, rfl, rfl⟩

theorem mem_copies_copyingTopic : Topic.ofText 2 "B" "<section/>" ∈ copyingTopic.copies :=
  Topic.mem_copies.2 ⟨List.mem_cons_self, rfl⟩

/-- Broken topics end in a book, a missing one does not, and there is a placeholder for one that another holds a copy
of. -/
theorem failure_bind_of_broken : brokenSession.Ready ∧ copyingSession.Ready ∧
    (sample.bind (sampleSpec [.topic (.ofTopic 1 "A"), .topic (.ofTopic 2 "B")]) sampleSettings none).failure?
      brokenSession = none ∧
    (sample.bind (sampleSpec [.topic (.ofTopic 1 "A"), .topic (.ofTopic 3 "C"), .topic (.ofTopic 2 "B")]) sampleSettings
      none).failure? brokenSession = some (Press.missingTopic 3) ∧
    copyingSession.store.makesPlaceholder (localeOf foreignSpec sampleSettings) foreignSpec.topicIds 2 = true := by
  have hbroken : brokenSession.Ready := ⟨rfl, by decide, by decide⟩
  have hcopying : copyingSession.Ready := ⟨rfl, by decide, by decide⟩
  refine ⟨hbroken, hcopying, (failure_bind rfl rfl hbroken _ _ _).1.trans (by decide +kernel),
    (failure_bind rfl rfl hbroken _ _ _).1.trans (by decide +kernel), ?_⟩
  exact ((failure_bind (b := sample) rfl rfl hcopying foreignSpec sampleSettings none).2 2 rfl).2
    ⟨copyingTopic, copyingTopic_mem_untranslated, .inr ⟨_, mem_copies_copyingTopic, rfl⟩⟩

/-- A topic that is neither stored nor translated is made from the copy that another topic holds. -/
theorem bind_of_copy : copyingSession.Ready ∧ sampleSettings.fault? = none ∧ foreignSpec.topicIds = [1, 2] ∧
    copyingSession.store.topic? 2 = none ∧
    copyingSession.store.translation? (localeOf foreignSpec sampleSettings) 2 = none ∧
    (sample.bind foreignSpec sampleSettings none).failure? copyingSession = none := by
  have hready : copyingSession.Ready := ⟨rfl, by decide, by decide⟩
  have hlocale : localeOf foreignSpec sampleSettings ≠ sampleSettings.defaultLocale := by decide +kernel
  have hlacks : ∀ id ∈ foreignSpec.topicIds, ¬ copyingSession.store.lacks sampleSettings
      (localeOf foreignSpec sampleSettings) foreignSpec.topicIds id = true := by
    intro id hid
    rw [topicIds_foreignSpec, List.mem_pair] at hid
    rw [Bool.not_eq_true]
    rcases hid with rfl | rfl
    · exact Bool.false_and _
    · exact MemoryStore.lacks_eq_false_of_copy hlocale copyingTopic_mem_untranslated mem_copies_copyingTopic
  refine ⟨hready, by decide +kernel, topicIds_foreignSpec, rfl, rfl, ?_⟩
  rw [failure?_eq_obstacle? rfl rfl hready, obstacle?, List.find?_eq_none.2 hlacks, topicIds_foreignSpec]
  rfl

end Bindery
end Bookbinder
