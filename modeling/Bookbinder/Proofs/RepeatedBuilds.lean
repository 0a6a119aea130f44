import Bookbinder.Proofs.KeptAddresses
import Bookbinder.Proofs.ReadOnlyRuns
/-!
# Repeated builds

A build that could give its topics addresses leaves them in the store.  The same build finds them there another time:
it makes the same book and asks for no update (`gives_bind_again`).
-/
namespace Bookbinder
namespace Bindery

section Topics

variable {s s' : Session MemoryStore}

theorem stored_of_gather {ids : List Int} {ts : List Topic} (hids : ids.Nodup) (hknown : ∀ id ∈ ids, 0 ≤ id)
    (h : (gather (ids.filterMap s.store.topic?) ids).Gives s ts s') :
    Address.Stored s.store ts ∧ ts.map (·.id) = ids := by
  have hpairs := forall₂_gather h
  have hmap : ts.map (·.id) = ids := by
    rw [← List.forall₂_eq_eq_eq, List.forall₂_map_left_iff]
    exact hpairs.flip.imp fun t id ht => ht.2
  refine ⟨⟨hmap ▸ hids, fun t ht => ?_, fun t ht => ?_⟩, hmap⟩
  · exact hknown t.id (hmap ▸ List.mem_map_of_mem ht)
  · obtain ⟨id, -, hfound, hid⟩ := exists_of_forall₂_right hpairs ht
    obtain ⟨i, -, hi⟩ := List.mem_filterMap.1 hfound
    rw [MemoryStore.id_of_topic? hi]
    exact hi

theorem gives_gather {found : List Topic} (s : Session MemoryStore) : ∀ {ts : List Topic},
    (∀ t ∈ ts, found.find? (fun u => u.id == t.id) = some t) → (gather found (ts.map (·.id))).Gives s ts s
  | [], _ => rfl
  | t :: ts, h => by
    have hrest := gives_gather s fun u hu => h u (List.mem_cons_of_mem t hu)
    rw [List.map_cons, gather, h t List.mem_cons_self]
    exact hrest.andThen rfl

theorem leaves_gather (found : List Topic) (ids : List Int) :
    (gather found ids : Press MemoryStore (List Topic)).Leaves := by
  rw [gather_eq]
  refine Press.Leaves.mapM (fun id => ?_) ids
  unfold Press.present
  split
  · exact .pure _
  · exact .throw _

variable {b : Bindery MemoryStore} {settings : Settings}

/-- **Topics that were given addresses are fetched with them from then on**, and the store is asked for no update. -/
theorem fetchTopics_again (hstore : b.store = MemoryStore.store) {ids : List Int} {topics : List Topic}
    (hids : ids.Nodup) (hknown : ∀ id ∈ ids, 0 ≤ id) (hcopies : s.store.PlainCopies)
    (h : (b.fetchTopics settings ids).Gives s (topics, true) s') :
    s'.cancelled = false ∧ (b.fetchTopics settings ids).Gives s' (topics, true) s' := by
  unfold fetchTopics at h ⊢
  rw [hstore] at h ⊢
  obtain ⟨found, s₁, hfound, h⟩ := h.bind
  obtain ⟨rfl, rfl⟩ := hfound.unique (Press.gives_topics s ids)
  obtain ⟨gathered, s₂, hgather, h⟩ := h.bind
  obtain ⟨hstored, hmap⟩ := stored_of_gather hids hknown hgather
  cases leaves_gather _ _ hgather
  obtain ⟨assigned, s₃, hassign, h⟩ := h.bind
  cases assigned with
  | none => cases h.pure.1
  | some ts =>
    obtain ⟨he, rfl⟩ := h.pure
    cases he
    obtain ⟨hrunning, hkept, hmap'⟩ := Address.kept_assign _ hstored hcopies hassign
    have hagain : (gather (ids.filterMap s'.store.topic?) ids).Gives s' topics s' := by
      have hmem : ∀ t ∈ topics, t.id ∈ ids := fun t ht => by
        rw [← hmap, ← hmap']
        exact List.mem_map_of_mem ht
      have hgives := gives_gather s' fun t ht => MemoryStore.find?_filterMap_topic? (hmem t ht) (hkept.there t ht)
      rwa [hmap', hmap] at hgives
    refine ⟨hrunning, (Press.gives_topics s' ids).andThen (hagain.andThen ?_)⟩
    cases hretries : settings.addressRetries with
    | zero =>
      rw [hretries] at hassign
      cases hassign.pure.1
    | succ retries => exact (Address.gives_assign_of_kept hrunning _ retries hkept.addressed).andThen rfl

end Topics

section Books

variable {b : Bindery MemoryStore} {spec : ContentSpec} {settings : Settings} {requester : Option String}
  {s s' : Session MemoryStore}

/-- A book is finished from a draft if the settings can be used. -/
theorem bind_eq_finish {σ : Type} (b : Bindery σ) (h : settings.fault? = none) :
    b.bind spec settings requester
      = (Press.check >>= fun _ => b.draft spec settings requester >>= fun d => b.finish d) := by
  unfold bind
  rw [h]
  rfl

theorem draft_eq_fetch {σ : Type} (b : Bindery σ) (h : spec.topicIds ≠ []) :
    b.draft spec settings requester = do
      let (topics, stable) ← b.fetch settings spec.topicIds (localeOf spec settings)
      return {
        spec, settings, requester, locale := localeOf spec settings,
        outline := (({} : Registry).register spec.root).1, registry := (({} : Registry).register spec.root).2,
        topics, stable, problems := { locale := localeOf spec settings }, validator := b.validator } := by
  have hsome : ¬ (({} : Registry).register spec.root).2.isEmpty = true := by
    rw [Registry.isEmpty_register]
    simpa using h
  unfold draft
  dsimp only
  rw [if_neg hsome, Registry.topicIds_register]

theorem topicIds_ne_nil_of_draft {σ : Type} {b : Bindery σ} {s s' : Session σ} {d : Draft}
    (h : (b.draft spec settings requester).Gives s d s') : spec.topicIds ≠ [] := by
  intro hnone
  unfold draft at h
  dsimp only at h
  rw [Registry.isEmpty_register, hnone] at h
  obtain ⟨_, _, h, -⟩ := h.bind
  exact h.throw.elim

/-- **A draft is made another time as before.** -/
theorem draft_again (hstore : b.store = MemoryStore.store) (hlocale : localeOf spec settings = settings.defaultLocale)
    (hknown : ∀ id ∈ spec.topicIds, 0 ≤ id) (hcopies : s.store.PlainCopies) {d : Draft}
    (h : (b.draft spec settings requester).Gives s d s') (hstable : d.stable = true) :
    s'.cancelled = false ∧ d.settings = settings ∧ (b.draft spec settings requester).Gives s' d s' := by
  have hsome := topicIds_ne_nil_of_draft h
  rw [draft_eq_fetch b hsome, fetch, if_pos hlocale] at h ⊢
  obtain ⟨⟨topics, stable⟩, hfetch, rfl⟩ := h.map
  cases hstable
  obtain ⟨hrunning, hagain⟩ := fetchTopics_again hstore (nodup_eraseDups _) hknown hcopies hfetch
  exact ⟨hrunning, rfl, hagain.andThen rfl⟩

theorem stable_finish {σ : Type} {b : Bindery σ} {s s' : Session σ} {d : Draft} {book : Book}
    (h : (b.finish d).Gives s book s') : book.stats.stable = d.stable := by
  unfold finish at h
  obtain ⟨d₁, s₁, hread, h⟩ := h.bind
  obtain ⟨d₂, s₂, hwork, h⟩ := h.bind
  obtain ⟨⟨d₃, images⟩, s₃, hcollect, h⟩ := h.bind
  unfold print at h
  obtain ⟨files, s₄, -, h⟩ := h.bind
  obtain ⟨_, s₅, -, h⟩ := h.bind
  rw [h.pure.1]
  exact (follows_passes hread hwork hcollect).stable

/-- **A book whose topics could be given addresses is made another time as before.**  On the store that the first build
leaves, the same build ends in the same book at whatever time, and it leaves that store as it finds it: no update is
asked for. -/
theorem gives_bind_again (hstore : b.store = MemoryStore.store) (hrenderer : ∀ file c s, (b.renderer file c s).2 = s)
    (hlocale : localeOf spec settings = settings.defaultLocale) (hdate : settings.buildDate.isSome)
    (hknown : ∀ id ∈ spec.topicIds, 0 ≤ id) (hcopies : s.store.PlainCopies) {book : Book}
    (h : (b.bind spec settings requester).Gives s book s') (hstable : book.stats.stable = true)
    (later : Calendar.Instant) : (Bindery.bind { b with now := later } spec settings requester).Gives s' book s' := by
  have hb := readsOnly_of_memory hstore hrenderer
  have hfault : settings.fault? = none := by
    cases hfault : settings.fault? with
    | none => rfl
    | some fault =>
      unfold bind at h
      rw [hfault] at h
      obtain ⟨_, _, h, -⟩ := h.bind
      exact h.throw.elim
  rw [bind_eq_finish _ hfault] at h ⊢
  obtain ⟨_, s₁, hcheck, h⟩ := h.bind
  cases hcheck.check
  obtain ⟨d, s₂, hdraft, hfinish⟩ := h.bind
  have hd : d.stable = true := (stable_finish hfinish).symm.trans hstable
  obtain ⟨hrunning, hsettings, hagain⟩ := draft_again hstore hlocale hknown hcopies hdraft hd
  -- What follows the draft leaves the store as the draft left it, so it starts from there both times.
  cases leaves_finish hb d hfinish
  have hlater := gives_finish_at (hsettings ▸ hdate) hfinish later
  exact (Press.gives_check hrunning).andThen (Press.Gives.andThen hagain hlater)

/-- A store of two topics of one title, related to each other, whose next update fails. -/
def clashingSession : Session MemoryStore where
  store := { MemoryStore.sample with
    topics := Topic.relateIn [.ofText 1 "A" "<section/>", .ofText 2 "A" "<section/>"] 1 2
    failingUpdates := 1 }

/-- A book of both, with a date. -/
def clashingSpec : ContentSpec :=
  sampleSpec [.topic (.ofTopic 1 "A"), .topic (.ofTopic 2 "A")]

def datedSettings : Settings :=
  { sampleSettings with buildDate := some default }

/-- Topics of one title get their addresses at the second attempt, and have them from then on. -/
theorem gives_bind_again_of_clash : ∃ book s', clashingSession.store.PlainCopies ∧
    (sample.bind clashingSpec datedSettings none).Gives clashingSession book s' ∧ book.stats.stable = true ∧
    s'.store.updateCalls = 2 ∧
    (Bindery.bind { sample with now := ⟨1, 0, 0⟩ } clashingSpec datedSettings none).Gives s' book s' := by
  have hpasses : (sample.bind clashingSpec datedSettings none).passes clashingSession
      (fun book t => book.stats.stable && t.store.updateCalls == 2) = true := by decide +kernel
  obtain ⟨book, s', hbind, htest⟩ := Press.exists_of_passes hpasses
  have hstable : book.stats.stable = true ∧ s'.store.updateCalls = 2 := by simpa using htest
  have hcopies : clashingSession.store.PlainCopies := by decide
  exact ⟨book, s', hcopies, hbind, hstable.1, hstable.2,
    gives_bind_again rfl (fun _ _ _ => rfl) (by decide +kernel) rfl (by decide +kernel) hcopies hbind hstable.1 _⟩

end Books
end Bindery
end Bookbinder
