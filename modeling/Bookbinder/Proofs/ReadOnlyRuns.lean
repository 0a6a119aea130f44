import Bookbinder.Proofs.AlikeRuns
import Bookbinder.Proofs.DraftStages
/-!
# Runs that only read

Once a draft has its topics, the rest of a build asks the store but changes nothing in it (`leaves_finish`), and asks
for the time only where no date is given (`gives_finish_at`).
-/
namespace Bookbinder

variable {σ α β : Type}

/-- A call that leaves the store as it is, and during which no build is cancelled. -/
def StoreCall.ReadsOnly (call : StoreCall σ α) : Prop :=
  ∀ s, (call s).state = s ∧ (call s).cancelled = false

/-- Pages and calls for what goes into a book besides its topics, all of which only read. -/
structure Bindery.ReadsOnly (b : Bindery σ) : Prop where
  renderer : ∀ file c s, (b.renderer file c s).2 = s
  text : ∀ id, (b.store.text id).ReadsOnly
  blob : ∀ id, (b.store.blob id).ReadsOnly
  image : ∀ id, (b.store.image id).ReadsOnly
  author : ∀ id, (b.store.author id).ReadsOnly
  tagsNamed : ∀ name, (b.store.tagsNamed name).ReadsOnly

theorem Bindery.readsOnly_of_memory {b : Bindery MemoryStore} (hstore : b.store = MemoryStore.store)
    (hrenderer : ∀ file c s, (b.renderer file c s).2 = s) : b.ReadsOnly := by
  constructor <;> intros <;> rw [hstore] at * <;> first
    | exact hrenderer _ _ _
    | exact fun _ => ⟨rfl, rfl⟩

namespace Press

/-- A run that leaves the session as it is if it ends in a result. -/
def Leaves (p : Press σ α) : Prop :=
  ∀ ⦃s a s'⦄, p.Gives s a s' → s' = s

namespace Leaves

variable {p : Press σ α} {f : α → Press σ β}

theorem pure (a : α) : Leaves (Pure.pure a : Press σ α) :=
  fun _ _ _ hrun => hrun.pure.2

theorem throw (e : BuildError) : Leaves (MonadExcept.throw e : Press σ α) :=
  fun _ _ _ hrun => hrun.throw.elim

theorem bind (hp : p.Leaves) (hf : ∀ a, (f a).Leaves) : (p >>= f).Leaves := by
  intro s c s' hrun
  obtain ⟨a, t, hfirst, hrest⟩ := hrun.bind
  exact (hf a hrest).trans (hp hfirst)

theorem check : Leaves (Press.check : Press σ Unit) :=
  fun _ _ _ hrun => hrun.check

theorem ask {call : StoreCall σ α} (h : call.ReadsOnly) : (Press.ask call).Leaves := by
  intro s a s' hrun
  obtain ⟨hstate, hcancelled⟩ := h s.store
  refine hrun.ask.2.trans ?_
  rw [hstate, hcancelled, Bool.or_false]

theorem render {r : Renderer σ} (h : ∀ file c s, (r file c s).2 = s) (page : Template.PageName)
    (c : Template.Context) : (Press.render r page c).Leaves := by
  intro s text s' hrun
  rw [Gives, run_render, Prod.mk.injEq] at hrun
  rw [← hrun.2, h]

/-- Runs that leave the session are made of such runs. -/
theorem congruence : Congruence (fun _ (p : Press σ _) (_ : Press σ _) => p.Leaves) where
  pure := pure
  check := check
  bind hp hf := hp.bind hf

theorem mapM (hf : ∀ a, (f a).Leaves) (xs : List α) : (xs.mapM f).Leaves :=
  congruence.mapM (g := f) hf xs

end Leaves
end Press

namespace Draft

variable {b : Bindery σ}

/-! ## The time -/

theorem knownAuthors_at (later : Calendar.Instant) : ∀ ids : List Int,
    knownAuthors { b with now := later } ids = knownAuthors b ids
  | [] => rfl
  | id :: ids => by
    unfold knownAuthors
    rw [knownAuthors_at later ids]

theorem firstAuthor_at (later : Calendar.Instant) : ∀ tags : List Tag,
    firstAuthor { b with now := later } tags = firstAuthor b tags
  | [] => rfl
  | tag :: tags => by
    unfold firstAuthor
    rw [firstAuthor_at later tags]

/-- Where a book has a date, its files do not tell when they were written. -/
theorem files_at {d : Draft} (h : d.settings.buildDate.isSome) (later : Calendar.Instant) (images : List Image) :
    d.files { b with now := later } images = d.files b images := by
  obtain ⟨date, hdate⟩ := Option.isSome_iff_exists.1 h
  have hsame : Draft.date { b with now := later } d = Draft.date b d := by
    unfold Draft.date
    rw [hdate]
    rfl
  have hauthors : authorGroup { b with now := later } d = authorGroup b d := by
    unfold authorGroup
    rw [knownAuthors_at]
    rfl
  have hreviser : reviser { b with now := later } d = reviser b d := by
    unfold reviser
    simp only [firstAuthor_at]
  have hhistory : revisionHistory { b with now := later } d = revisionHistory b d := by
    unfold revisionHistory
    rw [hsame, hreviser]
    rfl
  have hentities : entities { b with now := later } d = entities b d := by
    unfold entities
    rw [hsame]
    rfl
  unfold files frontMatter
  rw [hauthors, hhistory, hentities]
  rfl

end Draft

namespace Bindery

variable {b : Bindery σ}

theorem ReadsOnly.alike (hb : b.ReadsOnly) : b.Alike (fun _ p _ => p.Leaves) b where
  toCongruence := Press.Leaves.congruence
  now := rfl
  page := Press.Leaves.render hb.renderer
  text id := .ask (hb.text id)
  blob id := .ask (hb.blob id)
  image id := .ask (hb.image id)
  author id := .ask (hb.author id)
  tagsNamed name := .ask (hb.tagsNamed name)

/-- **Once there is a draft, a build only reads.** -/
theorem leaves_finish (hb : b.ReadsOnly) (d : Draft) : (b.finish d).Leaves :=
  alike_finish hb.alike d

/-- **Where a book has a date, it comes out the same at any time.** -/
theorem gives_finish_at {d : Draft} (hdate : d.settings.buildDate.isSome) {s s' : Session σ}
    {book : Book} (h : (b.finish d).Gives s book s') (later : Calendar.Instant) :
    (Bindery.finish { b with now := later } d).Gives s book s' := by
  unfold finish at h
  obtain ⟨d₁, s₁, hread, h⟩ := h.bind
  obtain ⟨d₂, s₂, hwork, h⟩ := h.bind
  obtain ⟨⟨d₃, images⟩, s₃, hcollect, h⟩ := h.bind
  have hdate' : d₃.settings.buildDate.isSome := by
    rw [(follows_passes hread hwork hcollect).settings]
    exact hdate
  have hlast : (print { b with now := later } (d₃, images)).Gives s₃ book s' := by
    unfold print at h ⊢
    rw [Draft.files_at hdate']
    exact h
  have hread' : (d.readTopics { b with now := later }).Gives s d₁ s₁ := hread
  have hwork' : (d₁.processReferences { b with now := later }).Gives s₁ d₂ s₂ := hwork
  have hcollect' : (d₂.collectImages { b with now := later }).Gives s₂ (d₃, images) s₃ := hcollect
  exact hread'.andThen (hwork'.andThen (hcollect'.andThen hlast))

end Bindery
end Bookbinder
