import Bookbinder.Address
import Bookbinder.Proofs.PressRuns
import Bookbinder.Store.Sample
/-!
# Runs that always end in a result

A build on a store in memory that has all the files and texts it needs, and that nobody cancels, has little to fail for.
`Press.Finishes p` says that the run `p` ends in a result from every such session, and leaves such a session.
-/
namespace Bookbinder

namespace MemoryStore

/-- The texts that builds ask for. -/
def buildTexts : List Int :=
  ConstantId.publicanCfg :: ConstantId.icon :: skynetTexts.map (·.1)

/-- The files that builds ask for. -/
def buildBlobs : List Int :=
  ConstantId.docbookDtd :: ConstantId.placeholderImage :: skynetBlobs.map (·.1)

/-- A store that has all the texts and files that builds ask for. -/
structure Equipped (s : MemoryStore) : Prop where
  texts : ∀ id ∈ buildTexts, (lookup? s.texts id).isSome
  blobs : ∀ id ∈ buildBlobs, (lookup? s.blobs id).isSome

/-- Updates of topics leave all texts and files in place, and cancel nothing. -/
theorem Equipped.update {s : MemoryStore} (h : s.Equipped) (us : List PropertyUpdate) :
    (MemoryStore.update us s).state.Equipped ∧ (MemoryStore.update us s).cancelled = false := by
  unfold MemoryStore.update
  dsimp only
  split
  · exact ⟨⟨h.texts, h.blobs⟩, rfl⟩
  · split <;> exact ⟨⟨h.texts, h.blobs⟩, rfl⟩

theorem found_of_isSome {α : Type} {o : Option α} (h : o.isSome) (kind : String) (id : Int) :
    ∃ a, found kind id o = .ok a := by
  obtain ⟨a, rfl⟩ := Option.isSome_iff_exists.1 h
  exact ⟨a, rfl⟩

end MemoryStore

/-- A session that goes on, with an equipped store. -/
structure Session.Ready (s : Session MemoryStore) : Prop where
  running : s.cancelled = false
  equipped : s.store.Equipped

namespace Press

variable {α β : Type}

/-! ## Failures -/

section Failures

variable {σ : Type} {s t : Session σ}

/-- Why a run ends without a result, if it does. -/
def failure? (p : Press σ α) (s : Session σ) : Option BuildError :=
  match p.run.run s with
  | (.ok _, _) => none
  | (.error e, _) => some e

theorem Gives.failure?_eq {p : Press σ α} {a : α} (h : p.Gives s a t) : p.failure? s = none := by
  unfold Press.failure?
  rw [show p.run.run s = (.ok a, t) from h]

theorem exists_gives_of_failure? {p : Press σ α} (h : p.failure? s = none) : ∃ a t, p.Gives s a t := by
  cases hp : p.run.run s with
  | mk x t =>
    cases x with
    | ok a => exact ⟨a, t, hp⟩
    | error e =>
      rw [Press.failure?, hp] at h
      cases h

theorem Gives.failure?_bind {p : Press σ α} {f : α → Press σ β} {a : α} (h : p.Gives s a t) :
    (p >>= f).failure? s = (f a).failure? t := by
  unfold Press.failure?
  rw [h.run_bind]

/-- **A run fails as its first step does, if what follows never fails.** -/
theorem failure?_bind {p : Press σ α} {f : α → Press σ β} (hf : ∀ a t, p.Gives s a t → (f a).failure? t = none) :
    (p >>= f).failure? s = p.failure? s := by
  cases hp : p.run.run s with
  | mk x t =>
    cases x with
    | ok a =>
      have hgives : p.Gives s a t := hp
      rw [hgives.failure?_bind, hgives.failure?_eq, hf a t hgives]
    | error e =>
      unfold Press.failure?
      rw [run_bind_error hp f, hp]

/-- A check ends the run exactly if it has been cancelled. -/
theorem run_check (s : Session σ) : (Press.check : Press σ Unit).run.run s
    = (if s.cancelled then .error .cancelled else .ok (), s) := by
  obtain ⟨store, cancelled⟩ := s
  cases cancelled <;> rfl

theorem gives_check (h : s.cancelled = false) : (Press.check : Press σ Unit).Gives s () s := by
  rw [Gives, run_check, h]
  rfl

end Failures

/-! ## Calls and pages -/

section Calls

variable {σ : Type}

/-- A call ends in its result, or in its error, with the store as the call leaves it. -/
theorem run_ask (call : StoreCall σ α) (s : Session σ) : (Press.ask call).run.run s
    = ((call s.store).result.mapError .store, ⟨(call s.store).state, s.cancelled || (call s.store).cancelled⟩) := by
  have hget : (get : Press σ (Session σ)).Gives s s s := rfl
  have hset : (set (⟨(call s.store).state, s.cancelled || (call s.store).cancelled⟩ : Session σ) : Press σ PUnit).Gives s
      ⟨⟩ ⟨(call s.store).state, s.cancelled || (call s.store).cancelled⟩ := rfl
  unfold Press.ask
  rw [hget.run_bind]
  dsimp only
  rw [hset.run_bind]
  cases (call s.store).result <;> rfl

/-- A page is rendered, or it ends the run, with the store as the renderer leaves it. -/
theorem run_render (r : Renderer σ) (page : Template.PageName) (c : Template.Context) (s : Session σ) :
    (Press.render r page c).run.run s
      = ((r page.file c s.store).1.mapError .template, ⟨(r page.file c s.store).2, s.cancelled⟩) := by
  have hget : (get : Press σ (Session σ)).Gives s s s := rfl
  have hset : (set (⟨(r page.file c s.store).2, s.cancelled⟩ : Session σ) : Press σ PUnit).Gives s
      ⟨⟩ ⟨(r page.file c s.store).2, s.cancelled⟩ := rfl
  unfold Press.render
  rw [hget.run_bind]
  dsimp only
  rw [hset.run_bind]
  cases (r page.file c s.store).1 <;> rfl

/-- The library's own pages are rendered without touching the store. -/
theorem gives_render {page : Template.PageName} {c : Template.Context} {text : String} (h : page.page c = .ok text)
    (s : Session σ) : (Press.render Renderer.pages page c).Gives s text s := by
  have htext : Template.render page.file c = .ok text := by rw [Template.render_file, h]
  rw [Gives, run_render]
  simp only [Renderer.pages, htext]
  rfl

end Calls

/-! ## Runs that do not fail -/

/-- From every ready session a run ends in a result, and leaves a ready session. -/
def Finishes (p : Press MemoryStore α) : Prop :=
  ∀ s : Session MemoryStore, s.Ready → ∃ a s', p.Gives s a s' ∧ s'.Ready

/-- A run that may fail, but not for any other reason than that the store does. -/
def Spares (p : Press MemoryStore α) : Prop :=
  ∀ s : Session MemoryStore, s.Ready → ∃ s', s'.Ready ∧
    ((∃ a, p.Gives s a s') ∨ ∃ cause, p.run.run s = (.error (.store cause), s'))

theorem Finishes.failure?_eq {p : Press MemoryStore α} (h : p.Finishes) {s : Session MemoryStore} (hs : s.Ready) :
    p.failure? s = none := by
  obtain ⟨a, s', hgives, -⟩ := h s hs
  exact hgives.failure?_eq

namespace Finishes

variable {p : Press MemoryStore α} {f : α → Press MemoryStore β}

theorem pure (a : α) : Finishes (Pure.pure a) :=
  fun s hs => ⟨a, s, rfl, hs⟩

theorem bind (hp : p.Finishes) (hf : ∀ a s s', p.Gives s a s' → (f a).Finishes) : (p >>= f).Finishes := fun s hs => by
  obtain ⟨a, t, hgives, ht⟩ := hp s hs
  obtain ⟨b, s', hgives', hs'⟩ := hf a s t hgives t ht
  exact ⟨b, s', hgives.andThen hgives', hs'⟩

theorem map (hp : p.Finishes) (g : α → β) : Finishes (p >>= fun a => Pure.pure (g a)) :=
  hp.bind fun a _ _ _ => pure (g a)

theorem check : Finishes (Press.check : Press MemoryStore Unit) :=
  fun s hs => ⟨(), s, gives_check hs.running, hs⟩

/-! ## Loops -/

/-- **A loop ends in a result if each step does, given what the steps before have kept.** -/
theorem foldlM {P : List α → β → Prop} {g : β → α → Press MemoryStore β}
    (hstep : ∀ x xs b, P (x :: xs) b → (g b x).Finishes)
    (hkeep : ∀ x xs b c t t', P (x :: xs) b → (g b x).Gives t c t' → P xs c) : ∀ {xs : List α} {b : β}, P xs b →
    (xs.foldlM g b).Finishes
  | [], b, _ => pure b
  | x :: xs, b, h => by
    rw [List.foldlM_cons]
    exact (hstep x xs b h).bind fun c t t' hgives => foldlM hstep hkeep (hkeep x xs b c t t' h hgives)

theorem mapM : ∀ {xs : List α}, (∀ x ∈ xs, (f x).Finishes) → (xs.mapM f).Finishes
  | [], _ => by
    rw [List.mapM_nil]
    exact pure []
  | x :: xs, h => by
    rw [List.mapM_cons]
    exact (h x List.mem_cons_self).bind fun y _ _ _ =>
      (mapM fun z hz => h z (List.mem_cons_of_mem x hz)).map (y :: ·)

/-! ## Pages -/

theorem render {page : Template.PageName} {c : Template.Context} {text : String} (h : page.page c = .ok text) :
    Finishes (Press.render Renderer.pages page c) :=
  fun s hs => ⟨text, s, gives_render h s, hs⟩

end Finishes

/-! ## Calls -/

/-- A call that leaves an equipped store, without any cancellation. -/
def KeepsStore (call : StoreCall MemoryStore α) : Prop :=
  ∀ s : MemoryStore, s.Equipped → (call s).state.Equipped ∧ (call s).cancelled = false

theorem KeepsStore.ready {call : StoreCall MemoryStore α} (h : KeepsStore call) {s : Session MemoryStore}
    (hs : s.Ready) : Session.Ready ⟨(call s.store).state, s.cancelled || (call s.store).cancelled⟩ := by
  obtain ⟨hequipped, hcancelled⟩ := h s.store hs.equipped
  exact ⟨by rw [hs.running, hcancelled]; rfl, hequipped⟩

theorem Finishes.ask {call : StoreCall MemoryStore α} (hkeeps : KeepsStore call)
    (h : ∀ s : MemoryStore, s.Equipped → ∃ a, (call s).result = .ok a) : (Press.ask call).Finishes := fun s hs => by
  obtain ⟨a, ha⟩ := h s.store hs.equipped
  refine ⟨a, _, ?_, hkeeps.ready hs⟩
  rw [Gives, run_ask, ha]
  rfl

theorem Finishes.text {id : Int} (h : id ∈ MemoryStore.buildTexts) :
    (Press.ask (MemoryStore.store.text id)).Finishes :=
  .ask (fun _ hs => ⟨hs, rfl⟩) fun _ hs => MemoryStore.found_of_isSome (hs.texts id h) _ _

theorem Finishes.blob {id : Int} (h : id ∈ MemoryStore.buildBlobs) :
    (Press.ask (MemoryStore.store.blob id)).Finishes :=
  .ask (fun _ hs => ⟨hs, rfl⟩) fun _ hs => MemoryStore.found_of_isSome (hs.blobs id h) _ _

theorem Finishes.image (id : Int) : (Press.ask (MemoryStore.store.image id)).Finishes :=
  .ask (fun _ hs => ⟨hs, rfl⟩) fun _ _ => ⟨_, rfl⟩

theorem Finishes.author (id : Int) : (Press.ask (MemoryStore.store.author id)).Finishes :=
  .ask (fun _ hs => ⟨hs, rfl⟩) fun _ _ => ⟨_, rfl⟩

theorem Finishes.tagsNamed (name : String) : (Press.ask (MemoryStore.store.tagsNamed name)).Finishes :=
  .ask (fun _ hs => ⟨hs, rfl⟩) fun _ _ => ⟨_, rfl⟩

theorem Finishes.withProperty (id : Int) (value : String) :
    (Press.ask (MemoryStore.store.withProperty id value)).Finishes :=
  .ask (fun _ hs => ⟨hs, rfl⟩) fun _ _ => ⟨_, rfl⟩

/-! ## Failures of the store -/

theorem Finishes.spares {p : Press MemoryStore α} (h : p.Finishes) : p.Spares := fun s hs =>
  have ⟨a, s', hgives, hs'⟩ := h s hs
  ⟨s', hs', .inl ⟨a, hgives⟩⟩

theorem Spares.ask {call : StoreCall MemoryStore α} (hkeeps : KeepsStore call) :
    (Press.ask call).Spares := fun s hs => by
  refine ⟨_, hkeeps.ready hs, ?_⟩
  unfold Gives
  rw [run_ask]
  cases (call s.store).result with
  | ok a => exact .inl ⟨a, rfl⟩
  | error cause => exact .inr ⟨cause, rfl⟩

theorem Spares.bind {p : Press MemoryStore α} {f : α → Press MemoryStore β} (hp : p.Spares) (hf : ∀ a, (f a).Spares) :
    (p >>= f).Spares := fun s hs => by
  obtain ⟨t, ht, ⟨a, hgives⟩ | ⟨cause, hfails⟩⟩ := hp s hs
  · obtain ⟨s', hs', hrest⟩ := hf a t ht
    exact ⟨s', hs', hrest.imp (fun ⟨b, hb⟩ => ⟨b, hgives.andThen hb⟩)
      fun ⟨cause, hcause⟩ => ⟨cause, hgives.run_bind.trans hcause⟩⟩
  · exact ⟨t, ht, .inr ⟨cause, run_bind_error hfails f⟩⟩

theorem Spares.mapM {f : α → Press MemoryStore β} (hf : ∀ a, (f a).Spares) : ∀ xs : List α, (xs.mapM f).Spares
  | [] => by
    rw [List.mapM_nil]
    exact (Finishes.pure []).spares
  | x :: xs => by
    rw [List.mapM_cons]
    exact (hf x).bind fun y => (Spares.mapM hf xs).bind fun ys => (Finishes.pure (y :: ys)).spares

/-- What is left by a run that only the store makes fail is ready. -/
theorem Spares.ready {p : Press MemoryStore α} (h : p.Spares) {s t : Session MemoryStore} (hs : s.Ready) {a : α}
    (hgives : p.Gives s a t) : t.Ready := by
  obtain ⟨s', hs', ⟨c, hc⟩ | ⟨cause, hfails⟩⟩ := h s hs
  · exact (hgives.unique hc).2 ▸ hs'
  · cases (show p.run.run s = (.ok a, t) from hgives).symm.trans hfails

/-- **A run that only the store makes fail ends in a result once such failures are caught.** -/
theorem Spares.unlessStoreFails {p : Press MemoryStore α} (h : p.Spares) : (Press.unlessStoreFails p).Finishes :=
  fun s hs => by
    obtain ⟨s', hs', ⟨a, hgives⟩ | ⟨cause, hfails⟩⟩ := h s hs
    · exact ⟨some a, s', hgives.spared, hs'⟩
    · exact ⟨none, s', .unlessStoreFails_of_fails hfails, hs'⟩

end Press

/-! ## Addresses -/

namespace Address

open Press (Finishes Spares)

theorem finishes_isTaken (used : List String) (id : Int) (address : String) :
    (isTaken MemoryStore.store used id address).Finishes := by
  unfold isTaken
  split
  · exact .pure true
  · exact (Finishes.withProperty _ _).map _

theorem finishes_probe (used : List String) (t : Topic) : ∀ more number : Nat,
    (probe MemoryStore.store used t number more).Finishes
  | 0, number => (finishes_isTaken used t.id (candidate (base t) number)).map _
  | more + 1, number => by
    unfold probe
    refine (finishes_isTaken used t.id (candidate (base t) number)).bind fun taken _ _ _ => ?_
    split
    · exact finishes_probe used t more (number + 1)
    · exact .pure _

theorem finishes_find (attempts : Nat) : ∀ (ts : List Topic) (used : List String),
    (find MemoryStore.store attempts ts used).Finishes
  | [], _ => .pure []
  | t :: ts, used => by
    unfold find
    refine Finishes.check.bind fun _ _ _ _ => ?_
    split
    · exact finishes_find attempts ts used
    · exact (finishes_probe used t attempts 0).bind fun address _ _ _ =>
        (finishes_find attempts ts (address :: used)).map _

theorem spares_attempt (attempts : Nat) (topics : List Topic) :
    (attempt MemoryStore.store attempts topics).Spares := by
  unfold attempt
  refine (finishes_find attempts topics _).spares.bind fun grants => ?_
  dsimp only
  split
  · exact (Spares.ask fun _ hs => hs.update _).bind fun _ => (Finishes.pure _).spares
  · exact (Finishes.pure _).spares

/-- **Addresses are assigned or given up.** -/
theorem finishes_assign (attempts : Nat) (topics : List Topic) : ∀ retries : Nat,
    (assign MemoryStore.store attempts topics retries).Finishes
  | 0 => .pure none
  | retries + 1 => by
    unfold assign
    refine Finishes.check.bind fun _ _ _ _ => ?_
    refine (spares_attempt attempts topics).unlessStoreFails.bind fun found _ _ _ => ?_
    split
    · exact .pure _
    · exact finishes_assign attempts topics retries

end Address
end Bookbinder
