import Bookbinder.Proofs.AlikeRuns
/-!
# Watched stores

A store is watched by putting down the calls that it has.  A build goes the same way whether its store is watched or
not, so what is put down are the calls of the build (`Press.Watches`).  Once there is a draft, none of them is an update
(`Bindery.watches_finish`).
-/
namespace Bookbinder

/-- What a call asks of a store. -/
inductive Request where
  | topics (ids : List Int)
  | translations (ids : List Int) (locale : String)
  | withProperty (id : Int) (value : String)
  | update (updates : List PropertyUpdate)
  | text (id : Int)
  | blob (id : Int)
  | image (id : Int)
  | author (id : Int)
  | tagsNamed (name : String)
deriving DecidableEq, Repr

def Request.isUpdate : Request → Bool
  | .update _ => true
  | _ => false

/-- A call that a store has had. -/
structure Call where
  request : Request
  /-- Whether the build was cancelled during the call. -/
  cancels : Bool
deriving DecidableEq, Repr

/-- A store with the calls that it has had, in their order. -/
structure Watched (σ : Type) where
  inner : σ
  calls : List Call := []

variable {σ α β : Type}

def StoreCall.watched (request : Request) (call : StoreCall σ α) : StoreCall (Watched σ) α := fun w =>
  let reply := call w.inner
  ⟨reply.result, ⟨reply.state, w.calls ++ [⟨request, reply.cancelled⟩]⟩, reply.cancelled⟩

def TopicStore.watched (store : TopicStore σ) : TopicStore (Watched σ) where
  topics ids := (store.topics ids).watched (.topics ids)
  translations ids locale := (store.translations ids locale).watched (.translations ids locale)
  withProperty id value := (store.withProperty id value).watched (.withProperty id value)
  update updates := (store.update updates).watched (.update updates)
  text id := (store.text id).watched (.text id)
  blob id := (store.blob id).watched (.blob id)
  image id := (store.image id).watched (.image id)
  author id := (store.author id).watched (.author id)
  tagsNamed name := (store.tagsNamed name).watched (.tagsNamed name)

def Renderer.watched (r : Renderer σ) : Renderer (Watched σ) := fun file c w =>
  ((r file c w.inner).1, { w with inner := (r file c w.inner).2 })

/-- A bindery whose store is watched. -/
def Bindery.watched (b : Bindery σ) : Bindery (Watched σ) where
  store := b.store.watched
  renderer := b.renderer.watched
  validator := b.validator
  now := b.now

/-- The session of the store that is watched. -/
def Session.inner (w : Session (Watched σ)) : Session σ :=
  ⟨w.store.inner, w.cancelled⟩

namespace Press

/-- What is to be found of a run: how it begins, its calls, its result and how it ends. -/
abbrev Findings (σ α : Type) := Session σ → List Call → Except BuildError α → Session σ → Prop

/-- A run goes as another one whose store is not watched.  Its calls are put down, it is cancelled only during them, and
all is as it is to be found. -/
def Watches (p : Press (Watched σ) α) (q : Press σ α) (Q : Findings σ α) : Prop :=
  ∀ w : Session (Watched σ), ∃ r w' calls, p.run.run w = (r, w') ∧ q.run.run w.inner = (r, w'.inner) ∧
    w'.store.calls = w.store.calls ++ calls ∧ w'.cancelled = (w.cancelled || calls.any (·.cancels)) ∧
    Q w.inner calls r w'.inner

namespace Watches

variable {p : Press (Watched σ) α} {q : Press σ α} {Q Q' : Findings σ α}

theorem mono (h : p.Watches q Q) (hQ : ∀ s calls r s', Q s calls r s' → Q' s calls r s') : p.Watches q Q' := fun w =>
  have ⟨r, w', calls, hp, hq, hcalls, hcancelled, hfound⟩ := h w
  ⟨r, w', calls, hp, hq, hcalls, hcancelled, hQ _ _ _ _ hfound⟩

/-- A run that ends at once, without any call. -/
theorem of_run {r : Except BuildError α} (hp : ∀ w, p.run.run w = (r, w)) (hq : ∀ s, q.run.run s = (r, s))
    (hQ : ∀ s, Q s [] r s) : p.Watches q Q := fun w =>
  ⟨r, w, [], hp w, hq w.inner, (List.append_nil _).symm, (Bool.or_false _).symm, hQ _⟩

theorem pure {a : α} (hQ : ∀ s, Q s [] (.ok a) s) : Watches (Pure.pure a) (Pure.pure a) Q :=
  of_run (fun _ => rfl) (fun _ => rfl) hQ

theorem throw {e : BuildError} (hQ : ∀ s, Q s [] (.error e) s) :
    Watches (MonadExcept.throw e) (MonadExcept.throw e) Q :=
  of_run (fun _ => rfl) (fun _ => rfl) hQ

/-- A check ends the run exactly if it has been cancelled. -/
theorem check {Q : Findings σ Unit} (hgoes : ∀ s, s.cancelled = false → Q s [] (.ok ()) s)
    (hends : ∀ s, s.cancelled = true → Q s [] (.error .cancelled) s) : Watches Press.check Press.check Q := by
  rintro ⟨store, cancelled⟩
  cases cancelled with
  | false =>
    exact ⟨.ok (), ⟨store, false⟩, [], rfl, rfl, (List.append_nil _).symm, rfl, hgoes _ rfl⟩
  | true =>
    exact ⟨.error .cancelled, ⟨store, true⟩, [], rfl, rfl, (List.append_nil _).symm, rfl, hends _ rfl⟩

/-- A call is put down. -/
theorem ask {request : Request} {call : StoreCall σ α}
    (hQ : ∀ s : Session σ, Q s [⟨request, (call s.store).cancelled⟩] ((call s.store).result.mapError .store)
      ⟨(call s.store).state, s.cancelled || (call s.store).cancelled⟩) :
    Watches (Press.ask (call.watched request)) (Press.ask call) Q := fun w =>
  ⟨_, _, [⟨request, (call w.store.inner).cancelled⟩], run_ask _ w, run_ask call w.inner, rfl,
    by simp only [List.any_cons, List.any_nil, Bool.or_false]; rfl, hQ w.inner⟩

/-- A page is rendered without any call. -/
theorem render {r : Renderer σ} {page : Template.PageName} {c : Template.Context} {Q : Findings σ String}
    (hQ : ∀ s result s', Q s [] result s') :
    Watches (Press.render r.watched page c) (Press.render r page c) Q := fun w =>
  ⟨_, _, [], run_render r.watched page c w, run_render r page c w.inner, (List.append_nil _).symm,
    (Bool.or_false _).symm, hQ _ _ _⟩

/-- **A step and what follows it**: an error of the step is found as such, and after a result the calls of what follows
are put down behind those of the step. -/
theorem bind {f : α → Press (Watched σ) β} {g : α → Press σ β} {P : Findings σ α} {F : α → Findings σ β}
    {Q : Findings σ β} (hp : p.Watches q P) (hf : ∀ a, (f a).Watches (g a) (F a))
    (herror : ∀ s calls e s', P s calls (.error e) s' → Q s calls (.error e) s')
    (hok : ∀ s calls a t more r s', t.cancelled = (s.cancelled || calls.any (·.cancels)) → P s calls (.ok a) t →
      F a t more r s' → Q s (calls ++ more) r s') : (p >>= f).Watches (q >>= g) Q := fun w => by
  obtain ⟨r, w₁, calls, hrunp, hrunq, hcalls, hcancelled, hfound⟩ := hp w
  cases r with
  | error e =>
    exact ⟨.error e, w₁, calls, run_bind_error hrunp f, run_bind_error hrunq g, hcalls, hcancelled,
      herror _ _ _ _ hfound⟩
  | ok a =>
    have hgivesp : p.Gives w a w₁ := hrunp
    have hgivesq : q.Gives w.inner a w₁.inner := hrunq
    obtain ⟨r, w₂, more, hrunf, hrung, hmore, hcancelled', hrest⟩ := hf a w₁
    refine ⟨r, w₂, calls ++ more, hgivesp.run_bind.trans hrunf, hgivesq.run_bind.trans hrung, ?_, ?_,
      hok _ _ _ _ _ _ _ hcancelled hfound hrest⟩
    · rw [hmore, hcalls, List.append_assoc]
    · rw [hcancelled', hcancelled, List.any_append, Bool.or_assoc]

/-- After a check a run that goes on has not been cancelled. -/
theorem check_bind {Q : Findings σ β} {f : Unit → Press (Watched σ) β} {g : Unit → Press σ β}
    (hends : ∀ s, Q s [] (.error .cancelled) s)
    (hf : (f ()).Watches (g ()) fun s calls r s' => s.cancelled = false → Q s calls r s') :
    (Press.check >>= f).Watches (Press.check >>= g) Q := by
  have hcheck : (Press.check : Press (Watched σ) Unit).Watches Press.check fun s calls r s' =>
      s' = s ∧ calls = [] ∧ (r = .error .cancelled ∨ r = .ok () ∧ s.cancelled = false) :=
    .check (fun _ h => ⟨rfl, rfl, .inr ⟨rfl, h⟩⟩) fun _ _ => ⟨rfl, rfl, .inl rfl⟩
  refine hcheck.bind (fun _ => hf) (fun s calls e s' h => ?_) fun s calls _ t more r s' _ h hrest => ?_
  · obtain ⟨rfl, rfl, herror | ⟨hok, -⟩⟩ := h
    · cases herror
      exact hends _
    · cases hok
  · obtain ⟨rfl, rfl, herror | ⟨-, hrunning⟩⟩ := h
    · cases herror
    · exact hrest hrunning

/-- A result that is only made something else of. -/
theorem map {Q : Findings σ α} {Q' : Findings σ β} (h : p.Watches q Q) (f : α → β)
    (hQ : ∀ s calls r s', Q s calls r s' → Q' s calls (r.map f) s') :
    (p >>= fun a => Pure.pure (f a)).Watches (q >>= fun a => Pure.pure (f a)) Q' := by
  have hpure (a : α) : (Pure.pure (f a) : Press (Watched σ) β).Watches (Pure.pure (f a)) fun s calls r s' =>
      s' = s ∧ calls = [] ∧ r = .ok (f a) := .pure fun _ => ⟨rfl, rfl, rfl⟩
  refine h.bind hpure (fun s calls e s' hcalls => hQ _ _ _ _ hcalls) fun s calls a t more r s' _ hcalls hmore => ?_
  obtain ⟨rfl, rfl, rfl⟩ := hmore
  rw [List.append_nil]
  exact hQ _ _ _ _ hcalls

/-- A run whose failures of the store are caught has the same calls. -/
theorem unlessStoreFails {Q : Session σ → List Call → Prop} (h : p.Watches q fun s calls _ _ => Q s calls) :
    (unlessStoreFails p).Watches (unlessStoreFails q) fun s calls _ _ => Q s calls := fun w => by
  obtain ⟨r, w', calls, hp, hq, hcalls, hcancelled, hfound⟩ := h w
  obtain ⟨spared, hspared⟩ : ∃ spared : Except BuildError (Option α), ∀ {τ : Type} {p : Press τ α} {s t : Session τ},
      p.run.run s = (r, t) → (Press.unlessStoreFails p).run.run s = (spared, t) := by
    cases r with
    | ok a => exact ⟨.ok (some a), fun h => by rw [run_unlessStoreFails, h]⟩
    | error e =>
      cases e with
      | store cause => exact ⟨.ok none, fun h => by rw [run_unlessStoreFails, h]⟩
      | _ => exact ⟨.error _, fun h => by rw [run_unlessStoreFails, h]⟩
  exact ⟨spared, w', calls, hspared hp, hspared hq, hcalls, hcancelled, hfound⟩

/-! ## Kinds of calls -/

/-- All calls are of a kind. -/
def Only (P : Call → Prop) : Findings σ α :=
  fun _ calls _ _ => ∀ x ∈ calls, P x

section Kinds

variable {P : Call → Prop}

theorem only_pure (a : α) : Watches (Pure.pure a : Press (Watched σ) α) (Pure.pure a) (Only P) :=
  .pure fun _ _ h => absurd h List.not_mem_nil

theorem only_throw (e : BuildError) :
    Watches (MonadExcept.throw e : Press (Watched σ) α) (MonadExcept.throw e) (Only P) :=
  .throw fun _ _ h => absurd h List.not_mem_nil

theorem only_check : Watches (Press.check : Press (Watched σ) Unit) Press.check (Only P) :=
  .check (fun _ _ _ h => absurd h List.not_mem_nil) fun _ _ _ h => absurd h List.not_mem_nil

theorem only_ask {request : Request} (h : ∀ cancels, P ⟨request, cancels⟩) (call : StoreCall σ α) :
    Watches (Press.ask (call.watched request)) (Press.ask call) (Only P) :=
  .ask fun _ _ hx => List.mem_singleton.1 hx ▸ h _

theorem only_bind {f : α → Press (Watched σ) β} {g : α → Press σ β} (hp : p.Watches q (Only P))
    (hf : ∀ a, (f a).Watches (g a) (Only P)) : (p >>= f).Watches (q >>= g) (Only P) :=
  hp.bind hf (fun _ _ _ _ h => h) fun _ _ _ _ _ _ _ _ hcalls hmore => List.forall_mem_append.2 ⟨hcalls, hmore⟩

/-- Runs with calls of a kind are made of such runs. -/
theorem congruence (P : Call → Prop) :
    Congruence (fun _ (p : Press (Watched σ) _) (q : Press σ _) => p.Watches q (Only P)) where
  pure := only_pure
  check := only_check
  bind := only_bind

end Kinds

/-- No call is an update. -/
abbrev Quiet : Findings σ α :=
  Only fun x => x.request.isUpdate = false

end Watches
end Press

namespace Bindery

open Press (Watches)
open Press.Watches (Quiet)

theorem alike_watched (b : Bindery σ) : b.watched.Alike (fun _ p q => p.Watches q Quiet) b where
  toCongruence := Watches.congruence _
  now := rfl
  page _ _ := .render fun _ _ _ _ h => absurd h List.not_mem_nil
  text _ := .only_ask (fun _ => rfl) _
  blob _ := .only_ask (fun _ => rfl) _
  image _ := .only_ask (fun _ => rfl) _
  author _ := .only_ask (fun _ => rfl) _
  tagsNamed _ := .only_ask (fun _ => rfl) _

/-- **Once there is a draft, a build asks for no update.** -/
theorem watches_finish (b : Bindery σ) (d : Draft) : (b.watched.finish d).Watches (b.finish d) Quiet :=
  alike_finish b.alike_watched d

end Bindery
end Bookbinder
