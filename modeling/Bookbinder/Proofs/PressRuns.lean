import Bookbinder.Press
import Mathlib.Data.List.Forall2
/-!
# Runs that end well

`Press.Gives p s a s'` says that the run `p`, begun in the session `s`, ends in the result `a` and leaves the session
`s'`.  A run made of steps gives what its steps give one after the other; what each step keeps, a loop keeps
(`Gives.foldlM`).
-/
namespace Bookbinder

variable {σ α β : Type}

/-! ## Lists whose items go together -/

theorem exists_of_forall₂_left {R : α → β → Prop} {xs : List α} {ys : List β} (h : List.Forall₂ R xs ys) {x : α}
    (hx : x ∈ xs) : ∃ y ∈ ys, R x y := by
  induction h with
  | nil => exact absurd hx List.not_mem_nil
  | cons hxy _ ih =>
    rcases List.mem_cons.1 hx with rfl | hx
    · exact ⟨_, List.mem_cons_self, hxy⟩
    · obtain ⟨y, hy, hr⟩ := ih hx
      exact ⟨y, List.mem_cons_of_mem _ hy, hr⟩

theorem exists_of_forall₂_right {R : α → β → Prop} {xs : List α} {ys : List β} (h : List.Forall₂ R xs ys) {y : β}
    (hy : y ∈ ys) : ∃ x ∈ xs, R x y :=
  exists_of_forall₂_left h.flip hy

namespace Press

/-- A run begun in a session ends in a result and leaves a session. -/
def Gives (p : Press σ α) (s : Session σ) (a : α) (s' : Session σ) : Prop :=
  p.run.run s = (.ok a, s')

/-- Whether a run ends in a result that a test accepts, together with the session that is left. -/
def passes (p : Press σ α) (s : Session σ) (test : α → Session σ → Bool) : Bool :=
  match p.run.run s with
  | (.ok a, t) => test a t
  | (.error _, _) => false

theorem exists_of_passes {p : Press σ α} {s : Session σ} {test : α → Session σ → Bool} (h : p.passes s test = true) :
    ∃ a s', p.Gives s a s' ∧ test a s' = true := by
  rw [passes] at h
  split at h
  · exact ⟨_, _, ‹_›, h⟩
  · cases h

/-- A run whose failures of the store are caught fails only if it would have failed otherwise. -/
theorem run_unlessStoreFails (p : Press σ α) (s : Session σ) :
    (unlessStoreFails p).run.run s = match p.run.run s with
      | (.ok a, t) => (.ok (some a), t)
      | (.error (.store _), t) => (.ok none, t)
      | (.error e, t) => (.error e, t) := by
  unfold unlessStoreFails ExceptT.run StateT.run
  simp only [tryCatch, tryCatchThe, MonadExceptOf.tryCatch, ExceptT.tryCatch, ExceptT.mk, bind, StateT.bind,
    Functor.map, ExceptT.map]
  cases p s with
  | mk r t =>
    cases r with
    | ok a => rfl
    | error e => cases e <;> rfl

/-- After a step with an error a run ends in it. -/
theorem run_bind_error {p : Press σ α} {e : BuildError} {s t : Session σ} (h : p.run.run s = (.error e, t))
    (f : α → Press σ β) : (p >>= f).run.run s = (.error e, t) := by
  show (match p.run.run s with | (x, t) => (ExceptT.bindCont f x).run t) = _
  rw [h]
  rfl

namespace Gives

variable {s s' : Session σ}

theorem unique {p : Press σ α} {a c : α} {t t' : Session σ} (h : p.Gives s a t) (h' : p.Gives s c t') :
    a = c ∧ t = t' := by
  cases (show p.run.run s = (.ok a, t) from h).symm.trans h'
  exact ⟨rfl, rfl⟩

/-- After a step with a result a run goes on as what follows. -/
theorem run_bind {p : Press σ α} {f : α → Press σ β} {a : α} {t : Session σ} (h : p.Gives s a t) :
    (p >>= f).run.run s = (f a).run.run t := by
  show (match p.run.run s with | (x, t) => (ExceptT.bindCont f x).run t) = _
  rw [show p.run.run s = (.ok a, t) from h]
  rfl

/-- **A step and what follows it.** -/
theorem bind {p : Press σ α} {f : α → Press σ β} {b : β} (h : (p >>= f).Gives s b s') :
    ∃ a t, p.Gives s a t ∧ (f a).Gives t b s' := by
  cases hp : p.run.run s with
  | mk x t =>
    cases x with
    | ok a =>
      have ha : p.Gives s a t := hp
      exact ⟨a, t, hp, ha.run_bind.symm.trans h⟩
    | error e => cases (run_bind_error hp f).symm.trans h

theorem andThen {p : Press σ α} {f : α → Press σ β} {a : α} {b : β} {t : Session σ} (h : p.Gives s a t)
    (h' : (f a).Gives t b s') : (p >>= f).Gives s b s' :=
  h.run_bind.trans h'

theorem pure {a b : α} (h : (Pure.pure a : Press σ α).Gives s b s') : b = a ∧ s' = s := by
  cases h
  exact ⟨rfl, rfl⟩

theorem throw {e : BuildError} {a : α} (h : (MonadExcept.throw e : Press σ α).Gives s a s') : False := by
  cases h

theorem map {p : Press σ α} {f : α → β} {b : β} (h : (p >>= fun a => Pure.pure (f a)).Gives s b s') :
    ∃ a, p.Gives s a s' ∧ b = f a := by
  obtain ⟨a, t, hp, h⟩ := bind h
  obtain ⟨rfl, rfl⟩ := pure h
  exact ⟨a, hp, rfl⟩

theorem check {u : Unit} (h : (Press.check : Press σ Unit).Gives s u s') : s' = s := by
  rw [Press.check] at h
  obtain ⟨t, s₁, hget, h⟩ := bind h
  cases hget
  split at h
  · exact h.throw.elim
  · exact h.pure.2

/-- A run that passes a check has not been cancelled. -/
theorem running {u : Unit} (h : (Press.check : Press σ Unit).Gives s u s') : s.cancelled = false := by
  unfold Press.check at h
  obtain ⟨t, s₁, hget, h⟩ := bind h
  cases hget
  split at h
  · exact h.throw.elim
  · simpa using ‹¬s.cancelled = true›

/-- A call that is answered leaves the store as it was after the call. -/
theorem ask {call : StoreCall σ α} {a : α} (h : (Press.ask call).Gives s a s') :
    (call s.store).result = .ok a ∧ s' = ⟨(call s.store).state, s.cancelled || (call s.store).cancelled⟩ := by
  unfold Press.ask at h
  obtain ⟨t, s₁, hget, h⟩ := bind h
  cases hget
  obtain ⟨u, s₂, hset, h⟩ := bind h
  cases hset
  cases hr : (call s.store).result with
  | ok r =>
    rw [hr] at h
    obtain ⟨rfl, rfl⟩ := pure h
    exact ⟨rfl, rfl⟩
  | error e =>
    rw [hr] at h
    exact h.throw.elim

theorem unlessStoreFails {p : Press σ α} {a : α} (h : (Press.unlessStoreFails p).Gives s (some a) s') :
    p.Gives s a s' := by
  unfold Gives at h ⊢
  rw [run_unlessStoreFails] at h
  split at h <;> cases h
  assumption

theorem unlessStoreFails_of_fails {p : Press σ α} {e : StoreError} (h : p.run.run s = (.error (.store e), s')) :
    (Press.unlessStoreFails p).Gives s none s' := by
  unfold Gives
  rw [run_unlessStoreFails, h]

theorem exists_of_unlessStoreFails {p : Press σ α} (h : (Press.unlessStoreFails p).Gives s none s') :
    ∃ e, p.run.run s = (.error (.store e), s') := by
  unfold Gives at h
  rw [run_unlessStoreFails] at h
  split at h <;> cases h
  exact ⟨_, ‹_›⟩

theorem spared {p : Press σ α} {a : α} (h : p.Gives s a s') : (Press.unlessStoreFails p).Gives s (some a) s' := by
  unfold Gives
  rw [run_unlessStoreFails, show p.run.run s = (.ok a, s') from h]

/-- A page that is rendered is the library's own, and the store stays as it is. -/
theorem render {page : Template.PageName} {c : Template.Context} {text : String}
    (h : (Press.render Renderer.pages page c).Gives s text s') : Template.render page.file c = .ok text ∧ s' = s := by
  rw [Press.render] at h
  obtain ⟨t, s₁, hget, h⟩ := bind h
  cases hget
  simp only [Renderer.pages] at h
  obtain ⟨u, s₂, hset, h⟩ := bind h
  cases hset
  cases hr : Template.render page.file c with
  | ok r =>
    rw [hr] at h
    obtain ⟨rfl, rfl⟩ := pure h
    exact ⟨rfl, rfl⟩
  | error e =>
    rw [hr] at h
    exact h.throw.elim

/-! ## Loops -/

/-- **What holds of the items still to come and is kept by each step holds at the end of a loop.** -/
theorem foldlM {P : List α → β → Prop} {f : β → α → Press σ β}
    (hstep : ∀ x xs b c t t', P (x :: xs) b → (f b x).Gives t c t' → P xs c) :
    ∀ {xs : List α} {b c : β} {s s' : Session σ},
    P xs b → (xs.foldlM f b).Gives s c s' → P [] c
  | [], _, _, _, _, hb, h => h.pure.1 ▸ hb
  | x :: xs, b, c, s, s', hb, h => by
    rw [List.foldlM_cons] at h
    obtain ⟨b', t, hx, h⟩ := bind h
    exact foldlM hstep (hstep x xs b b' s t hb hx) h

/-- The results of a loop over a list are those of its items. -/
theorem mapM {f : α → Press σ β} : ∀ {xs : List α} {ys : List β} {s s' : Session σ}, (xs.mapM f).Gives s ys s' →
    List.Forall₂ (fun x y => ∃ t t', (f x).Gives t y t') xs ys
  | [], _, _, _, h => by
    rw [List.mapM_nil] at h
    obtain ⟨rfl, rfl⟩ := pure h
    exact .nil
  | x :: xs, ys, s, s', h => by
    rw [List.mapM_cons] at h
    obtain ⟨y, t, hx, h⟩ := bind h
    obtain ⟨zs, hxs, rfl⟩ := map h
    exact .cons ⟨s, t, hx⟩ (mapM hxs)

theorem exists_of_mem_mapM {f : α → Press σ β} {xs : List α} {ys : List β} (h : (xs.mapM f).Gives s ys s') :
    ∀ y ∈ ys, ∃ x ∈ xs, ∃ t t', (f x).Gives t y t' :=
  fun _ hy => exists_of_forall₂_right (mapM h) hy

end Gives
end Press

namespace Template

theorem render_file (page : PageName) : render page.file = page.page := by
  have hfile : PageName.ofFile? page.file = some page := by
    cases page <;> decide
  funext c
  rw [render, hfile]

end Template
end Bookbinder
