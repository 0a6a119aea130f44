import Bookbinder.Proofs.CancelledBuilds
/-!
# Attempts at addresses

Addresses are assigned at the first attempt that the store does not fail, if there is one among so many
(`ends_assign`).  An attempt asks for one update at most.  Topics that are written in place stay as they are unless they
are assigned addresses (`run_assignInPlace`).
-/
namespace Bookbinder

variable {σ τ α β : Type}

namespace Press

/-- A run that fails for the store, or for being cancelled, which is then kept in mind. -/
def Excused (p : Press σ α) : Prop :=
  ∀ ⦃s e t⦄, p.run.run s = (.error e, t) → (∃ cause, e = .store cause) ∨ e = .cancelled ∧ t.cancelled = true

namespace Excused

theorem congruence : Congruence (fun _ (p : Press σ _) (_ : Press σ _) => p.Excused) where
  pure _ := fun _ _ _ h => by cases h
  check := by
    intro s e t h
    rw [run_check, Prod.mk.injEq] at h
    obtain ⟨h, rfl⟩ := h
    split at h <;> cases h
    exact .inr ⟨rfl, ‹_›⟩
  bind := by
    intro α β p _ f _ hp hf s e t h
    cases hrun : p.run.run s with
    | mk r u =>
      cases r with
      | ok a =>
        have hgives : p.Gives s a u := hrun
        rw [hgives.run_bind] at h
        exact hf a h
      | error e' =>
        rw [run_bind_error hrun] at h
        cases h
        exact hp hrun

theorem ask (call : StoreCall σ α) : (Press.ask call).Excused := by
  intro s e t h
  rw [run_ask] at h
  cases hresult : (call s.store).result with
  | ok a =>
    rw [hresult] at h
    cases h
  | error cause =>
    rw [hresult] at h
    cases h
    exact .inl ⟨cause, rfl⟩

end Excused

theorem Watches.and_run {p : Press (Watched σ) α} {q : Press σ α} {Q : Findings σ α} (h : p.Watches q Q) :
    p.Watches q fun s calls r s' => Q s calls r s' ∧ q.run.run s = (r, s') := fun w =>
  have ⟨r, w', calls, hp, hq, hcalls, hcancelled, hfound⟩ := h w
  ⟨r, w', calls, hp, hq, hcalls, hcancelled, hfound, hq⟩

end Press

namespace Address

open Press (Excused Watches)

variable (store : TopicStore σ) (attempts : Nat) (topics : List Topic)

/-! ## One attempt after the other -/

theorem excused_attempt : (attempt store attempts topics).Excused :=
  alike_attempt store store Excused.congruence (fun _ => .ask _) (fun _ => .ask _) attempts topics

/-- The session after so many attempts at the same topics, each begun where the one before it has ended. -/
def sessionAfter : Nat → Session σ → Session σ
  | 0, s => s
  | n + 1, s => sessionAfter n ((attempt store attempts topics).run.run s).2

theorem sessionAfter_succ : ∀ (n : Nat) (s : Session σ), sessionAfter store attempts topics (n + 1) s
    = ((attempt store attempts topics).run.run (sessionAfter store attempts topics n s)).2
  | 0, _ => rfl
  | n + 1, s => sessionAfter_succ n ((attempt store attempts topics).run.run s).2

/-- The store fails the attempt that is made after so many others. -/
def Fails (s : Session σ) (n : Nat) : Prop :=
  ∃ cause, ((attempt store attempts topics).run.run (sessionAfter store attempts topics n s)).1 = .error (.store cause)

/-- How assigning addresses ends: with the first attempt that is not failed, once there are no more to be made, or as
soon as it is noticed that the build is cancelled. -/
inductive Ends (retries : Nat) (s : Session σ) : Except BuildError (Option (List Topic)) → Session σ → Prop
  | assigned {n : Nat} {topics' : List Topic} (hn : n < retries) (hfails : ∀ k < n, Fails store attempts topics s k)
    (h : ((attempt store attempts topics).run.run (sessionAfter store attempts topics n s)).1 = .ok topics') :
    Ends retries s (.ok (some topics')) (sessionAfter store attempts topics (n + 1) s)
  | givenUp (hfails : ∀ k < retries, Fails store attempts topics s k) :
    Ends retries s (.ok none) (sessionAfter store attempts topics retries s)
  | cancelled {n m : Nat} (hn : n < retries) (hm : m = n ∨ m = n + 1)
    (hfails : ∀ k < n, Fails store attempts topics s k)
    (h : (sessionAfter store attempts topics m s).cancelled = true) :
    Ends retries s (.error .cancelled) (sessionAfter store attempts topics m s)

variable {store attempts topics} {retries : Nat} {s s' : Session σ}

theorem Ends.after {r : Except BuildError (Option (List Topic))} (hfirst : Fails store attempts topics s 0)
    (h : Ends store attempts topics retries ((attempt store attempts topics).run.run s).2 r s') :
    Ends store attempts topics (retries + 1) s r s' := by
  have hmore {n : Nat} (hfails : ∀ k < n, Fails store attempts topics ((attempt store attempts topics).run.run s).2 k) :
      ∀ k < n + 1, Fails store attempts topics s k := by
    intro k hk
    cases k with
    | zero => exact hfirst
    | succ k => exact hfails k (by omega)
  cases h with
  | assigned hn hfails h => exact .assigned (by omega) (hmore hfails) h
  | givenUp hfails => exact .givenUp (hmore hfails)
  | @cancelled n m hn hm hfails h =>
    have hm' : m + 1 = n + 1 ∨ m + 1 = n + 1 + 1 := by omega
    exact .cancelled (by omega) hm' (hmore hfails) h

/-- **Attempts are made until one is not failed**, as many as are to be made. -/
theorem ends_assign (store : TopicStore σ) (attempts : Nat) (topics : List Topic) : ∀ (retries : Nat) (s : Session σ),
    Ends store attempts topics retries s ((assign store attempts topics retries).run.run s).1
      ((assign store attempts topics retries).run.run s).2
  | 0, _ => .givenUp fun _ hk => absurd hk (Nat.not_lt_zero _)
  | retries + 1, s => by
    have hnone {P : Nat → Prop} : ∀ k < 0, P k := fun _ hk => absurd hk (Nat.not_lt_zero _)
    cases hs : s.cancelled with
    | true =>
      have hcheck := Press.run_check s
      rw [hs, if_pos rfl] at hcheck
      unfold assign
      rw [Press.run_bind_error hcheck]
      exact .cancelled (n := 0) (m := 0) (Nat.succ_pos _) (.inl rfl) hnone hs
    | false =>
      unfold assign
      rw [(Press.gives_check hs).run_bind]
      cases hrun : (attempt store attempts topics).run.run s with
      | mk result t =>
        have hspared := Press.run_unlessStoreFails (attempt store attempts topics) s
        rw [hrun] at hspared
        have hafter : sessionAfter store attempts topics 1 s = t := congrArg Prod.snd hrun
        cases result with
        | ok topics' =>
          have hgives : (Press.unlessStoreFails (attempt store attempts topics)).Gives s (some topics') t := hspared
          rw [hgives.run_bind, ← hafter]
          exact .assigned (n := 0) (Nat.succ_pos _) hnone (congrArg Prod.fst hrun)
        | error e =>
          rcases excused_attempt store attempts topics hrun with ⟨cause, rfl⟩ | ⟨rfl, ht⟩
          · have hgives : (Press.unlessStoreFails (attempt store attempts topics)).Gives s none t := hspared
            rw [hgives.run_bind]
            refine Ends.after ⟨cause, congrArg Prod.fst hrun⟩ ?_
            rw [hrun]
            exact ends_assign store attempts topics retries t
          · rw [Press.run_bind_error hspared, ← hafter]
            rw [← hafter] at ht
            exact .cancelled (n := 0) (Nat.succ_pos _) (.inr rfl) hnone ht

section Ending

variable {r : Except BuildError (Option (List Topic))}

/-- No more attempts are made than are to be made, and none after one that was not failed. -/
theorem Ends.exists_attempts (h : Ends store attempts topics retries s r s') : ∃ n ≤ retries,
    s' = sessionAfter store attempts topics n s ∧ ∀ k, k + 1 < n → Fails store attempts topics s k := by
  cases h with
  | @assigned n topics' hn hfails h => exact ⟨n + 1, hn, rfl, fun k hk => hfails k (by omega)⟩
  | givenUp hfails => exact ⟨retries, Nat.le_refl _, rfl, fun k hk => hfails k (by omega)⟩
  | @cancelled n m hn hm hfails h => exact ⟨m, by omega, rfl, fun k hk => hfails k (by omega)⟩

theorem not_fails_of_ok {topics' : List Topic} {n : Nat}
    (h : ((attempt store attempts topics).run.run (sessionAfter store attempts topics n s)).1 = .ok topics') :
    ¬ Fails store attempts topics s n := by
  rintro ⟨cause, hcause⟩
  rw [h] at hcause
  cases hcause

/-- **Addresses are assigned exactly if one of the attempts is not failed.** -/
theorem Ends.assigned_iff (h : Ends store attempts topics retries s r s') (hs' : s'.cancelled = false) :
    (∃ topics', r = .ok (some topics')) ↔ ∃ n < retries, ¬ Fails store attempts topics s n := by
  cases h with
  | @assigned n topics' hn hfails h => exact ⟨fun _ => ⟨n, hn, not_fails_of_ok h⟩, fun _ => ⟨topics', rfl⟩⟩
  | givenUp hfails =>
    constructor
    · rintro ⟨topics', h⟩
      cases h
    · rintro ⟨n, hn, hspared⟩
      exact absurd (hfails n hn) hspared
  | cancelled hn hm hfails h =>
    rw [h] at hs'
    cases hs'

/-- The first attempt that is not failed is the last one. -/
theorem Ends.eq_of_first (h : Ends store attempts topics retries s r s') (hs' : s'.cancelled = false) {n : Nat}
    (hn : n < retries) (hfails : ∀ k < n, Fails store attempts topics s k)
    (hspared : ¬ Fails store attempts topics s n) : s' = sessionAfter store attempts topics (n + 1) s := by
  cases h with
  | @assigned m topics' hm hfails' h =>
    have hle : ¬ m < n := fun hlt => not_fails_of_ok h (hfails m hlt)
    have hge : ¬ n < m := fun hlt => hspared (hfails' n hlt)
    rw [show m = n by omega]
  | givenUp hfails' => exact absurd (hfails' n hn) hspared
  | cancelled hn hm hfails h =>
    rw [h] at hs'
    cases hs'

/-- Where every attempt is failed, all are made, and none is to any avail. -/
theorem Ends.eq_of_fails (h : Ends store attempts topics retries s r s') (hs' : s'.cancelled = false)
    (hfails : ∀ n < retries, Fails store attempts topics s n) :
    r = .ok none ∧ s' = sessionAfter store attempts topics retries s := by
  cases h with
  | @assigned n topics' hn hfails' h => exact absurd (hfails n hn) (not_fails_of_ok h)
  | givenUp hfails' => exact ⟨rfl, rfl⟩
  | cancelled hn hm hfails h =>
    rw [h] at hs'
    cases hs'

end Ending

/-! ## Updates -/

/-- Calls with one update at most, and with none for topics that nothing is to be kept of. -/
def UpdatesOnce (topics : List Topic) (calls : List Call) : Prop :=
  calls.countP (·.request.isUpdate) ≤ 1 ∧
    ((∀ t ∈ topics, t.address? = none → t.id < 0) → calls.countP (·.request.isUpdate) = 0)

theorem Covers.updates_eq_nil {grants : List Grant} (h : Covers topics grants)
    (hunknown : ∀ t ∈ topics, t.address? = none → t.id < 0) : grants.filterMap update? = [] := by
  refine List.filterMap_eq_nil_iff.2 fun g hg => ?_
  obtain ⟨hmem, haddress⟩ := h.mem hg
  have hid := hunknown g.1 hmem haddress
  exact if_neg (by omega)

/-- **An attempt asks for one update at most.** -/
theorem watches_attempt_once (store : TopicStore σ) (attempts : Nat) (topics : List Topic) :
    (attempt store.watched attempts topics).Watches (attempt store attempts topics)
      fun _ calls _ _ => UpdatesOnce topics calls := by
  have hquiet {calls : List Call} (h : ∀ x ∈ calls, x.request.isUpdate = false) :
      calls.countP (·.request.isUpdate) = 0 :=
    List.countP_eq_zero.2 fun x hx => by simp [h x hx]
  unfold attempt
  refine (watches_find store attempts topics _).and_run.bind (F := fun grants _ calls _ _ =>
    calls.length ≤ 1 ∧ (grants.filterMap update? = [] → calls = [])) (fun grants => ?_) ?_ ?_
  · dsimp only
    split
    · rename_i hupdates
      refine (Watches.ask (Q := fun _ calls _ _ => calls.length = 1) fun _ => rfl).map _ fun s calls r s' h => ?_
      refine ⟨Nat.le_of_eq h, fun hnone => ?_⟩
      rw [hnone] at hupdates
      cases hupdates
    · exact .pure fun _ => ⟨Nat.zero_le _, fun _ => rfl⟩
  · rintro s calls e s' ⟨⟨hcalls, -⟩, -⟩
    have hnone := hquiet hcalls
    exact ⟨by omega, fun _ => hnone⟩
  · rintro s calls grants t more r s' - ⟨⟨hcalls, -⟩, hfind⟩ ⟨hlength, hmore⟩
    have hnone := hquiet hcalls
    have hle := List.countP_le_length (p := fun x : Call => x.request.isUpdate) (l := more)
    unfold UpdatesOnce
    rw [List.countP_append, hnone, Nat.zero_add]
    refine ⟨by omega, fun hunknown => ?_⟩
    have hgives : (find store attempts topics (topics.filterMap Topic.address?)).Gives s grants t := hfind
    rw [hmore ((covers_of_find hgives).updates_eq_nil hunknown), List.countP_nil]

end Address

/-! ## Topics in place -/

/-- A store and the topics at hand. -/
structure Bench (σ : Type) where
  inner : σ
  topics : List Topic

def StoreCall.onBench (call : StoreCall σ α) : StoreCall (Bench σ) α := fun b =>
  let reply := call b.inner
  ⟨reply.result, ⟨reply.state, b.topics⟩, reply.cancelled⟩

/-- The calls of a store leave the topics at hand as they are. -/
def TopicStore.onBench (store : TopicStore σ) : TopicStore (Bench σ) where
  topics ids := (store.topics ids).onBench
  translations ids locale := (store.translations ids locale).onBench
  withProperty id value := (store.withProperty id value).onBench
  update us := (store.update us).onBench
  text id := (store.text id).onBench
  blob id := (store.blob id).onBench
  image id := (store.image id).onBench
  author id := (store.author id).onBench
  tagsNamed name := (store.tagsNamed name).onBench

def Session.withTopics (s : Session σ) (topics : List Topic) : Session (Bench σ) :=
  ⟨⟨s.store, topics⟩, s.cancelled⟩

namespace Press

/-- A run goes as another one does, and leaves the topics at hand as they are. -/
def Beside (p : Press (Bench σ) α) (q : Press σ α) : Prop :=
  ∀ s topics, p.run.run (s.withTopics topics) = ((q.run.run s).1, (q.run.run s).2.withTopics topics)

namespace Beside

theorem congruence : Congruence (fun _ (p : Press (Bench σ) _) (q : Press σ _) => p.Beside q) where
  pure _ := fun _ _ => rfl
  check := by
    rintro ⟨store, cancelled⟩ topics
    cases cancelled <;> rfl
  bind := by
    intro α β p q f g hp hf s topics
    have hrun := hp s topics
    cases hq : q.run.run s with
    | mk r t =>
      rw [hq] at hrun
      cases r with
      | ok a =>
        have hgives : q.Gives s a t := hq
        have hgives' : p.Gives (s.withTopics topics) a (t.withTopics topics) := hrun
        rw [hgives.run_bind, hgives'.run_bind]
        exact hf a t topics
      | error e => rw [run_bind_error hq, run_bind_error hrun]

theorem ask (call : StoreCall σ α) : (Press.ask call.onBench).Beside (Press.ask call) := by
  intro s topics
  rw [run_ask, run_ask]
  rfl

end Beside

/-- How a run ends that writes what it gives out into the topics at hand.  A failure leaves them as they are. -/
def placed {γ : Type} (topics : List Topic) (out : γ → β × List Topic) :
    Except BuildError γ × Session σ → Except BuildError β × Session (Bench σ)
  | (.ok c, t) => (.ok (out c).1, t.withTopics (out c).2)
  | (.error e, t) => (.error e, t.withTopics topics)

theorem Beside.placed {p : Press (Bench σ) α} {q : Press σ α} (h : p.Beside q) (s : Session σ) (topics : List Topic) :
    p.run.run (s.withTopics topics) = Press.placed topics (fun a => (a, topics)) (q.run.run s) := by
  rw [h s topics]
  cases q.run.run s with
  | mk r t => cases r <;> rfl

theorem run_bind_placed {γ δ : Type} {p : Press (Bench σ) α} {q : Press σ γ} {f : α → Press (Bench σ) β}
    {g : γ → Press σ δ} {topics : List Topic} {out : γ → α × List Topic} {out' : δ → β × List Topic} {s : Session σ}
    (hp : p.run.run (s.withTopics topics) = placed topics out (q.run.run s))
    (hf : ∀ c t, (f (out c).1).run.run (t.withTopics (out c).2) = placed topics out' ((g c).run.run t)) :
    (p >>= f).run.run (s.withTopics topics) = placed topics out' ((q >>= g).run.run s) := by
  cases hq : q.run.run s with
  | mk r t =>
    rw [hq] at hp
    cases r with
    | ok c =>
      have hgives : q.Gives s c t := hq
      have hgives' : p.Gives (s.withTopics topics) (out c).1 (t.withTopics (out c).2) := hp
      rw [hgives.run_bind, hgives'.run_bind]
      exact hf c t
    | error e =>
      rw [run_bind_error hq, run_bind_error (show p.run.run (s.withTopics topics) = _ from hp)]
      rfl

theorem run_unlessStoreFails_placed {p : Press (Bench σ) Unit} {q : Press σ (List Topic)} {topics : List Topic}
    {s : Session σ} (h : p.run.run (s.withTopics topics)
      = placed topics (fun topics' => ((), topics')) (q.run.run s)) :
    (unlessStoreFails p).run.run (s.withTopics topics)
      = placed topics (fun found => (found.map fun _ => (), found.getD topics)) ((unlessStoreFails q).run.run s) := by
  rw [run_unlessStoreFails, run_unlessStoreFails, h]
  cases q.run.run s with
  | mk r t =>
    cases r with
    | ok topics' => rfl
    | error e => cases e <;> rfl

end Press

namespace Address

/-- The topics at hand from one on, one after the other, with the addresses granted. -/
def writeFrom (grants : List Grant) (i : Nat) : Nat → Press (Bench σ) Unit
  | 0 => return
  | more + 1 => do
    modify fun s => { s with store := { s.store with topics := s.store.topics.modify i (apply grants) } }
    writeFrom grants (i + 1) more

/-- One attempt that writes the addresses into the topics at hand, once the store has kept them. -/
def attemptInPlace (store : TopicStore σ) (attempts : Nat) : Press (Bench σ) Unit := do
  let topics := (← get).store.topics
  let grants ← find store.onBench attempts topics (topics.filterMap Topic.address?)
  let updates := grants.filterMap update?
  if !updates.isEmpty then Press.ask (store.onBench.update updates)
  writeFrom grants 0 topics.length

/-- Whether the topics at hand have been assigned addresses by one of so many attempts. -/
def assignInPlace (store : TopicStore σ) (attempts : Nat) : Nat → Press (Bench σ) Bool
  | 0 => return false
  | retries + 1 => do
    Press.check
    match ← Press.unlessStoreFails (attemptInPlace store attempts) with
    | some () => return true
    | none => assignInPlace store attempts retries

variable (store : TopicStore σ) (attempts : Nat)

theorem gives_writeFrom (grants : List Grant) (s : Session σ) : ∀ rest done : List Topic,
    (writeFrom grants done.length rest.length).Gives (s.withTopics (done ++ rest)) ()
      (s.withTopics (done ++ rest.map (apply grants)))
  | [], done => rfl
  | t :: rest, done => by
    have hmodify : (done ++ t :: rest).modify done.length (apply grants) = (done ++ [apply grants t]) ++ rest := by
      rw [List.modify_eq_take_cons_drop (by simp)]
      simp
    have hwrite : (modify fun s : Session (Bench σ) =>
        { s with store := { s.store with topics := s.store.topics.modify done.length (apply grants) } } :
          Press (Bench σ) Unit).Gives (s.withTopics (done ++ t :: rest)) ⟨⟩
            (s.withTopics ((done ++ [apply grants t]) ++ rest)) := by
      rw [← hmodify]
      rfl
    have hrest := gives_writeFrom grants s rest (done ++ [apply grants t])
    rw [List.length_append, List.length_singleton] at hrest
    rw [List.map_cons, List.append_cons done (apply grants t)]
    exact hwrite.andThen hrest

/-- **An attempt in place writes what it would else give out**, and nothing if it fails. -/
theorem run_attemptInPlace (s : Session σ) (topics : List Topic) :
    (attemptInPlace store attempts).run.run (s.withTopics topics)
      = Press.placed topics (fun topics' => ((), topics')) ((attempt store attempts topics).run.run s) := by
  have hget : (get : Press (Bench σ) (Session (Bench σ))).Gives (s.withTopics topics) (s.withTopics topics)
      (s.withTopics topics) := rfl
  have hfind := alike_find store.onBench store Press.Beside.congruence (fun _ => .ask _) attempts topics
    (topics.filterMap Topic.address?)
  have hwrite (grants : List Grant) (t : Session σ) : (writeFrom grants 0 topics.length).run.run (t.withTopics topics)
      = (.ok (), t.withTopics (topics.map (apply grants))) := gives_writeFrom grants t topics []
  unfold attemptInPlace attempt
  rw [hget.run_bind]
  refine Press.run_bind_placed (hfind.placed s topics) fun grants t => ?_
  dsimp only
  split
  · exact Press.run_bind_placed ((Press.Beside.ask _).placed t topics) fun _ t' => hwrite grants t'
  · exact hwrite grants t

/-- **Topics in place stay as they are unless they are assigned addresses.** -/
theorem run_assignInPlace (topics : List Topic) : ∀ (retries : Nat) (s : Session σ),
    (assignInPlace store attempts retries).run.run (s.withTopics topics)
      = Press.placed topics (fun found => (found.isSome, found.getD topics))
        ((assign store attempts topics retries).run.run s)
  | 0, _ => rfl
  | retries + 1, s => by
    unfold assignInPlace assign
    refine Press.run_bind_placed (Press.Beside.congruence.check.placed s topics) fun _ t => ?_
    refine Press.run_bind_placed (Press.run_unlessStoreFails_placed (run_attemptInPlace store attempts t topics)) ?_
    intro found u
    cases found with
    | some topics' => rfl
    | none => exact run_assignInPlace topics retries u

/-- **Addresses are assigned by the first attempt that the store does not fail**, and given up after as many attempts as
are to be made.  Each attempt asks for one update at most, and topics in place are only written once they are assigned
addresses. -/
theorem assign_attempts (store : TopicStore σ) (attempts : Nat) (topics : List Topic) (retries : Nat)
    (s : Session (Watched σ)) : ∃ r s', (assign store.watched attempts topics retries).run.run s = (r, s') ∧
      (assign store attempts topics retries).run.run s.inner = (r, s'.inner) ∧
      (∃ n ≤ retries, s' = sessionAfter store.watched attempts topics n s ∧
        ∀ k, k + 1 < n → Fails store.watched attempts topics s k) ∧
      (s'.cancelled = false →
        ((∃ topics', r = .ok (some topics')) ↔ ∃ n < retries, ¬ Fails store.watched attempts topics s n) ∧
        (∀ n < retries, (∀ k < n, Fails store.watched attempts topics s k) →
          ¬ Fails store.watched attempts topics s n → s' = sessionAfter store.watched attempts topics (n + 1) s) ∧
        ((∀ n < retries, Fails store.watched attempts topics s n) →
          r = .ok none ∧ s' = sessionAfter store.watched attempts topics retries s)) ∧
      (∀ n, ∃ calls, UpdatesOnce topics calls ∧ (sessionAfter store.watched attempts topics (n + 1) s).store.calls
        = (sessionAfter store.watched attempts topics n s).store.calls ++ calls) ∧
      ∃ topics', (assignInPlace store.watched attempts retries).run.run (s.withTopics topics)
          = (r.map Option.isSome, s'.withTopics topics') ∧
        (∀ given, r = .ok (some given) → topics' = given) ∧ (r.map Option.isSome ≠ .ok true → topics' = topics) := by
  obtain ⟨r, s', calls, hrun, hinner, -⟩ := watches_assign store attempts topics retries s
  have hends : Ends store.watched attempts topics retries s r s' := by
    have h := ends_assign store.watched attempts topics retries s
    rwa [hrun] at h
  refine ⟨r, s', hrun, hinner, hends.exists_attempts, fun hs' => ⟨hends.assigned_iff hs',
    fun n hn => hends.eq_of_first hs' hn, hends.eq_of_fails hs'⟩, fun n => ?_, ?_⟩
  · obtain ⟨result, t, more, hattempt, -, hcalls, -, honce⟩ :=
      watches_attempt_once store attempts topics (sessionAfter store.watched attempts topics n s)
    refine ⟨more, honce, ?_⟩
    rw [sessionAfter_succ, hattempt]
    exact hcalls
  · have hplace := run_assignInPlace store.watched attempts topics retries s
    rw [hrun] at hplace
    cases r with
    | error e => exact ⟨topics, hplace, fun _ h => (by cases h), fun _ => rfl⟩
    | ok found =>
      cases found with
      | none => exact ⟨topics, hplace, fun _ h => (by cases h), fun _ => rfl⟩
      | some given => exact ⟨given, hplace, fun _ h => (by cases h; rfl), fun h => absurd rfl h⟩

/-- A store that refuses the first update is asked for a second one. -/
example : ((assign MemoryStore.store 9 [.ofText 1 "A" "<section/>"] 5).run.run
    ⟨{ topics := [.ofText 1 "A" "<section/>"], failingUpdates := 1 }, false⟩).2.store.updateCalls = 2 := by
  decide +kernel

end Address
end Bookbinder
