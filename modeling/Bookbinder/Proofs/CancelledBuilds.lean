import Bookbinder.Interruption
import Bookbinder.Proofs.RepeatedBuilds
import Bookbinder.Proofs.WatchedStores
/-!
# Builds that are cancelled

A build that is cancelled during a call of its store never ends in a book.  Nor does it ask for an update any more,
unless it is cancelled while an address is looked for of the last topic it refers to: nothing checks for cancellation
between those calls and the update (`cancelled_bind`).
-/
namespace Bookbinder

variable {σ α β : Type}

/-- A call that asks whether an address is taken which is tried for a topic. -/
def Request.Probes (r : Request) (t : Topic) : Prop :=
  ∃ n, r = .withProperty PropertyId.address (Address.candidate (Address.base t) n)

theorem Request.Probes.isUpdate {r : Request} {t : Topic} (h : r.Probes t) : r.isUpdate = false := by
  obtain ⟨n, rfl⟩ := h
  rfl

/-! ## Cancellation and updates -/

/-- What is put together of two lists splits within the first of them or within the second. -/
theorem split_append {xs ys before after : List α} {x : α} (h : xs ++ ys = before ++ x :: after) :
    (∃ rest, xs = before ++ x :: rest) ∨ ∃ front, before = xs ++ front ∧ ys = front ++ x :: after := by
  rcases List.append_eq_append_iff.1 h with ⟨front, rfl, hys⟩ | ⟨rest, rfl, hx⟩
  · exact .inr ⟨front, rfl, hys⟩
  · cases rest with
    | nil => exact .inr ⟨[], by simp, hx.symm⟩
    | cons y rest =>
      cases hx
      exact .inl ⟨rest, rfl⟩

section Calls

variable {X Y : Call → Prop} {calls more : List Call} {cancelled : Bool}

/-- From the first call on during which the build is cancelled, all calls are of a kind. -/
def Lapse (X : Call → Prop) (calls : List Call) : Prop :=
  ∀ before c later, calls = before ++ c :: later → c.cancels = true → ∀ x ∈ c :: later, X x

/-- Before an update the build is cancelled, if at all, during a call from which on all calls are of a kind. -/
def Heeds (X : Call → Prop) (cancelled : Bool) (calls : List Call) : Prop :=
  ∀ before u after, calls = before ++ u :: after → u.request.isUpdate = true → cancelled = false ∧ Lapse X before

theorem Lapse.of_forall (h : ∀ x ∈ calls, X x) : Lapse X calls := by
  rintro before c later rfl _ x hx
  exact h x (List.mem_append_right _ hx)

theorem Lapse.mono (h : Lapse X calls) (hXY : ∀ x, X x → Y x) : Lapse Y calls :=
  fun before c later hcalls hc x hx => hXY x (h before c later hcalls hc x hx)

/-- Where nothing cancels the build, only what comes later counts. -/
theorem Lapse.append (hcalls : calls.any (·.cancels) = false) (h : Lapse X more) : Lapse X (calls ++ more) := by
  intro before c later hsplit hc
  rcases split_append hsplit with ⟨rest, rfl⟩ | ⟨front, -, hmore⟩
  · rw [List.any_append, List.any_cons, hc, Bool.true_or, Bool.or_true] at hcalls
    cases hcalls
  · exact h front c later hmore hc

theorem Heeds.mono (h : Heeds X cancelled calls) (hXY : ∀ x, X x → Y x) : Heeds Y cancelled calls :=
  fun before u after hcalls hu => (h before u after hcalls hu).imp_right fun hlapse => hlapse.mono hXY

theorem Heeds.of_quiet (h : ∀ x ∈ calls, x.request.isUpdate = false) : Heeds X cancelled calls := by
  rintro before u after rfl hu
  rw [h u (List.mem_append_right _ List.mem_cons_self)] at hu
  cases hu

/-- **What heeds cancellation and goes on with what does, does.** -/
theorem Heeds.append (h : Heeds X cancelled calls) (h' : Heeds X (cancelled || calls.any (·.cancels)) more) :
    Heeds X cancelled (calls ++ more) := by
  intro before u after hsplit hu
  rcases split_append hsplit with ⟨rest, hcalls⟩ | ⟨front, rfl, hmore⟩
  · exact h before u rest hcalls hu
  · obtain ⟨hrunning, hlapse⟩ := h' front u after hmore hu
    rw [Bool.or_eq_false_iff] at hrunning
    exact ⟨hrunning.1, hlapse.append hrunning.2⟩

/-- An update after calls without any. -/
theorem Heeds.concat {c : Call} (hquiet : ∀ x ∈ calls, x.request.isUpdate = false) (hrunning : cancelled = false)
    (hlapse : Lapse X calls) : Heeds X cancelled (calls ++ [c]) := by
  intro before u after hsplit hu
  rcases split_append hsplit with ⟨rest, rfl⟩ | ⟨front, rfl, hfront⟩
  · rw [hquiet u (List.mem_append_right _ List.mem_cons_self)] at hu
    cases hu
  · have hnil : front = [] := by
      cases front with
      | nil => rfl
      | cons y front => simp at hfront
    rw [hnil, List.append_nil]
    exact ⟨hrunning, hlapse⟩

end Calls

namespace Press

/-- The calls of a run heed cancellation, but for a kind of calls. -/
def Heeding (X : Call → Prop) : Findings σ α :=
  fun s calls _ _ => Heeds X s.cancelled calls

namespace Watches

variable {p : Press (Watched σ) α} {q : Press σ α} {X Y : Call → Prop}

theorem heeding (h : p.Watches q Quiet) : p.Watches q (Heeding X) :=
  h.mono fun _ _ _ _ hquiet => .of_quiet hquiet

theorem heeding_bind {f : α → Press (Watched σ) β} {g : α → Press σ β} (hp : p.Watches q (Heeding X))
    (hf : ∀ a, (f a).Watches (g a) (Heeding X)) : (p >>= f).Watches (q >>= g) (Heeding X) :=
  hp.bind hf (fun _ _ _ _ h => h) fun _ _ _ _ _ _ _ hcancelled h hmore => Heeds.append h (hcancelled ▸ hmore)

end Watches
end Press

/-! ## Addresses -/

namespace Address

open Press (Findings Heeding Watches)
open Press.Watches (Only)

variable (store : TopicStore σ)

theorem watches_probe (used : List String) (t : Topic) : ∀ more number : Nat,
    (probe store.watched used t number more).Watches (probe store used t number more)
      (Only fun x => x.request.Probes t)
  | more, number => by
    have htaken : (isTaken store.watched used t.id (candidate (base t) number)).Watches
        (isTaken store used t.id (candidate (base t) number)) (Only fun x => x.request.Probes t) := by
      unfold isTaken
      split
      · exact .only_pure true
      · exact Watches.only_bind (.only_ask (fun _ => ⟨number, rfl⟩) _) fun _ => .only_pure _
    cases more with
    | zero => exact htaken.only_bind fun _ => .only_pure _
    | succ more =>
      refine htaken.only_bind fun taken => ?_
      split
      · exact watches_probe used t more (number + 1)
      · exact .only_pure _

/-- A call that probes for the last of some topics, which has no address. -/
def ProbesLast (ts : List Topic) (x : Call) : Prop :=
  ∃ t, ts.getLast? = some t ∧ t.address? = none ∧ x.request.Probes t

theorem ProbesLast.cons {ts : List Topic} {x : Call} (h : ProbesLast ts x) (t : Topic) : ProbesLast (t :: ts) x := by
  obtain ⟨u, hlast, hrest⟩ := h
  refine ⟨u, ?_, hrest⟩
  rw [List.getLast?_cons, hlast]
  rfl

/-- Addresses are found without updates.  If there is a topic at all, then the build is not cancelled before, and not
until addresses are looked for of the last one. -/
def Found (ts : List Topic) : Findings σ α := fun s calls r _ =>
  (∀ x ∈ calls, x.request.isUpdate = false) ∧
    ∀ a, r = .ok a → ts = [] ∧ calls = [] ∨ s.cancelled = false ∧ Lapse (ProbesLast ts) calls

theorem watches_find (attempts : Nat) : ∀ (ts : List Topic) (used : List String),
    (find store.watched attempts ts used).Watches (find store attempts ts used) (Found ts)
  | [], _ => .pure fun _ => ⟨fun _ h => absurd h List.not_mem_nil, fun _ _ => .inl ⟨rfl, rfl⟩⟩
  | t :: ts, used => by
    unfold find
    refine .check_bind (fun _ => ⟨fun _ h => absurd h List.not_mem_nil, fun _ h => by cases h⟩) ?_
    split
    · refine (watches_find attempts ts used).mono fun s calls r s' h hrunning => ⟨h.1, fun a hr => .inr ⟨hrunning, ?_⟩⟩
      rcases h.2 a hr with ⟨-, rfl⟩ | ⟨-, hlapse⟩
      · exact .of_forall fun _ h => absurd h List.not_mem_nil
      · exact hlapse.mono fun x hx => hx.cons t
    · rename_i hlacks
      have haddress : t.address? = none := by simpa using hlacks
      have hfind (address : String) :
          (find store.watched attempts ts (address :: used) >>= fun grants => pure ((t, address) :: grants)).Watches
            (find store attempts ts (address :: used) >>= fun grants => pure ((t, address) :: grants))
            (Found ts) := by
        refine (watches_find attempts ts (address :: used)).map _ fun s calls r s' h => ⟨h.1, fun a hr => ?_⟩
        cases r with
        | error e => cases hr
        | ok grants => exact h.2 grants rfl
      refine (watches_probe store used t attempts 0).bind hfind
        (fun s calls e s' h hrunning => ⟨?_, fun _ hr => by cases hr⟩)
        fun s calls address s₁ more r s' hcancelled hprobes hrest hrunning => ⟨?_, fun a hr => .inr ⟨hrunning, ?_⟩⟩
      · exact fun x hx => (h x hx).isUpdate
      · exact List.forall_mem_append.2 ⟨fun x hx => (hprobes x hx).isUpdate, hrest.1⟩
      · rcases hrest.2 a hr with ⟨rfl, rfl⟩ | ⟨hrunning', hlapse⟩
        · rw [List.append_nil]
          exact .of_forall fun x hx => ⟨t, rfl, haddress, hprobes x hx⟩
        · -- Addresses of further topics are only looked for if the build has not been cancelled by then.
          rw [hcancelled, Bool.or_eq_false_iff] at hrunning'
          exact .append hrunning'.2 (hlapse.mono fun x hx => hx.cons t)

theorem watches_attempt (attempts : Nat) (topics : List Topic) : (attempt store.watched attempts topics).Watches
    (attempt store attempts topics) (Heeding (ProbesLast topics)) := by
  by_cases hnone : topics = []
  · subst hnone
    exact .pure fun _ => .of_quiet fun _ h => absurd h List.not_mem_nil
  unfold attempt
  refine (watches_find store attempts topics _).bind (F := fun _ _ calls _ _ => calls = [] ∨ ∃ x, calls = [x])
    (fun grants => ?_) (fun s calls e s' h => .of_quiet h.1) fun s calls grants s₁ more r s' _ h hmore => ?_
  · dsimp only
    split
    · refine Watches.bind (P := fun _ calls _ _ => ∃ x, calls = [x]) (.ask fun _ => ⟨_, rfl⟩)
        (fun _ => .pure (Q := fun _ calls _ _ => calls = []) fun _ => rfl) (fun _ _ _ _ h => .inr h) ?_
      rintro s calls a s₁ more r s' - h rfl
      rw [List.append_nil]
      exact .inr h
    · exact .pure fun _ => .inl rfl
  · obtain ⟨hrunning, hlapse⟩ := (h.2 grants rfl).resolve_left fun hempty => hnone hempty.1
    rcases hmore with rfl | ⟨x, rfl⟩
    · rw [List.append_nil]
      exact .of_quiet h.1
    · exact .concat h.1 hrunning hlapse

/-- **Assigning addresses heeds cancellation**, but for calls that probe for the last topic. -/
theorem watches_assign (attempts : Nat) (topics : List Topic) : ∀ retries : Nat,
    (assign store.watched attempts topics retries).Watches (assign store attempts topics retries)
      (Heeding (ProbesLast topics))
  | 0 => .pure fun _ => .of_quiet fun _ h => absurd h List.not_mem_nil
  | retries + 1 => by
    unfold assign
    refine .check_bind (fun _ => .of_quiet fun _ h => absurd h List.not_mem_nil) (Watches.mono ?_ fun _ _ _ _ h _ => h)
    refine Watches.heeding_bind (watches_attempt store attempts topics).unlessStoreFails fun found => ?_
    split
    · exact .heeding (.only_pure _)
    · exact watches_assign attempts topics retries

end Address

/-! ## Topics -/

namespace Translation

open Press (Watches)
open Press.Watches (Quiet)

theorem watches_addSources (locale : String) : ∀ (ids : List Int) (w : Work),
    (addSources locale ids w : Press (Watched σ) Work).Watches (addSources locale ids w) Quiet
  | [], _ => .only_pure _
  | id :: ids, w => .only_bind .only_check fun _ => watches_addSources locale ids (addSource locale id w)

theorem watches_collect (w : Work) : ∀ ids : List Int,
    (collect w ids : Press (Watched σ) (List Topic)).Watches (collect w ids) Quiet
  | [] => .only_pure _
  | id :: ids => by
    unfold collect
    split
    · exact .only_bind (watches_collect w ids) fun _ => .only_pure _
    · exact .only_throw _

/-- Translations are fetched without updates. -/
theorem watches_fetch (store : TopicStore σ) (required : List Int) (locale : String) :
    (fetch store.watched required locale).Watches (fetch store required locale) Quiet := by
  refine Watches.only_bind (.only_ask (fun _ => rfl) _) fun found => ?_
  unfold complete
  refine Watches.only_bind .only_check fun _ => ?_
  dsimp only
  split
  · exact watches_collect _ _
  · exact .only_bind (.only_ask (fun _ => rfl) _) fun sources => .only_bind (watches_addSources locale _ _) fun w =>
      watches_collect w _

end Translation

namespace Bindery

open Press (Heeding Watches)
open Press.Watches (Quiet)

variable (b : Bindery σ)

/-- The topic of the last of some ids, if it is among those found. -/
def lastOf (ids : List Int) (found : List Topic) : Option Topic :=
  ids.getLast?.bind fun id => found.find? fun t => t.id == id

/-- The topic that a store has for the last of some ids. -/
def lastTopic? (ids : List Int) (s : σ) : Option Topic :=
  (b.store.topics ids s).result.toOption.bind (lastOf ids)

/-- A call that probes for the topic of the last of some ids, which has no address. -/
def ProbesLast (ids : List Int) (s : σ) (x : Call) : Prop :=
  ∃ t, b.lastTopic? ids s = some t ∧ t.address? = none ∧ x.request.Probes t

/-- Topics are gathered without any call, and the last one is that of the last id. -/
theorem watches_gather (found : List Topic) : ∀ ids : List Int,
    (gather found ids : Press (Watched σ) (List Topic)).Watches (gather found ids) fun _ calls r _ => calls = [] ∧
      ∀ ts, r = .ok ts → ids.length = ts.length ∧ ∀ t ∈ ts.getLast?, lastOf ids found = some t
  | [] => .pure fun _ => ⟨rfl, fun ts h => by cases h; exact ⟨rfl, fun _ h => by cases h⟩⟩
  | id :: ids => by
    unfold gather
    split
    · rename_i t hfind
      refine (watches_gather found ids).map _ fun s calls r s' h => ⟨h.1, fun ts hr => ?_⟩
      cases r with
      | error e => cases hr
      | ok rest =>
        cases hr
        obtain ⟨hlength, hlast⟩ := h.2 rest rfl
        refine ⟨congrArg Nat.succ hlength, fun u hu => ?_⟩
        cases ids with
        | nil =>
          rw [List.length_eq_zero_iff.1 hlength.symm] at hu
          cases hu
          exact hfind
        | cons id' ids =>
          obtain ⟨v, rest, rfl⟩ := List.exists_cons_of_length_eq_add_one hlength.symm
          exact hlast u hu
    · exact .throw fun _ => ⟨rfl, fun _ h => by cases h⟩

theorem watches_fetchTopics (settings : Settings) (ids : List Int) :
    (b.watched.fetchTopics settings ids).Watches (b.fetchTopics settings ids) fun s calls _ _ =>
      Heeds (b.ProbesLast ids s.store) s.cancelled calls := by
  have hask : (Press.ask (b.store.watched.topics ids)).Watches (Press.ask (b.store.topics ids)) fun s calls r _ =>
      (∀ x ∈ calls, x.request.isUpdate = false) ∧
        ∀ found, r = .ok found → (b.store.topics ids s.store).result.toOption = some found := by
    refine .ask fun s => ⟨fun x hx => List.mem_singleton.1 hx ▸ rfl, fun found hr => ?_⟩
    cases hresult : (b.store.topics ids s.store).result with
    | error e =>
      rw [hresult] at hr
      cases hr
    | ok found =>
      rw [hresult] at hr
      cases hr
      rfl
  unfold fetchTopics
  refine hask.bind (F := fun found => Heeding fun x => ∃ t, lastOf ids found = some t ∧ t.address? = none ∧
    x.request.Probes t) (fun found => ?_) (fun s calls e s' h => .of_quiet h.1) ?_
  · refine (watches_gather found ids).bind (F := fun topics => Heeding (Address.ProbesLast topics)) (fun topics => ?_)
      ?_ ?_
    · refine Watches.heeding_bind (Address.watches_assign b.store _ topics _) fun given => ?_
      split <;> exact .heeding (.only_pure _)
    · rintro s calls e s' ⟨rfl, -⟩
      exact .of_quiet fun _ h => absurd h List.not_mem_nil
    · rintro s calls topics s₁ more r s' hcancelled ⟨rfl, hlast⟩ h
      have hmore : Heeds (Address.ProbesLast topics) s₁.cancelled more := h
      rw [hcancelled, List.any_nil, Bool.or_false] at hmore
      exact hmore.mono fun x ⟨t, ht, hx⟩ => ⟨t, (hlast topics rfl).2 t ht, hx⟩
  · intro s calls found s₁ more r s' hcancelled h hmore
    have hlast : lastOf ids found = b.lastTopic? ids s.store := by rw [lastTopic?, h.2 found rfl, Option.bind_some]
    have hmore : Heeds (b.ProbesLast ids s.store) s₁.cancelled more := hmore.mono fun x ⟨t, ht, hx⟩ => ⟨t, hlast ▸ ht, hx⟩
    rw [hcancelled] at hmore
    exact Heeds.append (.of_quiet h.1) hmore

/-! ## Books -/

variable (spec : ContentSpec) (settings : Settings) (requester : Option String)

/-- A call that probes for the last topic of a book in the language of the source. -/
def Overlooks (s : σ) (x : Call) : Prop :=
  localeOf spec settings = settings.defaultLocale ∧ b.ProbesLast spec.topicIds s x

theorem watches_draft : (b.watched.draft spec settings requester).Watches (b.draft spec settings requester)
    fun s calls _ _ => Heeds (b.Overlooks spec settings s.store) s.cancelled calls := by
  by_cases hnone : spec.topicIds = []
  · have hthrow {τ : Type} (b : Bindery τ) (s : Session τ) :
        (b.draft spec settings requester).run.run s = (.error (.noContent spec.title), s) := by
      unfold draft
      dsimp only
      rw [Registry.isEmpty_register, hnone]
      rfl
    exact .of_run (hthrow b.watched) (hthrow b) fun _ => .of_quiet fun _ h => absurd h List.not_mem_nil
  · rw [draft_eq_fetch b.watched hnone, draft_eq_fetch b hnone]
    refine Watches.map ?_ _ fun _ _ _ _ h => h
    unfold fetch
    split
    · rename_i hlocale
      exact (b.watches_fetchTopics settings spec.topicIds).mono fun s calls r s' h =>
        h.mono fun x hx => ⟨hlocale, hx⟩
    · exact (Watches.only_bind (Translation.watches_fetch b.store _ _) fun _ => .only_pure _).mono fun _ _ _ _ hquiet =>
        .of_quiet hquiet

/-- **A build heeds cancellation**, but for calls that probe for its last topic, and it goes the same way whether its
store is watched or not. -/
theorem watches_bind : (b.watched.bind spec settings requester).Watches (b.bind spec settings requester)
    fun s calls _ _ => Heeds (b.Overlooks spec settings s.store) s.cancelled calls := by
  cases hfault : settings.fault? with
  | some fault =>
    have hthrow {τ : Type} (b : Bindery τ) (s : Session τ) :
        (b.bind spec settings requester).run.run s = (.error (.settings fault), s) := by
      unfold bind
      rw [hfault]
      rfl
    exact .of_run (hthrow b.watched) (hthrow b) fun _ => .of_quiet fun _ h => absurd h List.not_mem_nil
  | none =>
    rw [bind_eq_finish b.watched hfault, bind_eq_finish b hfault]
    refine .check_bind (fun _ => .of_quiet fun _ h => absurd h List.not_mem_nil) ?_
    refine (b.watches_draft spec settings requester).bind (fun d => b.watches_finish d) (fun _ _ _ _ h _ => h) ?_
    exact fun s calls d t more r s' _ h hmore _ => h.append (.of_quiet hmore)

variable {b spec settings requester}

/-- A build that ends in a book has not been cancelled. -/
theorem running_of_bind {s s' : Session σ} {book : Book} (h : (b.bind spec settings requester).Gives s book s') :
    s'.cancelled = false := by
  rw [bind_eq] at h
  obtain ⟨p, s₁, -, h⟩ := h.bind
  unfold print at h
  obtain ⟨files, s₂, -, h⟩ := h.bind
  obtain ⟨u, s₃, hcheck, h⟩ := h.bind
  rw [h.pure.2, hcheck.check]
  exact hcheck.running

variable (b spec settings requester)

/-- The calls that a build makes of its store. -/
def calls (s : σ) : List Call :=
  ((b.watched.bind spec settings requester).run.run ⟨⟨s, []⟩, false⟩).2.store.calls

variable {b spec settings requester}

/-- **A build that is cancelled during a call never ends in a book**, and asks for no update any more, unless it is in the
language of the source, and was cancelled, and made no other calls before the update, while an address was looked for of
the last topic that it refers to. -/
theorem cancelled_bind {s : σ} {before later : List Call} {c : Call}
    (h : b.calls spec settings requester s = before ++ c :: later) (hc : c.cancels = true) :
    (∀ book s', ¬ (b.bind spec settings requester).Gives ⟨s, false⟩ book s') ∧
      ∀ between u after, later = between ++ u :: after → u.request.isUpdate = true →
        localeOf spec settings = settings.defaultLocale ∧
          ∃ t, b.lastTopic? spec.topicIds s = some t ∧ t.address? = none ∧ ∀ x ∈ c :: between, x.request.Probes t := by
  obtain ⟨r, w, calls, hwatched, hplain, hcalls, hcancelled, hheeds⟩ :=
    b.watches_bind spec settings requester ⟨⟨s, []⟩, false⟩
  rw [Bindery.calls, hwatched, hcalls, List.nil_append] at h
  constructor
  · intro book s' hgives
    have hrunning : w.inner.cancelled = false := by
      cases hplain.symm.trans (show (b.bind spec settings requester).run.run ⟨s, false⟩ = (.ok book, s') from hgives)
      exact running_of_bind hgives
    have hany : calls.any (·.cancels) = true := by
      rw [h, List.any_append, List.any_cons, hc, Bool.true_or, Bool.or_true]
    rw [show w.inner.cancelled = _ from hcancelled, hany, Bool.or_true] at hrunning
    cases hrunning
  · rintro between u after rfl hu
    obtain ⟨-, hlapse⟩ := hheeds (before ++ c :: between) u after (by rw [h]; simp) hu
    have hoverlooks := hlapse before c between rfl hc
    obtain ⟨hlocale, t, ht, haddress, -⟩ := hoverlooks c List.mem_cons_self
    refine ⟨hlocale, t, ht, haddress, fun x hx => ?_⟩
    obtain ⟨-, t', ht', -, hprobes⟩ := hoverlooks x hx
    cases ht.symm.trans ht'
    exact hprobes

/-! ## A cancellation that is overlooked -/

/-- A store with a topic whose address another topic has, and a build of it that is cancelled at the first call that asks
who has it. -/
def interrupted : Bindery (Observed MemoryStore) where
  store := Interruption.store [⟨.withProperty, 1, .cancel⟩] MemoryStore.store
  now := default

def takenAddress : Observed MemoryStore where
  inner := { MemoryStore.sample with topics :=
    [.ofText 1 "Alpha" "<section/>", { Topic.ofText 9 "Beta" "<section/>" with properties := [Address.property "Alpha"] }] }

/-- A book with a chapter that refers to the first topic. -/
def alphaSpec : ContentSpec :=
  sampleSpec [.level { kind := .chapter, title := "Guide" } [.topic (.ofTopic 1 "Alpha")]]

/-- The calls of the build: after it has been cancelled it looks for another address, and keeps it. -/
theorem calls_interrupted : interrupted.calls alphaSpec sampleSettings none takenAddress =
    [⟨.topics [1], false⟩, ⟨.withProperty PropertyId.address "Alpha", true⟩,
      ⟨.withProperty PropertyId.address "Alpha1", false⟩, ⟨.update [⟨1, Address.property "Alpha1", []⟩], false⟩] := by
  decide +kernel

/-- The build does not end in a book, and its update comes while an address is looked for of a topic that has none. -/
theorem cancelled_bind_of_probe : ∃ before c between u,
    interrupted.calls alphaSpec sampleSettings none takenAddress = before ++ c :: (between ++ [u]) ∧ c.cancels = true ∧
      u.request.isUpdate = true ∧
      (∀ book s', ¬ (interrupted.bind alphaSpec sampleSettings none).Gives ⟨takenAddress, false⟩ book s') ∧
      ∃ t, interrupted.lastTopic? alphaSpec.topicIds takenAddress = some t ∧ t.address? = none ∧
        ∀ x ∈ c :: between, x.request.Probes t := by
  have hcalls : interrupted.calls alphaSpec sampleSettings none takenAddress = [⟨.topics [1], false⟩] ++ _ :: _ :=
    calls_interrupted
  obtain ⟨hnever, hupdate⟩ := cancelled_bind hcalls rfl
  exact ⟨[_], _, [_], _, calls_interrupted, rfl, rfl, hnever, (hupdate [_] _ [] rfl rfl).2⟩

/-- An update is asked for after the build has been cancelled. -/
theorem update_after_cancellation : ∃ before c later,
    interrupted.calls alphaSpec sampleSettings none takenAddress = before ++ c :: later ∧ c.cancels = true ∧
      ∃ u ∈ later, u.request.isUpdate = true :=
  ⟨[_], _, _, calls_interrupted, rfl, _, List.mem_cons_of_mem _ List.mem_cons_self, rfl⟩

end Bindery
end Bookbinder
