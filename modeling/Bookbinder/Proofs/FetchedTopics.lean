import Bookbinder.Proofs.DraftSteps
import Bookbinder.Proofs.Registration
/-!
# The topics that a book is made of

A draft has a topic for every id that its outline refers to, in the language of the source or in another
(`covers_draft`).  Addresses change nothing about which topics there are.
-/
namespace Bookbinder

variable {σ : Type} {s s' : Session σ}

/-! ## Addresses -/

namespace Address

theorem id_giveGranted (grants : List Grant) (id : Int) (t : Topic) : (giveGranted grants id t).id = t.id := by
  unfold giveGranted
  split <;> rfl

theorem translation_giveGranted (grants : List Grant) (id : Int) (t : Topic) :
    (giveGranted grants id t).translation = t.translation := by
  unfold giveGranted
  split <;> rfl

theorem sourceId_apply (grants : List Grant) (t : Topic) : (apply grants t).sourceId = t.sourceId := by
  have hid : (apply grants t).id = t.id := id_giveGranted grants t.id t
  have htranslation : (apply grants t).translation = t.translation := translation_giveGranted grants t.id t
  unfold Topic.sourceId
  rw [hid, htranslation]

/-- An address that is found is one of those that are tried. -/
theorem exists_candidate_of_probe {store : TopicStore σ} {used : List String} {t : Topic} {address : String} :
    ∀ {more number : Nat} {s : Session σ}, (probe store used t number more).Gives s address s' →
      ∃ n, address = candidate (base t) n
  | 0, number, s, h => by
    obtain ⟨_, s₁, -, h⟩ := h.bind
    exact ⟨number, h.pure.1⟩
  | more + 1, number, s, h => by
    obtain ⟨taken, s₁, -, h⟩ := h.bind
    cases taken with
    | true => exact exists_candidate_of_probe h
    | false => exact ⟨number, h.pure.1⟩

/-- **One topic more**: it has an address already, or it is granted the one that is found for it. -/
theorem cases_find {store : TopicStore σ} {attempts : Nat} {t : Topic} {ts : List Topic} {used : List String}
    {grants : List Grant} (h : (find store attempts (t :: ts) used).Gives s grants s') :
    t.address?.isSome ∧ (find store attempts ts used).Gives s grants s' ∨
      t.address? = none ∧ ∃ address s₁ rest, (probe store used t 0 attempts).Gives s address s₁ ∧
        (find store attempts ts (address :: used)).Gives s₁ rest s' ∧ grants = (t, address) :: rest := by
  unfold find at h
  obtain ⟨_, s₀, hcheck, h⟩ := h.bind
  cases hcheck.check
  split at h
  · exact .inl ⟨‹_›, h⟩
  · rename_i haddress
    obtain ⟨address, s₁, hprobe, h⟩ := h.bind
    obtain ⟨rest, hrest, rfl⟩ := h.map
    exact .inr ⟨by simpa using haddress, address, s₁, rest, hprobe, hrest, rfl⟩

/-- An attempt gives the topics the addresses that it finds. -/
theorem exists_find_of_attempt {store : TopicStore σ} {attempts : Nat} {topics topics' : List Topic}
    (h : (attempt store attempts topics).Gives s topics' s') : ∃ grants s₁,
      (find store attempts topics (topics.filterMap Topic.address?)).Gives s grants s₁ ∧
        topics' = topics.map (apply grants) := by
  unfold attempt at h
  obtain ⟨grants, s₁, hfind, h⟩ := h.bind
  dsimp only at h
  split at h
  · obtain ⟨_, s₂, -, h⟩ := h.bind
    exact ⟨grants, s₁, hfind, h.pure.1⟩
  · exact ⟨grants, s₁, hfind, h.pure.1⟩

/-- Each grant is of an address that was tried for its topic. -/
def Tried (grants : List Grant) : Prop :=
  ∀ g ∈ grants, ∃ n, g.2 = candidate (base g.1) n

theorem tried_find {store : TopicStore σ} {attempts : Nat} : ∀ {ts : List Topic} {used : List String}
    {grants : List Grant} {s : Session σ}, (find store attempts ts used).Gives s grants s' → Tried grants
  | [], _, _, _, h => by
    obtain ⟨rfl, -⟩ := h.pure
    exact fun _ hg => absurd hg List.not_mem_nil
  | t :: ts, used, grants, s, h => by
    rcases cases_find h with ⟨-, h⟩ | ⟨-, address, s₁, rest, hprobe, hrest, rfl⟩
    · exact tried_find h
    · exact List.forall_mem_cons.2 ⟨exists_candidate_of_probe hprobe, tried_find hrest⟩

/-- Topics that are given addresses are given nothing else. -/
theorem exists_grants {store : TopicStore σ} {attempts : Nat} {topics topics' : List Topic} :
    ∀ {retries : Nat} {s : Session σ}, (assign store attempts topics retries).Gives s (some topics') s' →
      ∃ grants, Tried grants ∧ topics' = topics.map (apply grants)
  | 0, _, h => by cases h.pure.1
  | retries + 1, s, h => by
    unfold assign at h
    obtain ⟨_, s₁, -, h⟩ := h.bind
    obtain ⟨found, s₂, hattempt, h⟩ := h.bind
    cases found with
    | none => exact exists_grants h
    | some ts =>
      cases h.pure.1
      obtain ⟨grants, s₃, hfind, rfl⟩ := exists_find_of_attempt hattempt.unlessStoreFails
      exact ⟨grants, tried_find hfind, rfl⟩

end Address

/-! ## Topics of ids -/

namespace Press

/-- The error that says that there is no topic. -/
def missingTopic (id : Int) : BuildError :=
  .store (.notFound "topic" id)

/-- The topic of an id, or the error that says that there is none. -/
def present (topic? : Int → Option Topic) (id : Int) : Press σ Topic :=
  match topic? id with
  | some t => return t
  | none => throw (missingTopic id)

/-- Topics that are all there are those of their ids. -/
theorem Gives.forall₂_present {topic? : Int → Option Topic} {ids : List Int} {ts : List Topic}
    (h : (ids.mapM (present topic?)).Gives s ts s') : List.Forall₂ (fun id t => topic? id = some t) ids ts := by
  refine h.mapM.imp fun id t hone => ?_
  obtain ⟨_, _, hone⟩ := hone
  unfold present at hone
  split at hone
  · rename_i u hu
    rw [hu, hone.pure.1]
  · exact hone.throw.elim

end Press

namespace Translation

theorem collect_eq (w : Work) : ∀ ids : List Int,
    (collect w ids : Press σ (List Topic)) = ids.mapM (Press.present w.find?)
  | [] => rfl
  | id :: ids => by
    rw [List.mapM_cons, ← collect_eq w ids, collect, Press.present]
    cases w.find? id <;> rfl

theorem forall₂_collect {w : Work} {ids : List Int} {ts : List Topic} (h : (collect w ids).Gives s ts s') :
    List.Forall₂ (fun id t => w.find? id = some t) ids ts :=
  (collect_eq w ids ▸ h).forall₂_present

/-- **Translations are taken from some work**: from those that were found, or from these and the placeholders for the
rest. -/
theorem exists_work_of_fetch {store : TopicStore σ} {ids : List Int} {locale : String} {ts : List Topic}
    (h : (fetch store ids locale).Gives s ts s') : ∃ found s₁ w,
      (Press.ask (store.translations ids locale)).Gives s found s₁ ∧
      List.Forall₂ (fun id t => w.find? id = some t) ids ts ∧
      (w = ⟨found, []⟩ ∨ ∃ sources s₂ s₃, (Press.ask (store.topics (missingIds found ids))).Gives s₁ sources s₂ ∧
        (addSources locale (missingIds found ids) ⟨found, lastOfEach sources⟩).Gives s₂ w s₃) := by
  unfold fetch at h
  obtain ⟨found, s₁, hfound, h⟩ := h.bind
  unfold complete at h
  obtain ⟨_, s₂, hcheck, h⟩ := h.bind
  cases hcheck.check
  dsimp only at h
  split at h
  · exact ⟨found, s₁, _, hfound, forall₂_collect h, .inl rfl⟩
  · obtain ⟨sources, s₂, hsources, h⟩ := h.bind
    obtain ⟨w, s₃, hadd, h⟩ := h.bind
    exact ⟨found, s₁, w, hfound, forall₂_collect h, .inr ⟨sources, s₂, s₃, hsources, hadd⟩⟩

theorem sourceId_of_find? {w : Work} {id : Int} {t : Topic} (h : w.find? id = some t) : t.sourceId = id := by
  simpa using List.find?_some h

end Translation

namespace Bindery

theorem gather_eq (found : List Topic) : ∀ ids : List Int, (gather found ids : Press σ (List Topic))
    = ids.mapM (Press.present fun id => found.find? fun t => t.id == id)
  | [] => rfl
  | id :: ids => by
    rw [List.mapM_cons, ← gather_eq found ids, gather, Press.present]
    cases found.find? fun t => t.id == id <;> rfl

theorem forall₂_gather {found : List Topic} {ids : List Int} {ts : List Topic} (h : (gather found ids).Gives s ts s') :
    List.Forall₂ (fun id t => t ∈ found ∧ t.id = id) ids ts :=
  List.Forall₂.imp (fun _ _ ht => ⟨List.mem_of_find?_eq_some ht, by simpa using List.find?_some ht⟩)
    (gather_eq found ids ▸ h).forall₂_present

/-- The topics that a store has under their own ids are written in the language of the source. -/
def Untranslated (b : Bindery σ) (s : Session σ) : Prop :=
  ∀ ids ts, (b.store.topics ids s.store).result = .ok ts → ∀ t ∈ ts, t.translation = none

variable {b : Bindery σ} {settings : Settings}

/-- **Topics are taken from those that the store has**, each as it is or with the addresses that were granted. -/
theorem exists_gathered_of_fetchTopics {ids : List Int} {ts : List Topic} {stable : Bool}
    (h : (b.fetchTopics settings ids).Gives s (ts, stable) s') : ∃ found s₁ gathered,
      (Press.ask (b.store.topics ids)).Gives s found s₁ ∧
      List.Forall₂ (fun id t => t ∈ found ∧ t.id = id) ids gathered ∧
      (ts = gathered ∨ ∃ grants, Address.Tried grants ∧ ts = gathered.map (Address.apply grants)) := by
  unfold fetchTopics at h
  obtain ⟨found, s₁, hfound, h⟩ := h.bind
  obtain ⟨gathered, s₂, hgather, h⟩ := h.bind
  obtain ⟨assigned, s₃, hassign, h⟩ := h.bind
  refine ⟨found, s₁, gathered, hfound, forall₂_gather hgather, ?_⟩
  cases assigned with
  | none =>
    cases h.pure.1
    exact .inl rfl
  | some topics =>
    cases h.pure.1
    exact .inr (Address.exists_grants hassign)

/-- **There is one topic for each id, in the order of the ids.** -/
theorem forall₂_fetch (hplain : b.Untranslated s) {ids : List Int} {locale : String} {ts : List Topic} {stable : Bool}
    (h : (b.fetch settings ids locale).Gives s (ts, stable) s') :
    List.Forall₂ (fun id t => t.sourceId = id) ids ts := by
  unfold fetch at h
  split at h
  · obtain ⟨found, s₁, gathered, hfound, hgathered, hgiven⟩ := exists_gathered_of_fetchTopics h
    have hids : List.Forall₂ (fun id t => t.sourceId = id) ids gathered := hgathered.imp fun id t ht => by
      unfold Topic.sourceId
      rw [hplain ids found hfound.ask.1 t ht.1]
      exact ht.2
    rcases hgiven with rfl | ⟨grants, -, rfl⟩
    · exact hids
    · refine List.forall₂_map_right_iff.2 (hids.imp fun id t ht => ?_)
      rw [Address.sourceId_apply, ht]
  · obtain ⟨topics, hrun, he⟩ := h.map
    cases he
    obtain ⟨found, s₁, w, -, htaken, -⟩ := Translation.exists_work_of_fetch hrun
    exact htaken.imp fun _ _ => Translation.sourceId_of_find?

/-! ## Drafts -/

end Bindery

theorem Registry.mem_topicIds {r : Registry} {id : Int} : id ∈ r.topicIds ↔ ∃ e ∈ r.entries, e.ref.topicId = id := by
  suffices h : ∀ (es : List TopicEntry) (ids : List Int),
      id ∈ es.foldl (fun ids e => if ids.contains e.ref.topicId then ids else ids ++ [e.ref.topicId]) ids
        ↔ id ∈ ids ∨ ∃ e ∈ es, e.ref.topicId = id by
    unfold topicIds
    rw [h]
    simp
  intro es
  induction es with
  | nil => simp
  | cons e es ih =>
    intro ids
    rw [List.foldl_cons, ih]
    split
    · rename_i hin
      have hmem : e.ref.topicId ∈ ids := by simpa using hin
      constructor
      · rintro (h | ⟨x, hx, rfl⟩)
        · exact .inl h
        · exact .inr ⟨x, List.mem_cons_of_mem _ hx, rfl⟩
      · rintro (h | ⟨x, hx, rfl⟩)
        · exact .inl h
        · rcases List.mem_cons.1 hx with rfl | hx
          · exact .inl hmem
          · exact .inr ⟨x, hx, rfl⟩
    · simp [or_assoc, eq_comm]

namespace Bindery

variable {b : Bindery σ} {spec : ContentSpec} {settings : Settings} {requester : Option String} {d : Draft}

/-- A draft is the registered outline, with the topics that were fetched for its ids. -/
theorem exists_fetch_of_draft (h : (b.draft spec settings requester).Gives s d s') :
    d.outline = (({} : Registry).register spec.root).1 ∧ d.registry = (({} : Registry).register spec.root).2 ∧
      (b.fetch settings d.registry.topicIds (localeOf spec settings)).Gives s (d.topics, d.stable) s' := by
  obtain ⟨topics, stable, rfl, hfetch⟩ := eq_of_draft h
  exact ⟨rfl, rfl, hfetch⟩

/-- **A draft has a topic for every reference.** -/
theorem covers_draft (hplain : b.Untranslated s) (h : (b.draft spec settings requester).Gives s d s') :
    ∀ e ∈ d.registry.entries, ∃ t ∈ d.topics, t.sourceId = e.ref.topicId := by
  intro e he
  obtain ⟨-, -, hfetch⟩ := exists_fetch_of_draft h
  exact exists_of_forall₂_left (forall₂_fetch hplain hfetch) (Registry.mem_topicIds.2 ⟨e, he, rfl⟩)

end Bindery
end Bookbinder
