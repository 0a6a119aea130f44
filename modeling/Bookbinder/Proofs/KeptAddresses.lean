import Bookbinder.Proofs.BuildFailures
/-!
# Addresses that a store keeps

Once addresses are assigned, a store in memory holds the very topics that were given out, and all of them have an
address (`kept_assign`).  Who fetches them again gets the same topics, and there is nothing left to keep
(`fetchTopics_again`).
-/
namespace Bookbinder

/-- Of items with keys of their own, the one with a key is found by it. -/
theorem find?_eq_some_iff_of_nodup {α κ : Type} [DecidableEq κ] (key : α → κ) {xs : List α}
    (hkeys : (xs.map key).Nodup) {k : κ} {x : α} : xs.find? (fun y => key y == k) = some x ↔ x ∈ xs ∧ key x = k := by
  constructor
  · intro h
    exact ⟨List.mem_of_find?_eq_some h, by simpa using List.find?_some h⟩
  · rintro ⟨hx, rfl⟩
    cases h : xs.find? fun y => key y == key x with
    | none => exact absurd (beq_self_eq_true (key x)) (List.find?_eq_none.1 h x hx)
    | some y =>
      have hkey : key y = key x := by simpa using List.find?_some h
      rw [List.inj_on_of_nodup_map hkeys (List.mem_of_find?_eq_some h) hx hkey]

/-! ## Batches of updates -/

namespace MemoryStore

/-- A topic after the first update of its id. -/
def updated (us : List PropertyUpdate) (t : Topic) : Topic :=
  match us.find? fun u => u.topicId == t.id with
  | some u => updateTopic u t
  | none => t

@[simp] theorem id_updateTopic (u : PropertyUpdate) (t : Topic) : (updateTopic u t).id = t.id := rfl

@[simp] theorem id_updated (us : List PropertyUpdate) (t : Topic) : (updated us t).id = t.id := by
  unfold updated
  split <;> rfl

theorem updateCopy_eq {us : List PropertyUpdate} {t : Topic} (h : t.translation = none) :
    updateCopy us t = updated us t := by
  unfold updateCopy Topic.isTranslated
  rw [h]
  rfl

theorem updated_cons (u : PropertyUpdate) {us : List PropertyUpdate} (hu : u.topicId ∉ us.map (·.topicId)) (t : Topic) :
    updated us (if t.id = u.topicId then updateTopic u t else t) = updated (u :: us) t := by
  by_cases h : t.id = u.topicId
  · have hnone : us.find? (fun v => v.topicId == t.id) = none :=
      List.find?_eq_none.2 fun v hv he => hu (List.mem_map.2 ⟨v, hv, by rw [← h]; simpa using he⟩)
    unfold updated
    rw [if_pos h, id_updateTopic, hnone, List.find?_cons_of_pos (by simpa using h.symm)]
  · unfold updated
    rw [if_neg h, List.find?_cons_of_neg (by simpa using Ne.symm h)]

/-- **Updates of different topics, all of them there, are made one for one.** -/
theorem updateTopics_eq : ∀ {us : List PropertyUpdate} {ts : List Topic}, (us.map (·.topicId)).Nodup →
    (∀ u ∈ us, ∃ t ∈ ts, t.id = u.topicId) → updateTopics us ts = (ts.map (updated us), none)
  | [], ts, _, _ => by rw [updateTopics, show updated [] = id from rfl, List.map_id]
  | u :: us, ts, hnodup, hthere => by
    obtain ⟨hu, hus⟩ := List.nodup_cons.1 hnodup
    obtain ⟨t, ht, hid⟩ := hthere u List.mem_cons_self
    have hany : (ts.any fun t => t.id == u.topicId) = true := List.any_eq_true.2 ⟨t, ht, by simpa using hid⟩
    unfold updateTopics
    rw [if_pos hany, updateTopics_eq hus, List.map_map]
    · congr 1
      exact List.map_congr_left fun x _ => updated_cons u hu x
    · intro v hv
      obtain ⟨x, hx, hid⟩ := hthere v (List.mem_cons_of_mem u hv)
      refine ⟨_, List.mem_map_of_mem hx, Eq.trans ?_ hid⟩
      split <;> rfl

/-- A store after updates of its topics and of the copies that they hold. -/
def updatedStore (us : List PropertyUpdate) (s : MemoryStore) : MemoryStore :=
  { s with
    updateCalls := s.updateCalls + 1
    topics := (s.topics.map (updated us)).map (updateCopies us) }

theorem topic?_updatedStore (us : List PropertyUpdate) (s : MemoryStore) (id : Int) :
    (s.updatedStore us).topic? id = (s.topic? id).map fun t => updateCopies us (updated us t) := by
  unfold topic? updatedStore
  rw [List.map_map, List.find?_map]
  congr 2
  funext t
  simp only [Function.comp]
  rw [show (updateCopies us (updated us t)).id = (updated us t).id from rfl, id_updated]

/-- Updates fail without a trace in the topics, or are all made. -/
theorem update_eq {us : List PropertyUpdate} {s : MemoryStore} (hnodup : (us.map (·.topicId)).Nodup)
    (hthere : ∀ u ∈ us, ∃ t ∈ s.topics, t.id = u.topicId) :
    (∃ cause s', update us s = .of (.error cause) s' ∧ s'.topics = s.topics) ∨
      update us s = .of (.ok ()) (s.updatedStore us) := by
  unfold update
  dsimp only
  split
  · exact .inl ⟨_, _, rfl, rfl⟩
  · rw [updateTopics_eq hnodup hthere]
    exact .inr rfl

/-- A store whose topics hold copies only of topics of the source language, with the properties of the topics that it
has itself. -/
def PlainCopies (s : MemoryStore) : Prop :=
  ∀ t ∈ s.topics, ∀ c ∈ t.outgoing ++ t.incoming,
    c.translation = none ∧ ∀ u ∈ s.topic? c.id, c.properties = u.properties

instance (s : MemoryStore) : Decidable s.PlainCopies :=
  inferInstanceAs (Decidable (∀ t ∈ s.topics, ∀ c ∈ t.outgoing ++ t.incoming,
    c.translation = none ∧ ∀ u ∈ s.topic? c.id, c.properties = u.properties))

theorem PlainCopies.of_topics {s s' : MemoryStore} (h : s.PlainCopies) (htopics : s'.topics = s.topics) :
    s'.PlainCopies := by
  intro t ht c hc
  rw [htopics] at ht
  obtain ⟨hplain, hproperties⟩ := h t ht c hc
  refine ⟨hplain, fun u hu => hproperties u ?_⟩
  unfold topic? at hu ⊢
  rwa [htopics] at hu

theorem mem_of_topic? {s : MemoryStore} {id : Int} {t : Topic} (h : s.topic? id = some t) : t ∈ s.topics :=
  List.mem_of_find?_eq_some h

theorem find?_filterMap_topic? {s : MemoryStore} {ids : List Int} {id : Int} {t : Topic} (hid : id ∈ ids)
    (h : s.topic? id = some t) : (ids.filterMap s.topic?).find? (fun u => u.id == id) = some t := by
  cases hfind : (ids.filterMap s.topic?).find? fun u => u.id == id with
  | none =>
    have hmissing := isNone_find?_filterMap (s := s) hid
    rw [hfind, h] at hmissing
    cases hmissing
  | some u =>
    obtain ⟨i, -, hi⟩ := List.mem_filterMap.1 (List.mem_of_find?_eq_some hfind)
    have hu : u.id = id := by simpa using List.find?_some hfind
    rw [← h, ← hu, id_of_topic? hi, hi]

end MemoryStore

/-! ## Grants -/

namespace Address

open MemoryStore (updated updateCopies updateTopic)

theorem base_ne_empty (t : Topic) : base t ≠ "" := by
  unfold base
  dsimp only
  split
  · intro h
    exact absurd (String.append_eq_empty_iff.1 h).1 (by decide)
  · rename_i h
    simpa using h

theorem candidate_ne_empty (t : Topic) (n : Nat) : candidate (base t) n ≠ "" := by
  cases n with
  | zero => exact base_ne_empty t
  | succ n => exact fun h => base_ne_empty t (String.append_eq_empty_iff.1 h).1

/-- Addresses that were found for those of some topics that lack one. -/
structure Covers (topics : List Topic) (grants : List Grant) : Prop where
  topics : grants.map (·.1) = topics.filter fun t => t.address?.isNone
  named : ∀ g ∈ grants, g.2 ≠ ""

/-- **Addresses are found for the topics that lack one**, in order. -/
theorem covers_of_find {σ : Type} {store : TopicStore σ} {attempts : Nat} : ∀ {ts : List Topic} {used : List String}
    {grants : List Grant} {s s' : Session σ}, (find store attempts ts used).Gives s grants s' → Covers ts grants
  | [], _, _, _, _, h => by
    obtain ⟨rfl, -⟩ := h.pure
    exact ⟨rfl, fun _ h => absurd h List.not_mem_nil⟩
  | t :: ts, used, grants, s, s', h => by
    rcases cases_find h with ⟨haddress, h⟩ | ⟨haddress, address, s₁, rest, hprobe, hrest, rfl⟩
    · have hcovers := covers_of_find h
      refine ⟨?_, hcovers.named⟩
      rw [hcovers.topics, List.filter_cons_of_neg (by simpa [Option.isSome_iff_ne_none] using haddress)]
    · have hcovers := covers_of_find hrest
      obtain ⟨n, rfl⟩ := exists_candidate_of_probe hprobe
      refine ⟨?_, List.forall_mem_cons.2 ⟨candidate_ne_empty t n, hcovers.named⟩⟩
      rw [List.map_cons, hcovers.topics, List.filter_cons_of_pos (by simpa using haddress)]

variable {s s' : Session MemoryStore}

theorem gives_isTaken (s : Session MemoryStore) (used : List String) (id : Int) (address : String) :
    ∃ taken, (isTaken MemoryStore.store used id address).Gives s taken s := by
  unfold isTaken
  split
  · exact ⟨true, rfl⟩
  · have hask : (Press.ask (MemoryStore.store.withProperty PropertyId.address address)).Gives s
        ((s.store.topics.filter fun t => t.properties.any fun p => p.id == PropertyId.address && p.value == address).map
          (·.id)) s := Press.gives_ask rfl
    exact ⟨_, hask.andThen rfl⟩

theorem gives_probe (s : Session MemoryStore) (used : List String) (t : Topic) : ∀ more number : Nat,
    ∃ address, (probe MemoryStore.store used t number more).Gives s address s
  | 0, number => by
    obtain ⟨taken, htaken⟩ := gives_isTaken s used t.id (candidate (base t) number)
    exact ⟨_, htaken.andThen rfl⟩
  | more + 1, number => by
    obtain ⟨taken, htaken⟩ := gives_isTaken s used t.id (candidate (base t) number)
    cases taken with
    | true =>
      obtain ⟨address, hrest⟩ := gives_probe s used t more (number + 1)
      exact ⟨address, htaken.andThen hrest⟩
    | false => exact ⟨_, htaken.andThen rfl⟩

/-- **Finding addresses leaves the store as it is.** -/
theorem gives_find (hs : s.cancelled = false) (attempts : Nat) : ∀ (ts : List Topic) (used : List String),
    ∃ grants, (find MemoryStore.store attempts ts used).Gives s grants s
  | [], _ => ⟨[], rfl⟩
  | t :: ts, used => by
    unfold find
    by_cases h : t.address?.isSome
    · obtain ⟨grants, hfind⟩ := gives_find hs attempts ts used
      exact ⟨grants, (Press.gives_check hs).andThen (by rw [if_pos h]; exact hfind)⟩
    · obtain ⟨address, hprobe⟩ := gives_probe s used t attempts 0
      obtain ⟨grants, hfind⟩ := gives_find hs attempts ts (address :: used)
      refine ⟨(t, address) :: grants, (Press.gives_check hs).andThen ?_⟩
      rw [if_neg h]
      exact hprobe.andThen (hfind.andThen rfl)

/-- An update that keeps a grant gives the topic its address, as it does any topic with the same properties. -/
theorem updateTopic_of_grant {t x : Topic} {address : String} (h : x.properties = t.properties) :
    updateTopic ⟨t.id, property address, t.properties.filter fun p => p.id == PropertyId.address⟩ x
      = give address x := by
  unfold MemoryStore.updateTopic MemoryStore.updateProperties give
  rw [h]
  congr 2
  refine List.filter_congr fun p hp => ?_
  by_cases hid : p.id = PropertyId.address
  · have hstale : (t.properties.filter fun p => p.id == PropertyId.address).contains p = true := by
      simpa using ⟨hp, hid⟩
    rw [hstale, hid]
    rfl
  · have hadded : p ≠ property address := fun e => hid (congrArg Property.id e)
    have hother : (p.id == (property address).id) = false := beq_eq_false_iff_ne.2 hid
    rw [hother, bne_iff_ne.2 hadded, bne_iff_ne.2 hid]
    rfl

section Keeping

variable {topics : List Topic} {grants : List Grant}

/-- Topics of ids of their own that a store has under those ids. -/
structure Stored (s : MemoryStore) (topics : List Topic) : Prop where
  ids : (topics.map (·.id)).Nodup
  known : ∀ t ∈ topics, 0 ≤ t.id
  there : ∀ t ∈ topics, s.topic? t.id = some t

theorem Stored.of_topics {s s' : MemoryStore} (h : Stored s topics) (htopics : s'.topics = s.topics) :
    Stored s' topics := by
  refine ⟨h.ids, h.known, fun t ht => ?_⟩
  have hthere := h.there t ht
  unfold MemoryStore.topic? at hthere ⊢
  rwa [htopics]

theorem Covers.mem (h : Covers topics grants) {g : Grant} (hg : g ∈ grants) : g.1 ∈ topics ∧ g.1.address? = none := by
  have hmem : g.1 ∈ topics.filter fun t => t.address?.isNone := by
    rw [← h.topics]
    exact List.mem_map_of_mem hg
  exact ⟨(List.mem_filter.1 hmem).1, by simpa using (List.mem_filter.1 hmem).2⟩

theorem Covers.sublist_ids (h : Covers topics grants) : (grants.map fun g => g.1.id).Sublist (topics.map (·.id)) := by
  have hids : (grants.map fun g => g.1.id) = (grants.map (·.1)).map (·.id) := List.map_map.symm
  rw [hids, h.topics]
  exact List.filter_sublist.map _

/-- What a store is to keep of a grant to a topic that it knows. -/
def updateOf (g : Grant) : PropertyUpdate :=
  ⟨g.1.id, property g.2, g.1.properties.filter fun p => p.id == PropertyId.address⟩

theorem Covers.updates {s : MemoryStore} (h : Covers topics grants) (hstored : Stored s topics) :
    grants.filterMap update? = grants.map updateOf := by
  rw [← List.filterMap_eq_map]
  refine List.filterMap_congr fun g hg => ?_
  have hknown := hstored.known g.1 (h.mem hg).1
  obtain ⟨t, address⟩ := g
  exact if_pos hknown

/-- **What the store makes of a topic is what the build makes of it**: the updates that keep grants give the addresses
that were granted. -/
theorem Covers.updated_eq {s : MemoryStore} (h : Covers topics grants) (hstored : Stored s topics) {x : Topic}
    (hx : ∀ g ∈ grants, g.1.id = x.id → x.properties = g.1.properties) :
    updated (grants.map updateOf) x = giveGranted grants x.id x := by
  have hids := hstored.ids.sublist h.sublist_ids
  have hreverse : (grants.reverse.map fun g => g.1.id).Nodup := by
    rw [List.map_reverse]
    exact List.nodup_reverse.2 hids
  unfold updated giveGranted granted?
  rw [List.find?_map]
  cases hfind : grants.find? fun g => g.1.id == x.id with
  | some g =>
    obtain ⟨hg, hid⟩ := (find?_eq_some_iff_of_nodup (fun g : Grant => g.1.id) hids).1 hfind
    have hlast := (find?_eq_some_iff_of_nodup (fun g : Grant => g.1.id) hreverse).2 ⟨List.mem_reverse.2 hg, hid⟩
    simp only [Function.comp_def, updateOf, hfind, hlast, Option.map_some]
    exact updateTopic_of_grant (hx g hg hid)
  | none =>
    have hlast : grants.reverse.find? (fun g => g.1.id == x.id) = none :=
      List.find?_eq_none.2 fun g hg => List.find?_eq_none.1 hfind g (List.mem_reverse.1 hg)
    simp only [Function.comp_def, updateOf, hfind, hlast, Option.map_none]

theorem Covers.apply_eq {s : MemoryStore} (h : Covers topics grants) (hstored : Stored s topics)
    (hcopies : s.PlainCopies) {t : Topic} (ht : s.topic? t.id = some t) :
    updateCopies (grants.map updateOf) (updated (grants.map updateOf) t) = apply grants t := by
  have hsame {x u : Topic} (hu : s.topic? u.id = some u) (hid : u.id = x.id)
      (hx : ∀ v ∈ s.topic? x.id, x.properties = v.properties) : x.properties = u.properties :=
    hx u (hid ▸ hu)
  have hown : updated (grants.map updateOf) t = giveGranted grants t.id t := by
    refine h.updated_eq hstored fun g hg hid => hsame (hstored.there g.1 (h.mem hg).1) hid fun v hv => ?_
    rw [Option.some.inj (ht.symm.trans hv)]
  have hcopy : ∀ c ∈ t.outgoing ++ t.incoming,
      MemoryStore.updateCopy (grants.map updateOf) c = giveGranted grants c.sourceId c := by
    intro c hc
    obtain ⟨hplain, hproperties⟩ := hcopies t (MemoryStore.mem_of_topic? ht) c hc
    rw [MemoryStore.updateCopy_eq hplain, h.updated_eq hstored fun g hg hid =>
      hsame (hstored.there g.1 (h.mem hg).1) hid hproperties]
    unfold Topic.sourceId
    rw [hplain]
  have hrelated : (giveGranted grants t.id t).outgoing = t.outgoing ∧
      (giveGranted grants t.id t).incoming = t.incoming := by
    unfold giveGranted
    split <;> exact ⟨rfl, rfl⟩
  unfold MemoryStore.updateCopies apply
  dsimp only
  rw [hown, hrelated.1, hrelated.2,
    List.map_congr_left fun c hc => hcopy c (List.mem_append_left _ hc),
    List.map_congr_left fun c hc => hcopy c (List.mem_append_right _ hc)]

theorem id_apply (grants : List Grant) (t : Topic) : (apply grants t).id = t.id :=
  id_giveGranted grants t.id t

theorem map_id_apply (grants : List Grant) (topics : List Topic) :
    (topics.map (apply grants)).map (·.id) = topics.map (·.id) := by
  rw [List.map_map]
  exact List.map_congr_left fun t _ => id_apply grants t

theorem apply_nil (t : Topic) : apply [] t = t := by
  have hgive : (fun c : Topic => giveGranted [] c.sourceId c) = id := rfl
  unfold apply
  dsimp only
  rw [hgive, List.map_id, List.map_id]
  cases t
  rfl

/-- A topic has the address that it is given. -/
theorem isSome_address?_give {address : String} (h : address ≠ "") (t : Topic) :
    (give address t).address?.isSome := by
  have haddress : Topic.isAddress (property address) = true := by
    unfold Topic.isAddress property
    simpa using h
  unfold Topic.address? give
  rw [Option.isSome_map, List.find?_isSome]
  exact ⟨_, List.mem_append_right _ List.mem_cons_self, haddress⟩

/-- **All topics end up with an address.** -/
theorem Covers.isSome_address? (h : Covers topics grants) {t : Topic} (ht : t ∈ topics) : (apply grants t).address?.isSome := by
  have happly : (apply grants t).address? = (giveGranted grants t.id t).address? := rfl
  rw [happly]
  unfold giveGranted granted?
  cases hfind : grants.reverse.find? fun g => g.1.id == t.id with
  | some g =>
    exact isSome_address?_give (h.named g (List.mem_reverse.1 (List.mem_of_find?_eq_some hfind))) t
  | none =>
    by_contra hlacks
    have hmem : t ∈ grants.map (·.1) := by
      rw [h.topics]
      exact List.mem_filter.2 ⟨ht, by simpa using hlacks⟩
    obtain ⟨g, hg, rfl⟩ := List.mem_map.1 hmem
    exact List.find?_eq_none.1 hfind g (List.mem_reverse.2 hg) (beq_self_eq_true _)

end Keeping

/-! ## Assigning addresses -/

/-- Topics as a store has them, all with an address. -/
structure Kept (s : MemoryStore) (topics : List Topic) : Prop extends Stored s topics where
  addressed : ∀ t ∈ topics, t.address?.isSome

theorem Covers.kept {s s' : MemoryStore} {topics : List Topic} {grants : List Grant} (h : Covers topics grants)
    (hstored : Stored s topics)
    (hthere : ∀ t, s.topic? t.id = some t → s'.topic? t.id = some (apply grants t)) :
    Kept s' (topics.map (apply grants)) where
  ids := by
    rw [map_id_apply]
    exact hstored.ids
  known := by
    intro t' ht'
    obtain ⟨t, ht, rfl⟩ := List.mem_map.1 ht'
    rw [id_apply]
    exact hstored.known t ht
  there := by
    intro t' ht'
    obtain ⟨t, ht, rfl⟩ := List.mem_map.1 ht'
    rw [id_apply]
    exact hthere t (hstored.there t ht)
  addressed := by
    intro t' ht'
    obtain ⟨t, ht, rfl⟩ := List.mem_map.1 ht'
    exact h.isSome_address? ht

/-- One attempt keeps all addresses in the store, or fails for the store and leaves the topics as they were. -/
theorem run_attempt (hs : s.cancelled = false) (attempts : Nat) {topics : List Topic} (hstored : Stored s.store topics)
    (hcopies : s.store.PlainCopies) : ∃ t : Session MemoryStore, t.cancelled = false ∧
      ((∃ topics', (attempt MemoryStore.store attempts topics).Gives s topics' t ∧ Kept t.store topics' ∧
          topics'.map (·.id) = topics.map (·.id)) ∨
        ∃ cause, (attempt MemoryStore.store attempts topics).run.run s = (.error (.store cause), t) ∧
          t.store.topics = s.store.topics) := by
  obtain ⟨grants, hfind⟩ := gives_find hs attempts topics (topics.filterMap Topic.address?)
  have hcovers := covers_of_find hfind
  unfold attempt
  dsimp only
  by_cases hnone : grants.filterMap update? = []
  · -- Nothing is asked of the store: no topic lacks an address.
    have hgrants : grants = [] := by
      rw [hcovers.updates hstored] at hnone
      exact List.map_eq_nil_iff.1 hnone
    subst hgrants
    refine ⟨s, hs, .inl ⟨_, hfind.andThen rfl, hcovers.kept hstored fun t ht => ?_, map_id_apply _ _⟩⟩
    rw [apply_nil]
    exact ht
  · have hwrite : (!(grants.filterMap update?).isEmpty) = true := by simpa using hnone
    have hupdates : (grants.map updateOf).map (·.topicId) = grants.map fun g => g.1.id := List.map_map
    have hthere : ∀ u ∈ grants.map updateOf, ∃ t ∈ s.store.topics, t.id = u.topicId := by
      intro u hu
      obtain ⟨g, hg, rfl⟩ := List.mem_map.1 hu
      exact ⟨g.1, MemoryStore.mem_of_topic? (hstored.there g.1 (hcovers.mem hg).1), rfl⟩
    have hreply := Press.run_ask (MemoryStore.store.update (grants.map updateOf)) s
    have hrun := hfind.run_bind (f := fun grants => do
      if !(grants.filterMap update?).isEmpty then Press.ask (MemoryStore.store.update (grants.filterMap update?))
      return topics.map (apply grants))
    rw [if_pos hwrite, hcovers.updates hstored] at hrun
    have hnodup : ((grants.map updateOf).map (·.topicId)).Nodup := hupdates ▸ hstored.ids.sublist hcovers.sublist_ids
    rcases MemoryStore.update_eq hnodup hthere with ⟨cause, store, hfails, htopics⟩ | hok
    · rw [show MemoryStore.store.update (grants.map updateOf) s.store = _ from hfails] at hreply
      refine ⟨_, ?_, .inr ⟨cause, hrun.trans (Press.run_bind_error hreply _), htopics⟩⟩
      rw [hs]
      rfl
    · rw [show MemoryStore.store.update (grants.map updateOf) s.store = _ from hok] at hreply
      have hasked : (Press.ask (MemoryStore.store.update (grants.map updateOf))).Gives s () _ := hreply
      refine ⟨_, ?_, .inl ⟨topics.map (apply grants), hrun.trans hasked.run_bind, hcovers.kept hstored fun t ht => ?_,
        map_id_apply _ _⟩⟩
      · rw [hs]
        rfl
      · refine (MemoryStore.topic?_updatedStore _ _ _).trans ?_
        rw [ht, Option.map_some, hcovers.apply_eq hstored hcopies ht]

/-- **Once addresses are assigned, the store has the topics as they were given out.** -/
theorem kept_assign (attempts : Nat) {topics topics' : List Topic} : ∀ {retries : Nat} {s : Session MemoryStore},
    Stored s.store topics → s.store.PlainCopies →
    (assign MemoryStore.store attempts topics retries).Gives s (some topics') s' →
    s'.cancelled = false ∧ Kept s'.store topics' ∧ topics'.map (·.id) = topics.map (·.id)
  | 0, _, _, _, h => by cases h.pure.1
  | retries + 1, s, hstored, hcopies, h => by
    unfold assign at h
    obtain ⟨_, s₁, hcheck, h⟩ := h.bind
    have hs : s.cancelled = false := hcheck.running
    cases hcheck.check
    obtain ⟨found, s₂, hattempt, h⟩ := h.bind
    obtain ⟨t, ht, ⟨ts, hgives, hkept, hids⟩ | ⟨cause, hfails, htopics⟩⟩ := run_attempt hs attempts hstored hcopies
    · obtain ⟨rfl, rfl⟩ := hattempt.unique hgives.spared
      obtain ⟨he, rfl⟩ := h.pure
      cases he
      exact ⟨ht, hkept, hids⟩
    · obtain ⟨rfl, rfl⟩ := hattempt.unique (.unlessStoreFails_of_fails hfails)
      exact kept_assign attempts (hstored.of_topics htopics) (hcopies.of_topics htopics) h

/-- **Topics with addresses are assigned none, and the store is asked to keep none.** -/
theorem gives_assign_of_kept (hs : s.cancelled = false) (attempts retries : Nat) {topics : List Topic}
    (h : ∀ t ∈ topics, t.address?.isSome) :
    (assign MemoryStore.store attempts topics (retries + 1)).Gives s (some topics) s := by
  obtain ⟨grants, hfind⟩ := gives_find hs attempts topics (topics.filterMap Topic.address?)
  have hcovers := covers_of_find hfind
  have hgrants : grants = [] := by
    refine List.map_eq_nil_iff.1 (hcovers.topics.trans (List.filter_eq_nil_iff.2 fun t ht => ?_))
    simpa [Option.isSome_iff_ne_none] using h t ht
  subst hgrants
  have hattempt : (attempt MemoryStore.store attempts topics).Gives s topics s := by
    have hsame : topics.map (apply []) = topics := by
      rw [List.map_congr_left fun t _ => apply_nil t, List.map_id']
    exact hfind.andThen (by rw [hsame]; rfl)
  unfold assign
  exact (Press.gives_check hs).andThen (hattempt.spared.andThen rfl)

end Address
end Bookbinder
