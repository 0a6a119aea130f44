import Bookbinder.Proofs.KeptAddresses
/-!
# Batches of updates

What a batch leaves in a store in memory.  Updates are made one after the other, up to one whose topic is missing: a
batch that fails has left all topics as they were if and only if no update before that one moves a property
(`topics_eq_iff_of_fails`).  Copies take the first update of their topic: a batch that is made keeps copies and topics
alike if and only if the later updates of a topic move nothing (`copiesAgree_iff_of_made`).
-/
namespace Bookbinder

namespace MemoryStore

variable {s : MemoryStore} {us : List PropertyUpdate}

/-! ## Updates of one topic -/

/-- Whether an update takes a property from where it stands: a stale one, or the one that it puts last. -/
def drops (u : PropertyUpdate) (p : Property) : Bool :=
  (p.id == u.add.id && u.remove.contains p) || p == u.add

def anyDrops (us : List PropertyUpdate) (p : Property) : Bool :=
  us.any (drops · p)

/-- Properties after updates, made one after the other. -/
def allUpdated (us : List PropertyUpdate) (ps : List Property) : List Property :=
  us.foldl (fun ps u => updateProperties u ps) ps

/-- What updates add, but for the properties that later ones drop. -/
def addsKept : List PropertyUpdate → List Property
  | [] => []
  | u :: us => [u.add].filter (fun p => !anyDrops us p) ++ addsKept us

/-- Properties that updates do not move: those that the updates add are there already, last and in their order, and no
update drops one of the others. -/
def Unmoved (us : List PropertyUpdate) (ps : List Property) : Prop :=
  ∃ rest, ps = rest ++ addsKept us ∧ ∀ p ∈ rest, anyDrops us p = false

theorem updateProperties_eq (u : PropertyUpdate) (ps : List Property) :
    updateProperties u ps = ps.filter (fun p => !drops u p) ++ [u.add] := by
  unfold updateProperties drops
  congr 1
  refine List.filter_congr fun p _ => ?_
  rw [Bool.not_or]
  rfl

theorem allUpdated_eq : ∀ (us : List PropertyUpdate) (ps : List Property),
    allUpdated us ps = ps.filter (fun p => !anyDrops us p) ++ addsKept us
  | [], ps => by simp [allUpdated, anyDrops, addsKept]
  | u :: us, ps => by
    have hfirst : allUpdated (u :: us) ps = allUpdated us (updateProperties u ps) := rfl
    rw [hfirst, allUpdated_eq us, updateProperties_eq, List.filter_append, List.filter_filter, List.append_assoc,
      addsKept]
    congr 1
    refine List.filter_congr fun p _ => ?_
    simp only [anyDrops, List.any_cons, Bool.not_or, Bool.and_comm]

theorem allUpdated_append (us vs : List PropertyUpdate) (ps : List Property) :
    allUpdated (us ++ vs) ps = allUpdated vs (allUpdated us ps) :=
  List.foldl_append

theorem anyDrops_of_mem_addsKept : ∀ {us : List PropertyUpdate} {p : Property}, p ∈ addsKept us → anyDrops us p = true
  | u :: us, p, h => by
    unfold anyDrops
    rw [List.any_cons, Bool.or_eq_true]
    rcases List.mem_append.1 h with hadd | hlater
    · have hp : p = u.add := List.mem_singleton.1 (List.mem_filter.1 hadd).1
      exact .inl (by simp [drops, hp])
    · exact .inr (anyDrops_of_mem_addsKept hlater)

/-- **Updates give back the properties that they do not move, and no others.** -/
theorem allUpdated_eq_self_iff {ps : List Property} : allUpdated us ps = ps ↔ Unmoved us ps := by
  rw [allUpdated_eq]
  constructor
  · intro h
    exact ⟨_, h.symm, fun p hp => by simpa using (List.mem_filter.1 hp).2⟩
  · rintro ⟨rest, rfl, hrest⟩
    -- What the updates add is dropped from where it stood, so that it is not there twice.
    have hadded : (addsKept us).filter (fun p => !anyDrops us p) = [] :=
      List.filter_eq_nil_iff.2 fun p hp => by simp [anyDrops_of_mem_addsKept hp]
    rw [List.filter_append, hadded, List.append_nil, List.filter_eq_self.2 fun p hp => by simp [hrest p hp]]

instance (us : List PropertyUpdate) (ps : List Property) : Decidable (Unmoved us ps) :=
  decidable_of_iff _ allUpdated_eq_self_iff

/-! ## Updates of stored topics -/

def updatesOf (id : Int) (us : List PropertyUpdate) : List PropertyUpdate :=
  us.filter fun u => u.topicId == id

/-- A topic after all updates of its id. -/
def settled (us : List PropertyUpdate) (t : Topic) : Topic :=
  { t with properties := allUpdated (updatesOf t.id us) t.properties }

/-- Whether topics have the one of an update. -/
def isThere (ts : List Topic) (u : PropertyUpdate) : Bool :=
  ts.any fun t => t.id == u.topicId

/-- The updates before the first one whose topic is missing. -/
def reached (us : List PropertyUpdate) (s : MemoryStore) : List PropertyUpdate :=
  us.takeWhile (isThere s.topics)

theorem settled_cons (u : PropertyUpdate) (us : List PropertyUpdate) (t : Topic) :
    settled us (if t.id = u.topicId then updateTopic u t else t) = settled (u :: us) t := by
  unfold settled updatesOf
  split
  · rename_i h
    rw [id_updateTopic, List.filter_cons_of_pos (by simpa using h.symm)]
    rfl
  · rename_i h
    rw [List.filter_cons_of_neg (by simpa using Ne.symm h)]

theorem settled_eq_self_iff {t : Topic} : settled us t = t ↔ Unmoved (updatesOf t.id us) t.properties := by
  rw [← allUpdated_eq_self_iff]
  unfold settled
  constructor
  · exact congrArg Topic.properties
  · intro h
    rw [h]
    cases t
    rfl

theorem map_settled_nil (ts : List Topic) : ts.map (settled []) = ts :=
  List.map_id'' (fun _ => settled_eq_self_iff.2 ⟨_, (List.append_nil _).symm, fun _ _ => rfl⟩) ts

/-- **The updates before the first missing topic are made, and its id is given back.** -/
theorem updateTopics_eq_settled : ∀ (us : List PropertyUpdate) (ts : List Topic), updateTopics us ts =
    (ts.map (settled (us.takeWhile (isThere ts))), (us.find? fun u => !isThere ts u).map (·.topicId))
  | [], ts => by
    rw [updateTopics, List.takeWhile_nil, map_settled_nil]
    rfl
  | u :: us, ts => by
    unfold updateTopics
    rw [show (ts.any fun t => t.id == u.topicId) = isThere ts u from rfl]
    by_cases h : isThere ts u = true
    · have hids : isThere (ts.map fun t => if t.id = u.topicId then updateTopic u t else t) = isThere ts := by
        funext v
        unfold isThere
        rw [List.any_map]
        congr 1
        funext t
        simp only [Function.comp]
        split <;> rfl
      rw [if_pos h, updateTopics_eq_settled us, hids, List.map_map, List.takeWhile_cons_of_pos h,
        List.find?_cons_of_neg (by simp [h])]
      congr 1
      exact List.map_congr_left fun t _ => settled_cons u _ t
    · rw [if_neg h, List.takeWhile_cons_of_neg h, List.find?_cons_of_pos (by simpa using h),
        map_settled_nil]
      rfl

/-- The ways an update goes: the store refuses it, it ends at a missing topic, or it is made as a whole. -/
theorem update_cases (us : List PropertyUpdate) (s : MemoryStore) :
    (0 < s.failingUpdates ∧ (update us s).result = .error (.transient "simulated update failure") ∧
      (update us s).state = { s with updateCalls := s.updateCalls + 1, failingUpdates := s.failingUpdates - 1 }) ∨
    (s.failingUpdates = 0 ∧ (∃ u ∈ us, isThere s.topics u = false ∧
        (update us s).result = .error (.notFound "topic" u.topicId)) ∧
      (update us s).state =
        { s with updateCalls := s.updateCalls + 1, topics := s.topics.map (settled (reached us s)) }) ∨
    (s.failingUpdates = 0 ∧ (∀ u ∈ us, isThere s.topics u = true) ∧ (update us s).result = .ok () ∧
      (update us s).state =
        { s with updateCalls := s.updateCalls + 1, topics := (s.topics.map (settled us)).map (updateCopies us) }) := by
  unfold update
  dsimp only
  by_cases hfailing : 0 < s.failingUpdates
  · rw [if_pos hfailing]
    exact .inl ⟨hfailing, rfl, rfl⟩
  · have hzero : s.failingUpdates = 0 := by omega
    rw [if_neg hfailing, updateTopics_eq_settled]
    cases hmissing : us.find? fun u => !isThere s.topics u with
    | some u =>
      refine .inr (.inl ⟨hzero, ⟨u, List.mem_of_find?_eq_some hmissing, ?_, rfl⟩, rfl⟩)
      simpa using List.find?_some hmissing
    | none =>
      have hall : ∀ u ∈ us, isThere s.topics u = true := by simpa using hmissing
      rw [List.takeWhile_eq_self_iff.2 hall]
      exact .inr (.inr ⟨hzero, hall, rfl, rfl⟩)

/-! ## Copies -/

/-- The copies that topics hold of others. -/
def copiesOf (ts : List Topic) : List Topic :=
  ts.flatMap fun t => t.outgoing ++ t.incoming

/-- All copies in a store: those of its topics, and those of translations. -/
def copies (s : MemoryStore) : List Topic :=
  copiesOf (s.topics ++ s.translations)

theorem copiesOf_append (ts us : List Topic) : copiesOf (ts ++ us) = copiesOf ts ++ copiesOf us :=
  List.flatMap_append

theorem copiesOf_map {f g : Topic → Topic} (h : ∀ t, (f t).outgoing ++ (f t).incoming = (t.outgoing ++ t.incoming).map g)
    (ts : List Topic) : copiesOf (ts.map f) = (copiesOf ts).map g := by
  unfold copiesOf
  rw [List.flatMap_map, List.map_flatMap]
  exact List.flatMap_congr fun t _ => h t

theorem copiesOf_settled (us : List PropertyUpdate) (ts : List Topic) : copiesOf (ts.map (settled us)) = copiesOf ts :=
  (copiesOf_map (f := settled us) (fun _ => (List.map_id _).symm) ts).trans (List.map_id _)

theorem copiesOf_updateCopies (us : List PropertyUpdate) (ts : List Topic) :
    copiesOf (ts.map (updateCopies us)) = (copiesOf ts).map (updateCopy us) :=
  copiesOf_map (fun _ => List.map_append.symm) ts

/-- A copy of a topic of the source language after a batch has the first update of its id. -/
theorem properties_updateCopy {c : Topic} (h : c.translation = none) :
    (updateCopy us c).properties = allUpdated ((updatesOf c.id us).take 1) c.properties := by
  rw [updateCopy_eq h]
  unfold updated updatesOf
  rw [List.take_one, List.head?_filter]
  cases us.find? fun u => u.topicId == c.id <;> rfl

@[simp] theorem translation_updateCopy (us : List PropertyUpdate) (c : Topic) :
    (updateCopy us c).translation = c.translation := by
  unfold updateCopy
  split
  · rfl
  · split <;> rfl

@[simp] theorem id_updateCopy (us : List PropertyUpdate) (c : Topic) : (updateCopy us c).id = c.id := by
  unfold updateCopy
  split
  · rfl
  · split <;> rfl

/-! ## Batches that fail -/

/-- **What a batch that fails leaves.**  Copies and translations stay as they were.  The topics do if the store refuses
the batch, and otherwise exactly if the updates before the first missing topic move no property. -/
theorem topics_eq_iff_of_fails {cause : StoreError} (h : (update us s).result = .error cause) :
    (update us s).state.copies = s.copies ∧ (update us s).state.translations = s.translations ∧
      ((update us s).state.topics = s.topics ↔
        0 < s.failingUpdates ∨ ∀ t ∈ s.topics, Unmoved (updatesOf t.id (reached us s)) t.properties) := by
  rcases update_cases us s with ⟨hfailing, -, hstate⟩ | ⟨hzero, -, hstate⟩ | ⟨-, -, hok, -⟩
  · rw [hstate]
    exact ⟨rfl, rfl, iff_of_true rfl (.inl hfailing)⟩
  · rw [hstate]
    refine ⟨?_, rfl, ?_⟩
    · unfold copies
      rw [copiesOf_append, copiesOf_settled, copiesOf_append]
    · have hmap : s.topics.map (settled (reached us s)) = s.topics ↔ ∀ t ∈ s.topics, settled (reached us s) t = t := by
        conv_lhs => rhs; rw [← List.map_id s.topics]
        exact List.map_inj_left
      refine hmap.trans ?_
      simp only [settled_eq_self_iff, hzero, Nat.lt_irrefl, false_or]
  · rw [hok] at h
    cases h

/-- A topic, and one that holds a copy of it. -/
def pair : MemoryStore where
  topics := [Topic.ofText 1 "A" "", { Topic.ofText 2 "B" "" with outgoing := [Topic.ofText 1 "A" ""] }]

/-- An update that gives a topic an address. -/
def addressUpdate (id : Int) (address : String) : PropertyUpdate :=
  ⟨id, Address.property address, []⟩

/-- A store that refuses a batch has its topics afterwards. -/
theorem topics_eq_of_refused : ∃ cause,
    (update [addressUpdate 1 "A"] { pair with failingUpdates := 1 }).result = .error cause ∧
      (update [addressUpdate 1 "A"] { pair with failingUpdates := 1 }).state.topics = pair.topics :=
  ⟨_, rfl, (topics_eq_iff_of_fails rfl).2.2.2 (.inl (by decide))⟩

/-- An update before one whose topic is missing stays made, though the batch fails. -/
theorem topics_ne_of_missing :
    (update [addressUpdate 1 "A", addressUpdate 3 "C"] pair).result = .error (.notFound "topic" 3) ∧
      (update [addressUpdate 1 "A", addressUpdate 3 "C"] pair).state.topics ≠ pair.topics :=
  ⟨rfl, fun h => absurd (congrArg (List.map Topic.properties) h) (by decide)⟩

/-! ## Batches that are made -/

/-- A store whose copies of topics of the source language have the properties of the topics that it has itself. -/
def CopiesAgree (s : MemoryStore) : Prop :=
  ∀ c ∈ s.copies, c.translation = none → ∀ t ∈ s.topics, t.id = c.id → c.properties = t.properties

instance (s : MemoryStore) : Decidable s.CopiesAgree :=
  inferInstanceAs (Decidable (∀ c ∈ s.copies, c.translation = none → ∀ t ∈ s.topics, t.id = c.id →
    c.properties = t.properties))

/-- A copy that gets some updates of its topic and misses those after them has what the topic has exactly if they move
nothing. -/
theorem agrees_iff_unmoved (hthere : ∀ u ∈ us, isThere s.topics u = true) {c : Topic}
    (hagree : ∀ t ∈ s.topics, t.id = c.id → c.properties = t.properties) {got missed : List PropertyUpdate}
    (hsplit : updatesOf c.id us = got ++ missed) :
    (∀ t ∈ s.topics, t.id = c.id → allUpdated got c.properties = (settled us t).properties) ↔
      Unmoved missed (allUpdated got c.properties) := by
  have hall {t : Topic} (ht : t ∈ s.topics) (hid : t.id = c.id) :
      (settled us t).properties = allUpdated missed (allUpdated got c.properties) := by
    rw [← allUpdated_append, ← hsplit, hagree t ht hid, ← hid]
    rfl
  rw [← allUpdated_eq_self_iff]
  constructor
  · intro h
    by_cases hstored : ∃ t ∈ s.topics, t.id = c.id
    · obtain ⟨t, ht, hid⟩ := hstored
      rw [← hall ht hid, h t ht hid]
    · have hnone : updatesOf c.id us = [] := by
        refine List.filter_eq_nil_iff.2 fun u hu he => hstored ?_
        obtain ⟨t, ht, hid⟩ := List.any_eq_true.1 (hthere u hu)
        exact ⟨t, ht, (beq_iff_eq.1 hid).trans (beq_iff_eq.1 he)⟩
      rw [(List.append_eq_nil_iff.1 (hsplit.symm.trans hnone)).2]
      rfl
  · intro h t ht hid
    rw [hall ht hid, h]

/-- **When copies and topics stay alike.**  After a batch that is made, they do if and only if the updates that copies
do not get move nothing: for copies that topics hold, those after the first one of an id, and for copies that
translations hold, all of them. -/
theorem copiesAgree_iff_of_made (hagree : s.CopiesAgree) (h : (update us s).result = .ok ()) :
    (update us s).state.CopiesAgree ↔
      (∀ c ∈ copiesOf s.topics, c.translation = none →
        Unmoved (updatesOf c.id us).tail (allUpdated ((updatesOf c.id us).take 1) c.properties)) ∧
      ∀ c ∈ copiesOf s.translations, c.translation = none → Unmoved (updatesOf c.id us) c.properties := by
  rcases update_cases us s with ⟨-, hfails, -⟩ | ⟨-, ⟨u, -, -, hfails⟩, -⟩ | ⟨-, hthere, -, hstate⟩
  · rw [hfails] at h
    cases h
  · rw [hfails] at h
    cases h
  have hcopies : copies (update us s).state = (copiesOf s.topics).map (updateCopy us) ++ copiesOf s.translations := by
    rw [hstate]
    unfold copies
    rw [copiesOf_append, copiesOf_updateCopies, copiesOf_settled]
  have hbefore : ∀ c ∈ copiesOf s.topics ++ copiesOf s.translations, c.translation = none →
      ∀ t ∈ s.topics, t.id = c.id → c.properties = t.properties := copiesOf_append _ _ ▸ hagree
  have hafter (c : Topic) (ps : List Property) : (∀ t ∈ (update us s).state.topics, t.id = c.id → ps = t.properties) ↔
      ∀ t ∈ s.topics, t.id = c.id → ps = (settled us t).properties := by
    rw [hstate]
    exact List.forall_mem_map.trans List.forall_mem_map
  unfold CopiesAgree
  rw [hcopies, List.forall_mem_append, List.forall_mem_map]
  refine and_congr (forall₂_congr fun c hc => ?_) (forall₂_congr fun c hc => ?_)
  · rw [translation_updateCopy, id_updateCopy]
    refine forall_congr' fun hplain => ?_
    rw [properties_updateCopy hplain, hafter]
    exact agrees_iff_unmoved hthere (hbefore c (List.mem_append_left _ hc) hplain)
      (by rw [← List.drop_one, List.take_append_drop])
  · refine forall_congr' fun hplain => (hafter c _).trans ?_
    exact agrees_iff_unmoved hthere (hbefore c (List.mem_append_right _ hc) hplain) (List.nil_append _).symm

/-- Copies and topics stay alike if the later update of a topic repeats the first one. -/
theorem copiesAgree_of_repeated :
    pair.CopiesAgree ∧ (update [addressUpdate 1 "A", addressUpdate 1 "A"] pair).result = .ok () ∧
      (update [addressUpdate 1 "A", addressUpdate 1 "A"] pair).state.CopiesAgree :=
  ⟨by decide, rfl, (copiesAgree_iff_of_made (by decide) rfl).2 (by decide)⟩

/-- Of two properties that a batch adds to a topic, a copy gets the first one only. -/
theorem not_copiesAgree_of_two :
    pair.CopiesAgree ∧ (update [addressUpdate 1 "A", addressUpdate 1 "B"] pair).result = .ok () ∧
      ¬ (update [addressUpdate 1 "A", addressUpdate 1 "B"] pair).state.CopiesAgree :=
  ⟨by decide, rfl, by decide⟩

end MemoryStore
end Bookbinder
