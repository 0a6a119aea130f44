import Bookbinder.Proofs.AddressAttempts
import Bookbinder.Proofs.FreeAddresses
/-!
# What assigning addresses changes

The topics that lack an address are given one, and so are the copies of them that topics hold; of all that is given one
only the addresses change (`Readdressed`), and all else stays as it is.  The attempt that succeeds has the store keep
what it gave to topics that the store may know, all in one batch (`assigned_of_gives`).  Copies are not looked into, so
that one within a copy is left as it is (`nested_copy_left`).
-/
namespace Bookbinder
namespace Address

variable {σ : Type}

/-! ## Changed addresses -/

/-- A topic after it was given an address: its properties but for addresses are the same, in their order, and its one
address is in force. -/
structure Readdressed (address : String) (t t' : Topic) : Prop where
  same : t' = { t with properties := t'.properties }
  others : (t'.properties.filter fun p => p.id != PropertyId.address)
    = t.properties.filter fun p => p.id != PropertyId.address
  only : (t'.properties.filter fun p => p.id == PropertyId.address) = [property address]
  inForce : t'.address? = some address

/-- A topic after it was given an address, or as it was if it was given none. -/
def Revised (given : Option String) (t t' : Topic) : Prop :=
  match given with
  | some address => Readdressed address t t'
  | none => t' = t

/-- A topic and the copies that it holds, after addresses were given by id. -/
structure Addressed (given : Int → Option String) (t t' : Topic) : Prop where
  /-- A topic that has an address is left as it is. -/
  left : t.address?.isSome → t'.shallow = t.shallow
  /-- A topic that lacks one is given one. -/
  lacking : t.address? = none → ∃ address ∈ given t.id, Readdressed address t.shallow t'.shallow
  outgoing : List.Forall₂ (fun c => Revised (given c.sourceId) c) t.outgoing t'.outgoing
  incoming : List.Forall₂ (fun c => Revised (given c.sourceId) c) t.incoming t'.incoming

/-- The update that has a store keep the address given to a topic instead of all that it had. -/
def Keeps (given : Int → Option String) (t : Topic) (u : PropertyUpdate) : Prop :=
  u.topicId = t.id ∧ (∃ address ∈ given t.id, u.add = property address) ∧
    u.remove = t.properties.filter fun p => p.id == PropertyId.address

/-- Topics with the addresses given to those that lacked one, and what a store is to keep of them. -/
structure Assigned (topics topics' : List Topic) (given : Int → Option String) (updates : List PropertyUpdate) :
    Prop where
  recipients : ∀ id, (given id).isSome ↔ ∃ t ∈ topics, t.id = id ∧ t.address? = none
  addressed : List.Forall₂ (Addressed given) topics topics'
  kept : List.Forall₂ (Keeps given) (topics.filter fun t => t.address?.isNone && decide (0 ≤ t.id)) updates

theorem readdressed_give {address : String} (h : address ≠ "") (t : Topic) :
    Readdressed address t (give address t) where
  same := rfl
  others := by
    rw [give, List.filter_append, List.filter_filter]
    simp [property]
  only := by
    rw [give, List.filter_append, List.filter_filter]
    simp [property]
  inForce := address?_give h t

/-! ## Grants -/

section Grants

variable {topics : List Topic} {grants : List Grant}

theorem Covers.exists_of_granted? (h : Covers topics grants) {id : Int} {address : String}
    (hgranted : granted? grants id = some address) : ∃ t ∈ topics, t.id = id ∧ t.address? = none ∧ address ≠ "" := by
  obtain ⟨g, hfind, rfl⟩ := Option.map_eq_some_iff.1 hgranted
  have hg : g ∈ grants := List.mem_reverse.1 (List.mem_of_find?_eq_some hfind)
  obtain ⟨hmem, hnone⟩ := h.mem hg
  exact ⟨g.1, hmem, by simpa using List.find?_some hfind, hnone, h.named g hg⟩

theorem Covers.exists_granted? (h : Covers topics grants) (hids : (topics.map (·.id)).Nodup) {t : Topic}
    (ht : t ∈ topics) (hnone : t.address? = none) : ∃ address, granted? grants t.id = some address := by
  have hmem : t ∈ grants.map (·.1) := by
    rw [h.topics]
    exact List.mem_filter.2 ⟨ht, by rw [hnone]; rfl⟩
  obtain ⟨g, hg, rfl⟩ := List.mem_map.1 hmem
  exact ⟨g.2, h.granted?_eq hids hg⟩

/-- **Addresses are given to the ids of the topics that lack one**, and to no others. -/
theorem Covers.isSome_granted?_iff (h : Covers topics grants) (hids : (topics.map (·.id)).Nodup) (id : Int) :
    (granted? grants id).isSome ↔ ∃ t ∈ topics, t.id = id ∧ t.address? = none := by
  rw [Option.isSome_iff_exists]
  constructor
  · rintro ⟨address, hgranted⟩
    obtain ⟨t, ht, hid, hnone, -⟩ := h.exists_of_granted? hgranted
    exact ⟨t, ht, hid, hnone⟩
  · rintro ⟨t, ht, rfl, hnone⟩
    exact h.exists_granted? hids ht hnone

theorem Covers.revised (h : Covers topics grants) (id : Int) (t : Topic) :
    Revised (granted? grants id) t (giveGranted grants id t) := by
  unfold Revised giveGranted
  cases hgranted : granted? grants id with
  | some address =>
    obtain ⟨_, -, -, -, hnamed⟩ := h.exists_of_granted? hgranted
    exact readdressed_give hnamed t
  | none => rfl

/-- **Of a topic and its copies nothing changes but addresses.** -/
theorem Covers.addressed (h : Covers topics grants) (hids : (topics.map (·.id)).Nodup) {t : Topic} (ht : t ∈ topics) :
    Addressed (granted? grants) t (apply grants t) := by
  have hshallow : (apply grants t).shallow = giveGranted grants t.id t.shallow := by
    unfold apply giveGranted
    split <;> rfl
  have hcopies (held : Topic → List Topic) (hheld : held (giveGranted grants t.id t) = held t) :
      List.Forall₂ (fun c => Revised (granted? grants c.sourceId) c) (held t)
        ((held (giveGranted grants t.id t)).map fun c => giveGranted grants c.sourceId c) := by
    rw [hheld, List.forall₂_map_right_iff]
    exact List.forall₂_same.2 fun c _ => h.revised c.sourceId c
  have hown := h.revised t.id t.shallow
  refine ⟨fun hsome => ?_, fun hnone => ?_, hcopies Topic.outgoing ?_, hcopies Topic.incoming ?_⟩
  · rw [h.granted?_eq_none hids ht hsome] at hown
    exact hshallow.trans hown
  · obtain ⟨address, hgranted⟩ := h.exists_granted? hids ht hnone
    rw [hgranted] at hown
    exact ⟨address, hgranted, hshallow ▸ hown⟩
  all_goals
    unfold giveGranted
    split <;> rfl

theorem forall₂_keeps {given : Int → Option String} : ∀ {grants : List Grant},
    (∀ g ∈ grants, given g.1.id = some g.2) →
      List.Forall₂ (Keeps given) ((grants.map (·.1)).filter fun t => decide (0 ≤ t.id)) (grants.filterMap update?)
  | [], _ => .nil
  | (t, address) :: grants, hgiven => by
    have hrest := forall₂_keeps fun g hg => hgiven g (List.mem_cons_of_mem _ hg)
    by_cases hid : 0 ≤ t.id
    · rw [List.map_cons, List.filter_cons_of_pos (by simpa using hid),
        List.filterMap_cons_some (show update? (t, address) = some _ from if_pos hid)]
      exact .cons ⟨rfl, ⟨address, hgiven (t, address) List.mem_cons_self, rfl⟩, rfl⟩ hrest
    · rw [List.map_cons, List.filter_cons_of_neg (by simpa using hid),
        List.filterMap_cons_none (show update? (t, address) = none from if_neg hid)]
      exact hrest

/-- **Addresses that were found are assigned as they are granted.** -/
theorem Covers.assigned (h : Covers topics grants) (hids : (topics.map (·.id)).Nodup) :
    Assigned topics (topics.map (apply grants)) (granted? grants) (grants.filterMap update?) where
  recipients := h.isSome_granted?_iff hids
  addressed := by
    rw [List.forall₂_map_right_iff]
    exact List.forall₂_same.2 fun t ht => h.addressed hids ht
  kept := by
    have hlacking : (topics.filter fun t => t.address?.isNone && decide (0 ≤ t.id))
        = (grants.map (·.1)).filter fun t => decide (0 ≤ t.id) := by
      rw [h.topics, List.filter_filter]
      exact List.filter_congr fun t _ => Bool.and_comm _ _
    rw [hlacking]
    exact forall₂_keeps fun g hg => h.granted?_eq hids hg

end Grants

/-! ## Batches -/

/-- The updates that a call asks for, if it asks for any. -/
def batch? (call : Call) : Option (List PropertyUpdate) :=
  match call.request with
  | .update updates => some updates
  | _ => none

/-- The batches that updates are asked for in: a single one, and none where there is nothing to keep. -/
def inOneBatch (updates : List PropertyUpdate) : List (List PropertyUpdate) :=
  if updates.isEmpty then [] else [updates]

open Press (Watches)

/-- **An attempt that succeeds gives the addresses that it has found, once it has had them kept in one batch.** -/
theorem watches_attempt_batch (store : TopicStore σ) (attempts : Nat) (topics : List Topic) :
    (attempt store.watched attempts topics).Watches (attempt store attempts topics)
      fun _ calls r _ => ∀ topics', r = .ok topics' → ∃ grants, Covers topics grants ∧
        topics' = topics.map (apply grants) ∧ calls.filterMap batch? = inOneBatch (grants.filterMap update?) := by
  have hquiet {calls : List Call} (h : ∀ x ∈ calls, x.request.isUpdate = false) : calls.filterMap batch? = [] := by
    refine List.filterMap_eq_nil_iff.2 fun x hx => ?_
    have hx := h x hx
    unfold batch?
    split
    · rename_i hupdate
      rw [hupdate] at hx
      cases hx
    · rfl
  unfold attempt
  refine (watches_find store attempts topics _).and_run.bind (F := fun grants _ calls r _ => ∀ topics',
    r = .ok topics' → topics' = topics.map (apply grants) ∧
      calls.filterMap batch? = inOneBatch (grants.filterMap update?)) (fun grants => ?_) ?_ ?_
  · dsimp only
    split
    · rename_i hupdates
      have hasked (u : Unit) : (pure (topics.map (apply grants)) : Press (Watched σ) (List Topic)).Watches
          (pure (topics.map (apply grants))) fun _ calls r _ =>
            calls = [] ∧ r = .ok (topics.map (apply grants)) := .pure fun _ => ⟨rfl, rfl⟩
      refine Watches.bind (P := fun _ calls _ _ => calls.filterMap batch? = [grants.filterMap update?])
        (.ask fun _ => rfl) hasked (fun _ _ _ _ _ _ h => by cases h) ?_
      rintro s calls u t more r s' - hcalls ⟨rfl, rfl⟩ topics' h
      cases h
      rw [List.append_nil, hcalls, inOneBatch, if_neg (by simpa using hupdates)]
      exact ⟨rfl, rfl⟩
    · rename_i hnone
      refine .pure fun s topics' h => ?_
      cases h
      rw [inOneBatch, if_pos (by simpa using hnone)]
      exact ⟨rfl, rfl⟩
  · rintro s calls e s' - topics' h
    cases h
  · rintro s calls grants t more r s' - ⟨⟨hcalls, -⟩, hfind⟩ hmore topics' h
    obtain ⟨htopics, hbatch⟩ := hmore topics' h
    have hgives : (find store attempts topics (topics.filterMap Topic.address?)).Gives s grants t := hfind
    refine ⟨grants, covers_of_find hgives, htopics, ?_⟩
    rw [List.filterMap_append, hquiet hcalls, List.nil_append, hbatch]

/-- **Only addresses change, and those that are new are kept in one batch.**  If topics of different ids are assigned
addresses, each topic that lacked one and every copy of such a topic that a topic holds has just that one instead of
all it had, the other topics and copies are left as they are, and the attempt that succeeded has asked the store for
one batch of updates: one for each new address of a topic whose id is not negative. -/
theorem assigned_of_gives {store : TopicStore σ} {attempts retries : Nat} {topics topics' : List Topic}
    {s : Session (Watched σ)} {t : Session σ} (hids : (topics.map (·.id)).Nodup)
    (h : (assign store attempts topics retries).Gives s.inner (some topics') t) :
    ∃ given updates s' n calls, (assign store.watched attempts topics retries).Gives s (some topics') s' ∧
      s'.inner = t ∧ Assigned topics topics' given updates ∧
      n < retries ∧ (∀ k < n, Fails store.watched attempts topics s k) ∧
      s' = sessionAfter store.watched attempts topics (n + 1) s ∧
      s'.store.calls = (sessionAfter store.watched attempts topics n s).store.calls ++ calls ∧
      calls.filterMap batch? = inOneBatch updates := by
  obtain ⟨r, s', -, hrun, hinner, -⟩ := watches_assign store attempts topics retries s
  obtain ⟨rfl, rfl⟩ : r = .ok (some topics') ∧ s'.inner = t := Prod.mk.inj (hinner.symm.trans h)
  have hends : Ends store.watched attempts topics retries s (.ok (some topics')) s' := by
    have hends := ends_assign store.watched attempts topics retries s
    rwa [hrun] at hends
  cases hends with
  | @assigned n _ hn hfails hok =>
    obtain ⟨r, s₁, calls, hattempt, -, hcalls, -, hfound⟩ :=
      watches_attempt_batch store attempts topics (sessionAfter store.watched attempts topics n s)
    rw [hattempt] at hok
    obtain ⟨grants, hcovers, rfl, hbatch⟩ := hfound topics' hok
    have hafter : sessionAfter store.watched attempts topics (n + 1) s = s₁ := by
      rw [sessionAfter_succ, hattempt]
    refine ⟨granted? grants, grants.filterMap update?, _, n, calls, hrun, rfl, hcovers.assigned hids, hn, hfails, rfl,
      ?_, hbatch⟩
    rw [hafter, hcalls]

/-- A topic with stale addresses, one of a negative id, and one that has an address and holds a plain copy and a
translation of the first. -/
def mixedTopics : List Topic :=
  let stale : Topic := { Topic.ofText 1 "A" "<section/>" with properties := [⟨20, "Old", false⟩, ⟨21, "x", true⟩] }
  let translated := { stale with id := 7, translation := some ⟨1, 1, 50, false⟩ }
  let held := { Topic.ofText 3 "C" "<section/>" with properties := [⟨20, "C", true⟩] }
  [stale, .ofText (-2) "B" "<section/>", { held with outgoing := [stale, translated], incoming := [held] }]

/-- A watched store of them that fails to keep their addresses at first. -/
def mixedSession : Session (Watched MemoryStore) where
  store := { inner := { topics := mixedTopics, failingUpdates := 1 } }

/-- The second attempt at such topics gives addresses to two of them and to the copies of one, and has one kept. -/
theorem assigned_mixed : (mixedTopics.map (·.id)).Nodup ∧ ∃ topics' t given updates s' n calls,
    (assign MemoryStore.store 9 mixedTopics 5).Gives mixedSession.inner (some topics') t ∧
      topics'.map (·.properties) = [[⟨21, "x", true⟩, property "A"], [property "B"], [property "C"]] ∧
      topics'.map (·.outgoing.map (·.properties))
        = [[], [], [[⟨21, "x", true⟩, property "A"], [⟨21, "x", true⟩, property "A"]]] ∧
      (assign MemoryStore.store.watched 9 mixedTopics 5).Gives mixedSession (some topics') s' ∧ s'.inner = t ∧
      Assigned mixedTopics topics' given updates ∧ n < 5 ∧
      (∀ k < n, Fails MemoryStore.store.watched 9 mixedTopics mixedSession k) ∧
      s' = sessionAfter MemoryStore.store.watched 9 mixedTopics (n + 1) mixedSession ∧
      s'.store.calls = (sessionAfter MemoryStore.store.watched 9 mixedTopics n mixedSession).store.calls ++ calls ∧
      calls.filterMap batch? = inOneBatch updates := by
  have hids : (mixedTopics.map (·.id)).Nodup := by decide
  have hpasses : (assign MemoryStore.store 9 mixedTopics 5).passes mixedSession.inner (fun topics' _ =>
      topics'.map (fun ts => (ts.map (·.properties), ts.map (·.outgoing.map (·.properties))))
        == some ([[⟨21, "x", true⟩, property "A"], [property "B"], [property "C"]],
          [[], [], [[⟨21, "x", true⟩, property "A"], [⟨21, "x", true⟩, property "A"]]])) = true := by decide +kernel
  obtain ⟨found, t, hassign, hfound⟩ := Press.exists_of_passes hpasses
  obtain ⟨topics', rfl, hproperties⟩ := Option.map_eq_some_iff.1 (beq_iff_eq.1 hfound)
  obtain ⟨hown, hcopies⟩ := Prod.mk.inj hproperties
  obtain ⟨given, updates, s', n, calls, hrest⟩ := assigned_of_gives (s := mixedSession) hids hassign
  exact ⟨hids, topics', t, given, updates, s', n, calls, hassign, hown, hcopies, hrest⟩

/-- A topic with a copy that holds a copy of the topic in turn. -/
def nestedCopies : List Topic :=
  [{ Topic.ofText 1 "A" "<section/>" with
    outgoing := [{ Topic.ofText 2 "B" "<section/>" with outgoing := [.ofText 1 "A" "<section/>"] }] }]

/-- **A copy within a copy is left without the address that its topic is given.** -/
theorem nested_copy_left : (nestedCopies.map (·.id)).Nodup ∧ ∃ topics' s',
    (assign MemoryStore.store 9 nestedCopies 5).Gives ⟨{ topics := nestedCopies }, false⟩ (some topics') s' ∧
      topics'.map (fun t => (t.id, t.properties)) = [(1, [property "A"])] ∧
      ((topics'.flatMap (·.outgoing)).flatMap (·.outgoing)).map (fun c => (c.sourceId, c.properties)) = [(1, [])] := by
  have hpasses : (assign MemoryStore.store 9 nestedCopies 5).passes ⟨{ topics := nestedCopies }, false⟩
      (fun topics' _ => topics'.map (fun ts => (ts.map (fun t => (t.id, t.properties)),
        ((ts.flatMap (·.outgoing)).flatMap (·.outgoing)).map (fun c => (c.sourceId, c.properties))))
          == some ([(1, [property "A"])], [(1, [])])) = true := by decide +kernel
  obtain ⟨found, s', hassign, hfound⟩ := Press.exists_of_passes hpasses
  obtain ⟨topics', rfl, hproperties⟩ := Option.map_eq_some_iff.1 (beq_iff_eq.1 hfound)
  obtain ⟨hown, hnested⟩ := Prod.mk.inj hproperties
  exact ⟨by decide, topics', s', hassign, hown, hnested⟩

end Address
end Bookbinder
