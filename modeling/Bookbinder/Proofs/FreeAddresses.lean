import Bookbinder.Proofs.AlikeRuns
import Bookbinder.Proofs.ContainedPaths
import Bookbinder.Proofs.FreshIds
import Bookbinder.Proofs.KeptAddresses
/-!
# Free addresses

While a store reports the same topics for each address, a topic that lacks an address is given the first of its
candidates that is free, or the last one where none is (`assign_first_free`).  An address that was free is no other
topic's afterwards.
-/
namespace Bookbinder

variable {σ α β : Type} {steady : σ → Prop} {s s' : Session σ}

namespace Press

/-- A run that leaves a steady store steady, and that fails for nothing but being cancelled. -/
def Rests (steady : σ → Prop) (p : Press σ α) : Prop :=
  ∀ s : Session σ, steady s.store →
    steady (p.run.run s).2.store ∧ ∀ e, (p.run.run s).1 = .error e → e = .cancelled

namespace Rests

theorem congruence (steady : σ → Prop) : Congruence (fun _ (p : Press σ _) (_ : Press σ _) => p.Rests steady) where
  pure _ := fun _ hs => ⟨hs, fun _ h => by cases h⟩
  check := by
    intro s hs
    rw [run_check]
    refine ⟨hs, fun e h => ?_⟩
    split at h <;> cases h
    rfl
  bind := by
    intro α β p _ f _ hp hf s hs
    obtain ⟨hstore, hcause⟩ := hp s hs
    cases hrun : p.run.run s with
    | mk r t =>
      rw [hrun] at hstore hcause
      cases r with
      | ok a =>
        have hgives : p.Gives s a t := hrun
        rw [hgives.run_bind]
        exact hf a t hstore
      | error e =>
        rw [run_bind_error hrun f]
        refine ⟨hstore, fun e' he => ?_⟩
        cases he
        exact hcause e rfl

theorem gives {p : Press σ α} (h : p.Rests steady) {a : α} (hrun : p.Gives s a s') (hs : steady s.store) :
    steady s'.store := by
  have hstore := (h s hs).1
  rwa [show p.run.run s = (.ok a, s') from hrun] at hstore

end Rests

end Press

/-- A store that reports the same topics for each address, as long as it has not kept changes of some topics. -/
structure TopicStore.Steady (store : TopicStore σ) (steady : σ → Prop) (ids : List Int)
    (reported : String → List Int) : Prop where
  asked : ∀ st, steady st → ∀ address,
    (store.withProperty PropertyId.address address st).result = .ok (reported address) ∧
      steady (store.withProperty PropertyId.address address st).state
  refused : ∀ st, steady st → ∀ us : List PropertyUpdate, (us.map (·.topicId)).Sublist ids → ∀ e,
    (store.update us st).result = .error e → steady (store.update us st).state

namespace Address

variable {store : TopicStore σ} {reported : String → List Int} {ids : List Int} {used : List String}

/-- An address is taken for a topic if it is used, or if another topic is reported for it. -/
def Taken (reported : String → List Int) (used : List String) (id : Int) (address : String) : Prop :=
  address ∈ used ∨ ∃ i ∈ reported address, i ≠ id

/-- The first of a topic's candidates that is free, or where none is, the last. -/
def FirstFree (reported : String → List Int) (attempts : Nat) (used : List String) (g : Grant) : Prop :=
  ∃ n ≤ attempts, g.2 = candidate (base g.1) n ∧
    (∀ k < n, Taken reported used g.1.id (candidate (base g.1) k)) ∧ (Taken reported used g.1.id g.2 → n = attempts)

/-! ## Finding addresses -/

theorem rests_ask (h : store.Steady steady ids reported) (address : String) :
    (Press.ask (store.withProperty PropertyId.address address)).Rests steady := by
  intro s hs
  obtain ⟨hresult, hstate⟩ := h.asked s.store hs address
  rw [Press.run_ask, hresult]
  exact ⟨hstate, fun e he => by cases he⟩

theorem rests_isTaken (h : store.Steady steady ids reported) (used : List String) (id : Int) (address : String) :
    (isTaken store used id address).Rests steady :=
  alike_isTaken store store (Press.Rests.congruence steady) (rests_ask h) used id address

theorem taken_iff_of_isTaken (h : store.Steady steady ids reported) (hs : steady s.store) {id : Int} {address : String}
    {taken : Bool} (hrun : (isTaken store used id address).Gives s taken s') :
    taken = true ↔ Taken reported used id address := by
  unfold isTaken at hrun
  unfold Taken
  split at hrun
  · rename_i hused
    rw [hrun.pure.1, eq_self, true_iff]
    exact .inl (List.contains_iff_mem.1 hused)
  · rename_i hunused
    obtain ⟨answer, hask, rfl⟩ := hrun.map
    have hanswer := hask.ask.1
    rw [(h.asked s.store hs address).1] at hanswer
    cases hanswer
    rw [List.contains_iff_mem] at hunused
    simp [hunused]

/-- **What is found is the first candidate that is free, or the last one tried.** -/
theorem exists_of_probe (h : store.Steady steady ids reported) {t : Topic} {address : String} :
    ∀ {more number : Nat} {s : Session σ}, steady s.store → (probe store used t number more).Gives s address s' →
      ∃ n, number ≤ n ∧ n ≤ number + more ∧ address = candidate (base t) n ∧
        (∀ k, number ≤ k → k < n → Taken reported used t.id (candidate (base t) k)) ∧
        (Taken reported used t.id address → n = number + more)
  | 0, number, s, hs, hrun => by
    obtain ⟨_, s₁, -, hrun⟩ := hrun.bind
    exact ⟨number, Nat.le_refl _, Nat.le_refl _, hrun.pure.1, fun k hk hlt => by omega, fun _ => rfl⟩
  | more + 1, number, s, hs, hrun => by
    obtain ⟨taken, s₁, htaken, hrun⟩ := hrun.bind
    have hiff := taken_iff_of_isTaken h hs htaken
    cases taken with
    | true =>
      have hs₁ := (rests_isTaken h used t.id _).gives htaken hs
      obtain ⟨n, hle, hmore, he, hbefore, hlast⟩ := exists_of_probe h hs₁ hrun
      refine ⟨n, by omega, by omega, he, fun k hk hlt => ?_, fun htaken => by have := hlast htaken; omega⟩
      by_cases hfirst : k = number
      · rw [hfirst]
        exact hiff.1 rfl
      · exact hbefore k (by omega) hlt
    | false =>
      obtain ⟨rfl, -⟩ := hrun.pure
      refine ⟨number, Nat.le_refl _, by omega, rfl, fun k hk hlt => by omega, fun htaken => ?_⟩
      exact absurd (hiff.2 htaken) Bool.false_ne_true

theorem rests_probe (h : store.Steady steady ids reported) (used : List String) (t : Topic) (more number : Nat) :
    (probe store used t number more).Rests steady :=
  alike_probe store store (Press.Rests.congruence steady) (rests_ask h) used t more number

theorem rests_find (h : store.Steady steady ids reported) (attempts : Nat) (ts : List Topic) (used : List String) :
    (find store attempts ts used).Rests steady :=
  alike_find store store (Press.Rests.congruence steady) (rests_ask h) attempts ts used

theorem FirstFree.congr {attempts : Nat} {used' : List String} {g : Grant} (h : FirstFree reported attempts used g)
    (hused : ∀ a, a ∈ used ↔ a ∈ used') : FirstFree reported attempts used' g := by
  have htaken (a : String) : Taken reported used g.1.id a ↔ Taken reported used' g.1.id a := or_congr_left (hused a)
  obtain ⟨n, hle, he, hbefore, hlast⟩ := h
  exact ⟨n, hle, he, fun k hk => (htaken _).1 (hbefore k hk), fun hg => hlast ((htaken _).2 hg)⟩

/-- **Each address that is found is free** of those in use and of those found before. -/
theorem firstFree_of_find (h : store.Steady steady ids reported) {attempts : Nat} : ∀ {ts : List Topic}
    {used : List String} {grants : List Grant} {s : Session σ}, steady s.store →
    (find store attempts ts used).Gives s grants s' → ∀ before g after, grants = before ++ g :: after →
      FirstFree reported attempts (before.map (·.2) ++ used) g
  | [], _, _, _, _, hrun => by
    obtain ⟨rfl, -⟩ := hrun.pure
    intro before g after he
    simp at he
  | t :: ts, used, grants, s, hs, hrun => by
    rcases cases_find hrun with ⟨-, hrun⟩ | ⟨-, address, s₁, rest, hprobe, hrest, rfl⟩
    · exact firstFree_of_find h hs hrun
    · have hfree := firstFree_of_find h ((rests_probe h used t attempts 0).gives hprobe hs) hrest
      obtain ⟨n, -, hle, he, hbefore, hlast⟩ := exists_of_probe h hs hprobe
      rw [Nat.zero_add] at hle hlast
      intro before g after hsplit
      rcases List.cons_eq_append_iff.1 hsplit with ⟨rfl, hfirst⟩ | ⟨before, rfl, hrest⟩
      · cases hfirst
        exact ⟨n, hle, he, fun k hk => hbefore k (Nat.zero_le k) hk, hlast⟩
      · -- What was found first is now both in use and found before: which of the two does not matter.
        refine (hfree before g after hrest).congr fun a => ?_
        simp [or_left_comm]

/-! ## Granting addresses -/

section Granting

variable {topics topics' : List Topic} {grants : List Grant} {attempts : Nat}

theorem address?_give {address : String} (h : address ≠ "") (t : Topic) : (give address t).address? = some address := by
  obtain ⟨a, ha⟩ := Option.isSome_iff_exists.1 (isSome_address?_give h t)
  rw [ha, eq_of_mem_address?_give ha]

theorem Covers.granted?_eq (h : Covers topics grants) (hids : (topics.map (·.id)).Nodup) {g : Grant} (hg : g ∈ grants) :
    granted? grants g.1.id = some g.2 := by
  have hreverse : (grants.reverse.map fun g => g.1.id).Nodup := by
    rw [List.map_reverse]
    exact List.nodup_reverse.2 (hids.sublist h.sublist_ids)
  have hfind : (grants.reverse.find? fun x => x.1.id == g.1.id) = some g :=
    (find?_eq_some_iff_of_nodup (fun g : Grant => g.1.id) hreverse).2 ⟨List.mem_reverse.2 hg, rfl⟩
  rw [granted?, hfind, Option.map_some]

theorem Covers.granted?_eq_none (h : Covers topics grants) (hids : (topics.map (·.id)).Nodup) {t : Topic}
    (ht : t ∈ topics) (haddress : t.address?.isSome) : granted? grants t.id = none := by
  refine Option.map_eq_none_iff.2 (List.find?_eq_none.2 fun g hg hid => ?_)
  obtain ⟨hmem, hnone⟩ := h.mem (List.mem_reverse.1 hg)
  rw [← List.inj_on_of_nodup_map hids hmem ht (by simpa using hid), hnone] at haddress
  cases haddress

theorem Covers.address?_granted (h : Covers topics grants) (hids : (topics.map (·.id)).Nodup) {g : Grant}
    (hg : g ∈ grants) : (apply grants g.1).address? = some g.2 := by
  have hgranted : giveGranted grants g.1.id g.1 = give g.2 g.1 := by
    rw [giveGranted, h.granted?_eq hids hg]
  show (giveGranted grants g.1.id g.1).address? = some g.2
  rw [hgranted]
  exact address?_give (h.named g hg) g.1

theorem Covers.address?_left (h : Covers topics grants) (hids : (topics.map (·.id)).Nodup) {t : Topic} (ht : t ∈ topics)
    (haddress : t.address?.isSome) : (apply grants t).address? = t.address? := by
  have hleft : giveGranted grants t.id t = t := by
    rw [giveGranted, h.granted?_eq_none hids ht haddress]
  show (giveGranted grants t.id t).address? = t.address?
  rw [hleft]

/-- Topics with the addresses granted to those that lacked one: in order, each the first that was free. -/
structure Granted (reported : String → List Int) (attempts : Nat) (topics : List Topic) (grants : List Grant) :
    Prop where
  lacking : grants.map (·.1) = topics.filter fun t => t.address?.isNone
  firstFree : ∀ before g after, grants = before ++ g :: after →
    FirstFree reported attempts (before.map (·.2) ++ topics.filterMap Topic.address?) g
  granted : ∀ g ∈ grants, (apply grants g.1).address? = some g.2
  left : ∀ t ∈ topics, t.address?.isSome → (apply grants t).address? = t.address?

/-- Every grant had a candidate that was free. -/
def HasFree (reported : String → List Int) (attempts : Nat) (topics : List Topic) (grants : List Grant) : Prop :=
  ∀ before g after, grants = before ++ g :: after → ∃ n ≤ attempts,
    ¬ Taken reported (before.map (·.2) ++ topics.filterMap Topic.address?) g.1.id (candidate (base g.1) n)

theorem FirstFree.not_taken {g : Grant} (h : FirstFree reported attempts used g)
    (hfree : ∃ n ≤ attempts, ¬ Taken reported used g.1.id (candidate (base g.1) n)) :
    ¬ Taken reported used g.1.id g.2 := by
  intro htaken
  obtain ⟨n, hle, he, hbefore, hlast⟩ := h
  obtain ⟨k, hk, hfree⟩ := hfree
  -- A candidate that is taken is the last one, and then all of them are.
  have hn := hlast htaken
  by_cases hlt : k < n
  · exact hfree (hbefore k hlt)
  · have hkn : k = n := by omega
    rw [he, ← hkn] at htaken
    exact hfree htaken

theorem Granted.not_taken (h : Granted reported attempts topics grants)
    (hfree : HasFree reported attempts topics grants) {before after : List Grant} {g : Grant}
    (he : grants = before ++ g :: after) :
    ¬ Taken reported (before.map (·.2) ++ topics.filterMap Topic.address?) g.1.id g.2 :=
  (h.firstFree before g after he).not_taken (hfree before g after he)

theorem nodup_of_split {l : List α} (h : ∀ before a after, l = before ++ a :: after → a ∉ before) : l.Nodup := by
  induction l using List.reverseRecOn with
  | nil => exact List.nodup_nil
  | append_singleton l a ih =>
    rw [← List.concat_eq_append, List.nodup_concat]
    refine ⟨h l a [] rfl, ih fun before b after he => h before b (after ++ [a]) ?_⟩
    rw [he, List.append_assoc, List.cons_append]

/-- **Addresses that were free differ from each other.** -/
theorem Granted.nodup (h : Granted reported attempts topics grants)
    (hfree : HasFree reported attempts topics grants) : (grants.map (·.2)).Nodup := by
  refine nodup_of_split fun before a after he hmem => ?_
  obtain ⟨before, rest, rfl, rfl, hrest⟩ := List.map_eq_append_iff.1 he
  obtain ⟨g, after, rfl, rfl, -⟩ := List.map_eq_cons_iff.1 hrest
  exact h.not_taken hfree rfl (.inl (List.mem_append_left _ hmem))

/-- **An address that was free is no other topic's**, neither among those at hand nor in the store. -/
theorem Granted.unique (h : Granted reported attempts topics grants) (hfree : HasFree reported attempts topics grants)
    {g : Grant} (hg : g ∈ grants) :
    (∀ t ∈ topics.map (apply grants), t.address? = some g.2 → t.id = g.1.id) ∧ ∀ i ∈ reported g.2, i = g.1.id := by
  obtain ⟨before, after, he⟩ := List.append_of_mem hg
  have hnot := h.not_taken hfree he
  constructor
  · intro t' ht' haddress
    obtain ⟨t, ht, rfl⟩ := List.mem_map.1 ht'
    rw [id_apply]
    by_cases hold : t.address?.isSome
    · rw [h.left t ht hold] at haddress
      exact absurd (.inl (List.mem_append_right _ (List.mem_filterMap.2 ⟨t, ht, haddress⟩))) hnot
    · have hmem : t ∈ grants.map (·.1) := by
        rw [h.lacking]
        exact List.mem_filter.2 ⟨ht, by simpa using hold⟩
      obtain ⟨g', hg', rfl⟩ := List.mem_map.1 hmem
      rw [h.granted g' hg'] at haddress
      rw [List.inj_on_of_nodup_map (h.nodup hfree) hg' hg (Option.some.inj haddress)]
  · intro i hi
    by_contra hne
    exact hnot (.inr ⟨i, hi, hne⟩)

theorem candidate_injective (b : String) (n k : Nat) (h : candidate b n = candidate b k) : n = k := by
  have hnumber (k : Nat) : b ≠ b ++ toString (k + 1) := by
    intro h
    have hempty : "" = toString (k + 1) := (String.append_right_inj b).1 (String.append_empty.trans h)
    exact Nat.repr_ne_empty hempty.symm
  cases n with
  | zero =>
    cases k with
    | zero => rfl
    | succ k => exact absurd h (hnumber k)
  | succ n =>
    cases k with
    | zero => exact absurd h.symm (hnumber n)
    | succ k => exact toString_nat_injective ((String.append_right_inj b).1 h)

/-- **Where the store reports no more addresses than those at hand, there is a free one for each topic**, as long as so
many numbers are tried as there are topics. -/
theorem Granted.hasFree (h : Granted reported attempts topics grants)
    (hreported : ∀ address i, i ∈ reported address → address ∈ topics.filterMap Topic.address?)
    (hattempts : topics.length ≤ attempts) : HasFree reported attempts topics grants := by
  intro before g after he
  obtain ⟨n, hn, hunused⟩ := exists_notMem_of_injective (candidate_injective (base g.1))
    (before.map (·.2) ++ topics.filterMap Topic.address?)
  refine ⟨n, ?_, ?_⟩
  · have hlacking := congrArg List.length h.lacking
    rw [List.length_map, he, List.length_append, List.length_cons, ← List.countP_eq_length_filter] at hlacking
    rw [List.length_append, List.length_map, List.length_filterMap_eq_countP] at hn
    have hall := List.length_eq_countP_add_countP (fun t : Topic => t.address?.isSome) (l := topics)
    simp only [Bool.not_eq_true, Option.isSome_eq_false_iff, Bool.decide_eq_true] at hall
    omega
  · rintro (hused | ⟨i, hi, -⟩)
    · exact hunused hused
    · exact hunused (List.mem_append_right _ (hreported _ i hi))

/-! ## Attempts -/

theorem sublist_updates : ∀ grants : List Grant,
    ((grants.filterMap update?).map (·.topicId)).Sublist (grants.map fun g => g.1.id)
  | [] => .slnil
  | (t, address) :: grants => by
    rw [List.filterMap_cons]
    by_cases h : 0 ≤ t.id
    · rw [show update? (t, address) = some _ from if_pos h]
      exact (sublist_updates grants).cons_cons _
    · rw [show update? (t, address) = none from if_neg h]
      exact (sublist_updates grants).cons _

/-- An attempt that succeeds has granted addresses. -/
theorem exists_granted_of_attempt (h : store.Steady steady ids reported) (hids : (topics.map (·.id)).Nodup)
    (hs : steady s.store) (hrun : (attempt store attempts topics).Gives s topics' s') :
    ∃ grants, Granted reported attempts topics grants ∧ topics' = topics.map (apply grants) := by
  obtain ⟨grants, s₁, hfind, rfl⟩ := exists_find_of_attempt hrun
  have hcovers := covers_of_find hfind
  exact ⟨grants, ⟨hcovers.topics, firstFree_of_find h hs hfind, fun g => hcovers.address?_granted hids,
    fun t => hcovers.address?_left hids⟩, rfl⟩

/-- An attempt that the store fails leaves it steady. -/
theorem steady_of_attempt (h : store.Steady steady (topics.map (·.id)) reported) (hs : steady s.store) {e : StoreError}
    (hrun : (attempt store attempts topics).run.run s = (.error (.store e), s')) : steady s'.store := by
  have hrests := rests_find h attempts topics (topics.filterMap Topic.address?) s hs
  unfold attempt at hrun
  cases hfind : (find store attempts topics (topics.filterMap Topic.address?)).run.run s with
  | mk r t =>
    rw [hfind] at hrests
    cases r with
    | error cause =>
      -- Whether an address is taken is always answered, so only the update can be to blame.
      rw [Press.run_bind_error hfind] at hrun
      cases hrun
      cases hrests.2 _ rfl
    | ok grants =>
      have hgives : (find store attempts topics (topics.filterMap Topic.address?)).Gives s grants t := hfind
      have hsub := (sublist_updates grants).trans (covers_of_find hgives).sublist_ids
      rw [hgives.run_bind] at hrun
      dsimp only at hrun
      split at hrun
      · have hask := Press.run_ask (store.update (grants.filterMap update?)) t
        cases hresult : (store.update (grants.filterMap update?) t.store).result with
        | ok u =>
          rw [hresult] at hask
          have hasked : (Press.ask (store.update (grants.filterMap update?))).Gives t u _ := hask
          rw [hasked.run_bind] at hrun
          cases hrun
        | error cause =>
          rw [hresult] at hask
          rw [Press.run_bind_error hask] at hrun
          cases hrun
          exact h.refused t.store hrests.1 _ hsub e hresult
      · cases hrun

/-- **Each topic that lacked an address is assigned the first of its candidates that is free**, and where there was one
for each, no other topic has it. -/
theorem assign_first_free (hids : (topics.map (·.id)).Nodup)
    (hsteady : store.Steady steady (topics.map (·.id)) reported) : ∀ {retries : Nat} {s : Session σ}, steady s.store →
    (assign store attempts topics retries).Gives s (some topics') s' →
    ∃ grants, Granted reported attempts topics grants ∧ topics' = topics.map (apply grants) ∧
      (HasFree reported attempts topics grants → (grants.map (·.2)).Nodup ∧ ∀ g ∈ grants,
        (∀ t ∈ topics', t.address? = some g.2 → t.id = g.1.id) ∧ ∀ i ∈ reported g.2, i = g.1.id)
  | 0, _, _, h => by cases h.pure.1
  | retries + 1, s, hs, h => by
    unfold assign at h
    obtain ⟨_, s₁, hcheck, h⟩ := h.bind
    cases hcheck.check
    obtain ⟨found, s₂, hattempt, h⟩ := h.bind
    cases found with
    | none =>
      obtain ⟨e, hfails⟩ := hattempt.exists_of_unlessStoreFails
      exact assign_first_free hids hsteady (steady_of_attempt hsteady hs hfails) h
    | some ts =>
      cases h.pure.1
      obtain ⟨grants, hgranted, rfl⟩ := exists_granted_of_attempt hsteady hids hs hattempt.unlessStoreFails
      exact ⟨grants, hgranted, rfl, fun hfree => ⟨hgranted.nodup hfree, fun g => hgranted.unique hfree⟩⟩

/-- The ids of the topics that a store in memory reports for an address. -/
def holders (st : MemoryStore) (address : String) : List Int :=
  (st.topics.filter fun t => t.properties.any fun p => p.id == PropertyId.address && p.value == address).map (·.id)

/-- A store in memory reports the same topics while it refuses updates of topics that it has. -/
theorem steady_memory (st : MemoryStore) (hids : ids.Nodup) (hthere : ∀ id ∈ ids, ∃ t ∈ st.topics, t.id = id) :
    MemoryStore.store.Steady (fun st' => st'.topics = st.topics) ids (holders st) where
  asked := by
    intro st' hst address
    unfold holders
    rw [← hst]
    exact ⟨rfl, rfl⟩
  refused := by
    intro st' hst us hsub e hfails
    have hknown : ∀ u ∈ us, ∃ t ∈ st'.topics, t.id = u.topicId := by
      intro u hu
      rw [hst]
      exact hthere _ (hsub.subset (List.mem_map_of_mem hu))
    change (MemoryStore.update us st').result = .error e at hfails
    show (MemoryStore.update us st').state.topics = st.topics
    rcases MemoryStore.update_eq (hids.sublist hsub) hknown with ⟨cause, st'', hrefused, htopics⟩ | hkept
    · rw [hrefused]
      exact htopics.trans hst
    · rw [hkept] at hfails
      cases hfails

/-- Topics whose titles begin with each other's. -/
def likeTitles : List Topic :=
  [.ofText 1 "A" "<section/>", .ofText 2 "A" "<section/>", .ofText 3 "A1" "<section/>"]

/-- A store of them that fails to keep their addresses at first. -/
def likeSession : Session MemoryStore where
  store := { topics := likeTitles, failingUpdates := 1 }

/-- The addresses of topics with like titles all differ. -/
theorem assign_first_free_of_like : (likeTitles.map (·.id)).Nodup ∧ ∃ topics' s' grants,
    MemoryStore.store.Steady (fun st => st.topics = likeSession.store.topics) (likeTitles.map (·.id))
      (holders likeSession.store) ∧
    (assign MemoryStore.store 9 likeTitles 2).Gives likeSession (some topics') s' ∧
    topics'.map Topic.address? = [some "A", some "A1", some "A11"] ∧
    Granted (holders likeSession.store) 9 likeTitles grants ∧ HasFree (holders likeSession.store) 9 likeTitles grants ∧
    topics' = likeTitles.map (apply grants) ∧ (grants.map (·.2)).Nodup := by
  have hids : (likeTitles.map (·.id)).Nodup := by decide
  have hpasses : (assign MemoryStore.store 9 likeTitles 2).passes likeSession (fun topics' _ =>
      topics'.map (List.map Topic.address?) == some [some "A", some "A1", some "A11"]) = true := by decide +kernel
  obtain ⟨found, s', hassign, hfound⟩ := Press.exists_of_passes hpasses
  obtain ⟨topics', rfl, haddresses⟩ := Option.map_eq_some_iff.1 (beq_iff_eq.1 hfound)
  have hsteady := steady_memory likeSession.store hids fun id hid => List.mem_map.1 hid
  obtain ⟨grants, hgranted, happly, hunique⟩ := assign_first_free hids hsteady rfl hassign
  have hfree : HasFree (holders likeSession.store) 9 likeTitles grants := by
    refine hgranted.hasFree (fun address i hi => ?_) (by decide)
    obtain ⟨t, ht, -⟩ := List.mem_map.1 hi
    obtain ⟨hmem, hproperty⟩ := List.mem_filter.1 ht
    have hnone : ∀ t ∈ likeTitles, t.properties = [] := by decide
    rw [hnone t hmem] at hproperty
    cases hproperty
  exact ⟨hids, topics', s', grants, hsteady, hassign, haddresses, hgranted, hfree, happly, (hunique hfree).1⟩

end Granting

end Address
end Bookbinder
