import Bookbinder.Proofs.LinkIds
import Bookbinder.Proofs.RegisteredOutlines
/-!
# Link ids without stable addresses

Where addresses are not stable, a reference is linked to by its topic's id, with the number of its repeat behind it, and
a level by its kind and its step.  A topic's id may begin with the dash that sets repeats off, but holds no other; so
the link ids of references tell topics and repeats apart, those of levels tell steps, and the two begin with different
letters (`unstableLinkIds_nodup`).
-/
namespace Bookbinder

/-! ## References -/

theorem Topic.linkId_unstable (t : Topic) : t.linkId false = t.xrefId := by
  unfold Topic.linkId
  cases t.address? <;> rfl

/-- A reference's own topic has the link id that stands in for a topic nobody fetched. -/
theorem TopicEntry.linkId_unstable {e : TopicEntry} (h : ∀ t ∈ e.topic, t.sourceId = e.ref.topicId) :
    e.linkId false = withDuplicate ("TopicID" ++ toString e.ref.topicId) e.ref.duplicate := by
  unfold TopicEntry.linkId
  cases ht : e.topic with
  | none => rfl
  | some t =>
    change withDuplicate (t.linkId false) _ = _
    rw [t.linkId_unstable, Topic.xrefId, h t ht]

theorem topicName_inj {a b : Int} : "TopicID" ++ toString a = "TopicID" ++ toString b ↔ a = b :=
  (String.append_right_inj _).trans toString_int_injective.eq_iff

theorem topicName_ne_numbered (a b : Int) (n : Nat) :
    "TopicID" ++ toString a ≠ numbered ("TopicID" ++ toString b) n := by
  have hn : numbered ("TopicID" ++ toString b) n = "TopicID" ++ numbered (toString b) n := by
    simp only [numbered, String.append_assoc]
  rw [hn]
  exact fun h => toString_int_ne_numbered a b n ((String.append_right_inj _).1 h)

/-! ## Levels -/

/-- The link id of a level tells its step. -/
theorem Heading.step_eq_of_linkId_eq {h h' : Heading} (he : h.linkId false = h'.linkId false) : h.step = h'.step := by
  have hl (h : Heading) : (h.linkId false).toList = (h.kind.name.toList ++ ['I']) ++ 'D' :: Nat.toDigits 10 h.step := by
    simp [Heading.linkId]
  have hlists := congrArg String.toList he
  rw [hl, hl] at hlists
  have hdigits := (append_cons_inj_of_notMem_right (notMem_digits (by decide) _) (notMem_digits (by decide) _) hlists).2
  exact toString_nat_injective (String.toList_inj.1 (by simpa using hdigits))

/-- No level's link id begins as those of references do. -/
theorem Heading.linkId_ne_topicName (h : Heading) (s : String) (n : Option Nat) :
    h.linkId false ≠ withDuplicate ("TopicID" ++ s) n := by
  have hreference : (withDuplicate ("TopicID" ++ s) n).toList.head? = some 'T' := by
    cases n <;> simp [numbered]
  have hlevel : (h.linkId false).toList.head? = h.kind.name.toList.head? := by
    cases hk : h.kind <;> simp [Heading.linkId, LevelKind.name, hk]
  have hname : h.kind.name.toList.head? ≠ some 'T' := by
    cases h.kind <;> decide
  exact fun he => hname (by rw [← hlevel, he, hreference])

/-! ## Registered outlines -/

namespace Registry

/-- The registry of outlines, with the topics that are fetched for the references at some steps. -/
def ofOutlines (ls : List Level) (fetched : Nat → Option Topic) : Registry :=
  let r := (({} : Registry).registerAll ls).2
  { r with entries := r.entries.map fun e => { e with topic := fetched e.ref.step } }

variable {ls : List Level} {fetched : Nat → Option Topic}

theorem references_distinct
    (h : ∀ e ∈ (ofOutlines ls fetched).entries, ∀ t ∈ e.topic, t.sourceId = e.ref.topicId) :
    (ofOutlines ls fetched).entries.Pairwise fun e e' => e.linkId false ≠ e'.linkId false := by
  have hrepeats : (ofOutlines ls fetched).entries.Pairwise fun e e' =>
      e.ref.topicId = e'.ref.topicId → e.ref.duplicate ≠ e'.ref.duplicate :=
    List.pairwise_map.2 (numbered_entries_registerAll ls).pairwise
  have hbase : ∀ e ∈ (ofOutlines ls fetched).entries, ∀ e' ∈ (ofOutlines ls fetched).entries,
      "TopicID" ++ toString e.ref.topicId = "TopicID" ++ toString e'.ref.topicId → e.ref.topicId = e'.ref.topicId :=
    fun _ _ _ _ => topicName_inj.1
  have hdistinct := (pairwise_withDuplicate_iff hrepeats hbase).2 fun e _ e' _ _ n _ =>
    topicName_ne_numbered e.ref.topicId e'.ref.topicId n
  refine hdistinct.imp_of_mem fun {e e'} he he' hne => ?_
  rwa [TopicEntry.linkId_unstable (h e he), TopicEntry.linkId_unstable (h e' he')]

theorem levels_distinct (ls : List Level) (fetched : Nat → Option Topic) :
    (ofOutlines ls fetched).levels.Pairwise fun l l' => l.linkId false ≠ l'.linkId false := by
  have hsteps := (holds_registerAll ls).steps_lt.sublist (holds_registerAll ls).levelSteps_sublist
  exact (List.pairwise_map.1 hsteps).imp fun hlt he => Nat.ne_of_lt hlt (Heading.step_eq_of_linkId_eq he)

/-- **Without stable addresses all link ids are different.**  However outlines are registered in one registry, and
whichever references have their topics fetched, no two references have one link id, no two levels, and no reference that
of a level. -/
theorem unstableLinkIds_nodup (ls : List Level) (fetched : Nat → Option Topic)
    (h : ∀ e ∈ (ofOutlines ls fetched).entries, ∀ t ∈ e.topic, t.sourceId = e.ref.topicId) :
    ((ofOutlines ls fetched).entries.map (·.linkId false) ++
      (ofOutlines ls fetched).levels.map (·.linkId false)).Nodup := by
  refine List.nodup_append.2 ⟨List.pairwise_map.2 (references_distinct h),
    List.pairwise_map.2 (levels_distinct ls fetched), ?_⟩
  intro id hid id' hid' hsame
  obtain ⟨e, he, rfl⟩ := List.mem_map.1 hid
  obtain ⟨l, -, rfl⟩ := List.mem_map.1 hid'
  rw [TopicEntry.linkId_unstable (h e he)] at hsame
  exact l.heading.linkId_ne_topicName _ _ hsame.symm

/-- Two books in which the topics 5 and -5 are referred to twice each, under one title. -/
def signedBooks : List Level :=
  [⟨{ kind := .base, title := "Book" }, [
      .level { kind := .chapter, title := "A" } [.topic (.ofTopic (-5) "A"), .topic (.ofTopic 5 "A")]]⟩,
    ⟨{ kind := .base, title := "Book" }, [
      .level { kind := .part, title := "A" } [.topic (.ofTopic 5 "A"), .topic (.ofTopic (-5) "A")]]⟩]

/-- The topics that are fetched for the references of the first book. -/
def signedTopics (step : Nat) : Option Topic :=
  if step = 3 then some (.ofText (-5) "A" "") else if step = 4 then some (.ofText 5 "A" "") else none

/-- Signs and repeats are not mistaken for each other. -/
theorem unstableLinkIds_nodup_of_signs :
    ((ofOutlines signedBooks signedTopics).entries.map (·.linkId false)
      = ["TopicID-5", "TopicID5", "TopicID5-1", "TopicID-5-1"] ∧
    (ofOutlines signedBooks signedTopics).levels.map (·.linkId false)
      = ["BaseID1", "ChapterID2", "BaseID5", "PartID6"]) ∧
    ((ofOutlines signedBooks signedTopics).entries.map (·.linkId false)
      ++ (ofOutlines signedBooks signedTopics).levels.map (·.linkId false)).Nodup :=
  ⟨by decide +kernel, unstableLinkIds_nodup signedBooks signedTopics (by decide +kernel)⟩

end Registry
end Bookbinder
