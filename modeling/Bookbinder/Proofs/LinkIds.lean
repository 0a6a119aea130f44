import Bookbinder.Address
import Bookbinder.Proofs.NumberedNames
import Bookbinder.Proofs.Registration
/-!
# Which link ids are unique

With stable addresses a link id is a base and, from the second repeat on, a dash and a number.  Two repeats of one base
have different numbers, and numbers can be told from their bases; so link ids clash exactly where one that carries no
number looks like another one that does (`linkIds_distinct_iff`).  That can happen (`linkIds_clash`).
-/
namespace Bookbinder

/-! ## Numbers behind bases -/

section Bases

variable {α κ : Type} {key : α → κ} {base : α → String} {number : α → Option Nat} {xs : List α}

/-- **Numbered link ids clash only with link ids that carry no number.** -/
theorem pairwise_withDuplicate_iff (h : xs.Pairwise fun x y => key x = key y → number x ≠ number y)
    (hbase : ∀ x ∈ xs, ∀ y ∈ xs, base x = base y → key x = key y) :
    (xs.Pairwise fun x y => withDuplicate (base x) (number x) ≠ withDuplicate (base y) (number y)) ↔
      ∀ x ∈ xs, ∀ y ∈ xs, number x = none → ∀ n ∈ number y, base x ≠ numbered (base y) n := by
  constructor
  · intro hp x hx y hy hxn n hyn he
    rw [Option.mem_def] at hyn
    have hclash : withDuplicate (base x) (number x) = withDuplicate (base y) (number y) := by
      rw [hxn, hyn, withDuplicate_none, withDuplicate_some, he]
    have hxy : x ≠ y := by
      rintro rfl
      rw [hxn] at hyn
      cases hyn
    -- `Pairwise` speaks of the earlier and the later one; the clash may stand in either order.
    have hsymm := hp.imp (S := fun x y => x ≠ y → withDuplicate (base x) (number x) ≠ withDuplicate (base y) (number y))
      fun hne _ => hne
    have := List.Pairwise.forall_of_forall_of_flip (fun x _ hxx => absurd rfl hxx) hsymm
      (hsymm.imp fun hne hyx => (hne (Ne.symm hyx)).symm)
    exact this hx hy hxy hclash
  · intro hn
    -- With two numbers, or with none, alike link ids have alike bases, and so alike keys.
    refine h.imp_of_mem fun {x y} hx hy hxy he => ?_
    cases hxn : number x with
    | none =>
      cases hyn : number y with
      | none =>
        rw [hxn, hyn] at he
        exact hxy (hbase x hx y hy he) (hxn.trans hyn.symm)
      | some n =>
        rw [hxn, hyn] at he
        exact hn x hx y hy hxn n hyn he
    | some m =>
      cases hyn : number y with
      | none =>
        rw [hxn, hyn] at he
        exact hn y hy x hx hyn m hxn he.symm
      | some n =>
        rw [hxn, hyn, withDuplicate_some, withDuplicate_some, numbered_inj] at he
        exact hxy (hbase x hx y hy he.1) (by rw [hxn, hyn, he.2])

end Bases

/-! ## References -/

namespace TopicEntry

/-- The link id of a reference's topic with stable addresses, without the number of the repeat. -/
def baseId (e : TopicEntry) : String :=
  match e.topic with
  | some t => t.linkId true
  | none => "TopicID" ++ toString e.ref.topicId

end TopicEntry

/-! ## Levels -/

namespace LevelKind

theorem length_idPrefix (k : LevelKind) : k.idPrefix.toList.length = 4 := by
  cases k <;> rfl

theorem idPrefix_inj {k k' : LevelKind} (h : k.idPrefix = k'.idPrefix) : k = k' := by
  cases k <;> cases k' <;> first | rfl | exact absurd h (by decide)

end LevelKind

namespace Heading

/-- The link id of a level with stable addresses, without the number of the repeat. -/
def baseId (h : Heading) : String :=
  h.kind.idPrefix ++ "-" ++ Slug.ofTitle h.title

theorem linkId_stable (h : Heading) : h.linkId true = withDuplicate h.baseId h.duplicate := rfl

theorem idPrefix_append_inj {k k' : LevelKind} {s s' : String}
    (h : k.idPrefix ++ "-" ++ s = k'.idPrefix ++ "-" ++ s') : k = k' ∧ s = s' := by
  have hl := congrArg String.toList h
  simp only [String.toList_append, List.append_assoc] at hl
  have hlen : k.idPrefix.toList.length = k'.idPrefix.toList.length := by
    rw [LevelKind.length_idPrefix, LevelKind.length_idPrefix]
  obtain ⟨hk, hs⟩ := List.append_inj hl hlen
  exact ⟨LevelKind.idPrefix_inj (String.toList_inj.1 hk), String.toList_inj.1 (List.append_cancel_left hs)⟩

theorem baseId_inj {h h' : Heading} :
    h.baseId = h'.baseId ↔ h.kind = h'.kind ∧ Slug.ofTitle h.title = Slug.ofTitle h'.title := by
  refine ⟨idPrefix_append_inj, fun ⟨hk, hs⟩ => ?_⟩
  rw [baseId, hk, hs]
  rfl

theorem baseId_eq_numbered {h h' : Heading} {n : Nat} : h.baseId = numbered h'.baseId n ↔
    h.kind = h'.kind ∧ Slug.ofTitle h.title = numbered (Slug.ofTitle h'.title) n := by
  have hn : numbered h'.baseId n = h'.kind.idPrefix ++ "-" ++ numbered (Slug.ofTitle h'.title) n := by
    simp only [numbered, baseId, String.append_assoc]
  rw [hn]
  refine ⟨idPrefix_append_inj, fun h => ?_⟩
  rw [baseId, h.1, h.2]

theorem exists_linkId_eq (h : Heading) : ∃ s, h.linkId true = h.kind.idPrefix ++ "-" ++ s := by
  rw [linkId_stable]
  cases h.duplicate with
  | none => exact ⟨_, rfl⟩
  | some n =>
    refine ⟨numbered (Slug.ofTitle h.title) n, ?_⟩
    simp only [withDuplicate_some, numbered, baseId, String.append_assoc]

theorem kind_eq_of_linkId_eq {h h' : Heading} (he : h.linkId true = h'.linkId true) : h.kind = h'.kind := by
  obtain ⟨s, hs⟩ := exists_linkId_eq h
  obtain ⟨s', hs'⟩ := exists_linkId_eq h'
  rw [hs, hs'] at he
  exact (idPrefix_append_inj he).1

end Heading

/-! ## Outlines -/

namespace Registry

/-- The registry of an outline, with the topics that are fetched for the references at some steps. -/
def ofOutline (root : Level) (fetched : Nat → Option Topic) : Registry :=
  let r := (({} : Registry).register root).2
  { r with entries := r.entries.map fun e => { e with topic := fetched e.ref.step } }

theorem repeats_entries (root : Level) (fetched : Nat → Option Topic) :
    (ofOutline root fetched).entries.Pairwise fun e e' =>
      e.ref.topicId = e'.ref.topicId → e.ref.duplicate ≠ e'.ref.duplicate :=
  List.pairwise_map.2 (numbered_entries root).pairwise

theorem repeats_belowRoot (root : Level) (fetched : Nat → Option Topic) :
    (ofOutline root fetched).belowRoot.Pairwise fun l l' =>
      l.slug = l'.slug → l.heading.duplicate ≠ l'.heading.duplicate :=
  (numbered_levels root).pairwise

theorem kind_belowRoot {r : Registry} {l : LevelEntry} (h : l ∈ r.belowRoot) : l.heading.kind ≠ .base := by
  have := (List.mem_filter.1 h).2
  simpa using this

/-- A root with no other below it is the first level, and all others are below it. -/
theorem levels_register_eq (root : Level) (hroot : root.heading.kind = .base)
    (hbelow : ∀ h ∈ itemsHeadings root.children, h.kind ≠ .base) :
    ∃ l : LevelEntry, l.heading.kind = .base ∧
      (({} : Registry).register root).2.levels = l :: (({} : Registry).register root).2.belowRoot := by
  refine register_induction (P := fun r => ∃ l : LevelEntry, l.heading.kind = .base ∧ r.levels = l :: r.belowRoot)
    (fun _ _ _ h => h) ?_ _ root hbelow ?_
  · rintro r parent h hk ⟨l, hl, hr⟩
    refine ⟨l, hl, ?_⟩
    rw [belowRoot_addHeading, if_neg hk]
    change r.levels ++ [_] = _
    rw [hr]
    rfl
  · refine ⟨⟨(({} : Registry).addHeading none root.heading).1, none⟩, hroot, ?_⟩
    rw [belowRoot_addHeading, if_pos hroot]
    rfl

/-- Link ids of references are unique just where none without a number looks like one with a number. -/
theorem entries_distinct_iff {root : Level} {fetched : Nat → Option Topic}
    (hids : ∀ e ∈ (ofOutline root fetched).entries, ∀ e' ∈ (ofOutline root fetched).entries,
      e.ref.topicId ≠ e'.ref.topicId → e.baseId ≠ e'.baseId) :
    ((ofOutline root fetched).entries.Pairwise fun e e' => e.linkId true ≠ e'.linkId true) ↔
      ∀ e ∈ (ofOutline root fetched).entries, ∀ e' ∈ (ofOutline root fetched).entries,
        e.ref.duplicate = none → ∀ n ∈ e'.ref.duplicate, e.baseId ≠ numbered e'.baseId n :=
  pairwise_withDuplicate_iff (repeats_entries root fetched) fun e he e' he' h =>
    Decidable.byContradiction fun hne => hids e he e' he' hne h

theorem belowRoot_distinct_iff (root : Level) (fetched : Nat → Option Topic) :
    ((ofOutline root fetched).belowRoot.Pairwise fun l l' => l.linkId true ≠ l'.linkId true) ↔
      ∀ l ∈ (ofOutline root fetched).belowRoot, ∀ l' ∈ (ofOutline root fetched).belowRoot,
        l.heading.duplicate = none → ∀ n ∈ l'.heading.duplicate, l.heading.baseId ≠ numbered l'.heading.baseId n :=
  pairwise_withDuplicate_iff (repeats_belowRoot root fetched) fun _ _ _ _ h => (Heading.baseId_inj.1 h).2

/-- Link ids of levels are unique just where no slug without a number looks like one with a number. -/
theorem levels_distinct_iff {root : Level} {fetched : Nat → Option Topic} (hroot : root.heading.kind = .base)
    (hbelow : ∀ h ∈ itemsHeadings root.children, h.kind ≠ .base) :
    ((ofOutline root fetched).levels.Pairwise fun l l' => l.linkId true ≠ l'.linkId true) ↔
      ∀ l ∈ (ofOutline root fetched).levels, ∀ l' ∈ (ofOutline root fetched).levels,
        l.heading.kind = l'.heading.kind → l.heading.duplicate = none →
          ∀ n ∈ l'.heading.duplicate, l.slug ≠ numbered l'.slug n := by
  obtain ⟨b, hb, hlevels⟩ := levels_register_eq root hroot hbelow
  have hall : (ofOutline root fetched).levels = b :: (ofOutline root fetched).belowRoot := hlevels
  have hne {l : LevelEntry} (h : l ∈ (ofOutline root fetched).belowRoot) : b.heading.kind ≠ l.heading.kind :=
    fun he => kind_belowRoot h (he.symm.trans hb)
  rw [hall, List.pairwise_cons, belowRoot_distinct_iff]
  constructor
  · rintro ⟨-, h⟩ l hm l' hm' hk hn n hn' hs
    rcases List.mem_cons.1 hm with rfl | hlow
    · rcases List.mem_cons.1 hm' with rfl | hlow'
      · rw [hn] at hn'
        cases hn'
      · exact hne hlow' hk
    · rcases List.mem_cons.1 hm' with rfl | hlow'
      · exact hne hlow hk.symm
      · exact h l hlow l' hlow' hn n hn' (Heading.baseId_eq_numbered.2 ⟨hk, hs⟩)
  · refine fun h => ⟨fun l hm he => hne hm (Heading.kind_eq_of_linkId_eq he), fun l hm l' hm' hn n hn' he => ?_⟩
    obtain ⟨hk, hs⟩ := Heading.baseId_eq_numbered.1 he
    exact h l (List.mem_cons_of_mem _ hm) l' (List.mem_cons_of_mem _ hm') hk hn n hn' hs

/-- **When link ids with stable addresses are unique.**  In a registered outline with no root below its root, and with
topics of which different ones have different link ids, the link ids of all references differ and those of all levels
differ, if and only if no reference without a repeat number has for its topic's link id that of another reference with
the other's repeat number behind it, and likewise no level has for its slug that of another level of its kind. -/
theorem linkIds_distinct_iff (root : Level) (fetched : Nat → Option Topic) (hroot : root.heading.kind = .base)
    (hbelow : ∀ h ∈ itemsHeadings root.children, h.kind ≠ .base)
    (hids : ∀ e ∈ (ofOutline root fetched).entries, ∀ e' ∈ (ofOutline root fetched).entries,
      e.ref.topicId ≠ e'.ref.topicId → e.baseId ≠ e'.baseId) :
    (((ofOutline root fetched).entries.Pairwise fun e e' => e.linkId true ≠ e'.linkId true) ∧
      ((ofOutline root fetched).levels.Pairwise fun l l' => l.linkId true ≠ l'.linkId true)) ↔
    (∀ e ∈ (ofOutline root fetched).entries, ∀ e' ∈ (ofOutline root fetched).entries,
      e.ref.duplicate = none → ∀ n ∈ e'.ref.duplicate, e.baseId ≠ numbered e'.baseId n) ∧
    ∀ l ∈ (ofOutline root fetched).levels, ∀ l' ∈ (ofOutline root fetched).levels,
      l.heading.kind = l'.heading.kind → l.heading.duplicate = none →
        ∀ n ∈ l'.heading.duplicate, l.slug ≠ numbered l'.slug n :=
  and_congr (entries_distinct_iff hids) (levels_distinct_iff hroot hbelow)

/-! ## Repeated titles -/

/-- A book of three chapters, the first two of one title, with a reference in each; the first two references are to one
topic. -/
def threeChapters (title last : String) : Level where
  heading := { kind := .base, title := "Book" }
  children := [
    .level { kind := .chapter, title } [.topic (.ofTopic 1 title)],
    .level { kind := .chapter, title } [.topic (.ofTopic 1 title)],
    .level { kind := .chapter, title := last } [.topic (.ofTopic 2 last)]]

/-- The topics of such a book, by the steps of the references; their addresses are their titles. -/
def threeTopics (title last : String) (step : Nat) : Topic :=
  if step = 7 then Address.give last (.ofText 2 last "") else Address.give title (.ofText 1 title "")

/-- Repeats as such do no harm. -/
theorem linkIds_distinct_of_repeats :
    ((ofOutline (threeChapters "A" "B") fun step => some (threeTopics "A" "B" step)).entries.Pairwise
      fun e e' => e.linkId true ≠ e'.linkId true) ∧
    ((ofOutline (threeChapters "A" "B") fun step => some (threeTopics "A" "B" step)).levels.Pairwise
      fun l l' => l.linkId true ≠ l'.linkId true) :=
  (linkIds_distinct_iff (threeChapters "A" "B") (fun step => some (threeTopics "A" "B" step)) rfl (by decide +kernel)
    (by decide +kernel)).2 (by decide +kernel)

/-- A title that ends as a repeat does gives the link id of the repeat once more: the topics of the second and the third
chapter share theirs, and so do the two chapters. -/
theorem linkIds_clash :
    (threeChapters "A" "A-1").heading.kind = .base ∧
    (∀ h ∈ itemsHeadings (threeChapters "A" "A-1").children, h.kind ≠ .base) ∧
    (∀ e ∈ (ofOutline (threeChapters "A" "A-1") fun step => some (threeTopics "A" "A-1" step)).entries,
      (threeTopics "A" "A-1" e.ref.step).sourceId = e.ref.topicId) ∧
    (∀ e ∈ (ofOutline (threeChapters "A" "A-1") fun step => some (threeTopics "A" "A-1" step)).entries,
      ∀ e' ∈ (ofOutline (threeChapters "A" "A-1") fun step => some (threeTopics "A" "A-1" step)).entries,
        e.ref.topicId ≠ e'.ref.topicId → e.baseId ≠ e'.baseId) ∧
    (ofOutline (threeChapters "A" "A-1") fun step => some (threeTopics "A" "A-1" step)).entries.map (·.linkId true)
      = ["A", "A-1", "A-1"] ∧
    (ofOutline (threeChapters "A" "A-1") fun step => some (threeTopics "A" "A-1" step)).levels.map (·.linkId true)
      = ["book-Book", "chap-A", "chap-A-1", "chap-A-1"] := by
  decide +kernel

end Registry
end Bookbinder
