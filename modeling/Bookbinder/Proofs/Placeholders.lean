import Bookbinder.Store.Memory
import Bookbinder.Translation
import Mathlib.Data.List.Induction
/-!
# Which placeholders are made

The placeholder for a source topic brings along one for each related topic that nothing is known of, and so on.  A step
of that only adds to what is known, never forgets a source that it does not expand, and knows nothing but the topics
that it came across (`Work.Grows`).
-/
namespace Bookbinder

/-- The copies of topics in the source language that a topic holds. -/
def Topic.copies (t : Topic) : List Topic :=
  (t.outgoing ++ t.incoming).filter fun c => !c.isTranslated

theorem Topic.mem_copies {t c : Topic} : c ∈ t.copies ↔ c ∈ t.outgoing ++ t.incoming ∧ c.isTranslated = false := by
  unfold copies
  rw [List.mem_filter, Bool.not_eq_true']

theorem Topic.sourceId_of_not_isTranslated {t : Topic} (h : t.isTranslated = false) : t.sourceId = t.id := by
  unfold isTranslated at h
  unfold sourceId
  rw [Option.isSome_eq_false_iff, Option.isNone_iff_eq_none] at h
  rw [h]

namespace Translation

/-- A topic that is come across when placeholders are made for sources. -/
inductive Met (sources : List Topic) : Topic → Prop
  | source {t : Topic} (h : t ∈ sources) : Met sources t
  | copy {t c : Topic} (h : Met sources t) (hc : c ∈ t.copies) : Met sources c

/-- Where copies hold no copies, nothing but sources and their copies is come across. -/
theorem Met.mem_of_flat {sources : List Topic} (hflat : ∀ s ∈ sources, ∀ c ∈ s.copies, c.copies = []) {t : Topic}
    (h : Met sources t) : t ∈ sources ∨ ∃ s ∈ sources, t ∈ s.copies := by
  induction h with
  | source h => exact .inl h
  | @copy t c _ hc ih =>
    rcases ih with ht | ⟨s, hs, ht⟩
    · exact .inr ⟨t, ht, hc⟩
    · rw [hflat s hs t ht] at hc
      exact absurd hc List.not_mem_nil

namespace Work

/-- The ids of the topics that are translated. -/
def ids (w : Work) : List Int :=
  w.done.map (·.sourceId)

theorem isSome_find?_iff {w : Work} {id : Int} : (w.find? id).isSome ↔ id ∈ w.ids := by
  unfold find? ids
  rw [List.find?_isSome]
  simp

/-- A source has a placeholder, and so has each copy that it holds. -/
structure Expands (w : Work) (s : Topic) : Prop where
  self : s.id ∈ w.ids
  copies : ∀ c ∈ s.copies, c.id ∈ w.ids

/-- What making placeholders does to the work: what is known stays known, and the rest are placeholders, with the same
properties, for topics that were come across. -/
structure Grows (sources : List Topic) (w w' : Work) : Prop where
  done : w.done ⊆ w'.done
  left : w'.sources.Sublist w.sources
  expands : ∀ s ∈ w.sources, s ∈ w'.sources ∨ w'.Expands s
  met : ∀ p ∈ w'.done, p ∈ w.done ∨
    p.isDummy = true ∧ ∃ t, Met sources t ∧ t.id = p.sourceId ∧ t.properties = p.properties

variable {sources : List Topic} {w w' w'' : Work}

theorem Expands.mono {s : Topic} (h : w.Expands s) (hdone : w.done ⊆ w'.done) : w'.Expands s :=
  ⟨List.map_subset _ hdone h.self, fun c hc => List.map_subset _ hdone (h.copies c hc)⟩

theorem Grows.ids (h : Grows sources w w') : w.ids ⊆ w'.ids :=
  List.map_subset _ h.done

theorem Grows.refl (sources : List Topic) (w : Work) : Grows sources w w :=
  ⟨List.Subset.refl _, List.Sublist.refl _, fun _ hs => .inl hs, fun _ hp => .inl hp⟩

theorem Grows.trans (h : Grows sources w w') (h' : Grows sources w' w'') : Grows sources w w'' where
  done := List.Subset.trans h.done h'.done
  left := h'.left.trans h.left
  expands s hs := (h.expands s hs).elim (h'.expands s) fun he => .inr (he.mono h'.done)
  met p hp := (h'.met p hp).elim (h.met p) .inr

/-- A placeholder for a topic that was come across. -/
theorem Grows.add {s p : Topic} (h : Met sources s) (hdummy : p.isDummy = true) (hp : p.sourceId = s.id)
    (hproperties : p.properties = s.properties) (w : Work) : Grows sources w (w.add p) where
  done := List.subset_cons_self _ _
  left := List.Sublist.refl _
  expands _ hs := .inl hs
  met q hq := by
    rcases List.mem_cons.1 hq with rfl | hq
    · exact .inr ⟨hdummy, s, h, hp.symm, hproperties.symm⟩
    · exact .inl hq

/-- A source that is taken out has to be expanded in return. -/
theorem Grows.take {s : Topic} {rest : List Topic} (hperm : w.sources.Perm (s :: rest)) (hrest : rest.Sublist w.sources)
    (h : Grows sources ⟨w.done, rest⟩ w') (hs : w'.Expands s) : Grows sources w w' where
  done := h.done
  left := h.left.trans hrest
  expands t ht := by
    rcases List.mem_cons.1 (hperm.subset ht) with rfl | ht
    · exact .inr hs
    · exact h.expands t ht
  met := h.met

end Work

/-! ## One step -/

theorem perm_of_takeSource {id : Int} {ts rest : List Topic} {s : Topic} (h : takeSource id ts = some (s, rest)) :
    s.id = id ∧ ts.Perm (s :: rest) ∧ rest.Sublist ts := by
  fun_induction takeSource id ts generalizing rest with
  | case1 => cases h
  | case2 ts t hid =>
    cases h
    exact ⟨hid, List.Perm.refl _, List.sublist_cons_self _ _⟩
  | case3 t ts _ s' rest' h' ih =>
    cases h
    obtain ⟨hid, hperm, hsub⟩ := ih h'
    exact ⟨hid, (hperm.cons t).trans (List.Perm.swap s t rest'), hsub.cons_cons t⟩
  | case4 => cases h

theorem notMem_of_takeSource {id : Int} {ts : List Topic} (h : takeSource id ts = none) : ∀ t ∈ ts, t.id ≠ id := by
  fun_induction takeSource id ts with
  | case1 => exact fun _ ht => absurd ht List.not_mem_nil
  | case2 => cases h
  | case3 => cases h
  | case4 t ts hid h' ih =>
    intro u hu
    rcases List.mem_cons.1 hu with rfl | hu
    · exact hid
    · exact ih h' u hu

variable {locale : String}

/-- A placeholder holds what its source's relations are translated into. -/
theorem synthesize_fst (locale : String) (source : Topic) (w : Work) : (synthesize locale source w).1 =
    { placeholder locale source with
      outgoing := (translateAll locale source.outgoing (w.add (placeholder locale source))).1
      incoming := (translateAll locale source.incoming
        (translateAll locale source.outgoing (w.add (placeholder locale source))).2.val).1 } := by
  rw [synthesize]

/-- A source's placeholder is known before and after its relations are translated. -/
theorem synthesize_snd (locale : String) (source : Topic) (w : Work) : (synthesize locale source w).2.val =
    (translateAll locale source.incoming (translateAll locale source.outgoing
      (w.add (placeholder locale source))).2.val).2.val.add (synthesize locale source w).1 := by
  rw [synthesize]

theorem translateAll_nil (locale : String) (w : Work) :
    (translateAll locale [] w).1 = [] ∧ (translateAll locale [] w).2.val = w := by
  rw [translateAll]
  exact ⟨rfl, rfl⟩

theorem translateAll_cons (locale : String) (t : Topic) (ts : List Topic) (w : Work) :
    (translateAll locale (t :: ts) w).1 = (translateRelated locale t w).1
        :: (translateAll locale ts (translateRelated locale t w).2.val).1 ∧
      (translateAll locale (t :: ts) w).2.val
        = (translateAll locale ts (translateRelated locale t w).2.val).2.val := by
  rw [translateAll]
  exact ⟨rfl, rfl⟩

/-- **What becomes of one relation, and of the work**: nothing is made if its topic is known or translated, else a
placeholder is made of the source topic if one is left, or of the copy itself. -/
theorem translateRelated_cases (locale : String) (t : Topic) (w : Work) :
    (∃ known, w.find? t.sourceId = some known ∧ (translateRelated locale t w).1 = known.shallow ∧
      (translateRelated locale t w).2.val = w) ∨
    w.find? t.sourceId = none ∧
      (t.isTranslated = true ∧ (translateRelated locale t w).1 = t.shallow ∧ (translateRelated locale t w).2.val = w ∨
      t.isTranslated = false ∧
        ((∃ s rest, takeSource t.id w.sources = some (s, rest) ∧
          (translateRelated locale t w).1 = (synthesize locale s ⟨w.done, rest⟩).1.shallow ∧
          (translateRelated locale t w).2.val = (synthesize locale s ⟨w.done, rest⟩).2.val) ∨
        takeSource t.id w.sources = none ∧ (translateRelated locale t w).1 = (synthesize locale t w).1.shallow ∧
          (translateRelated locale t w).2.val = (synthesize locale t w).2.val)) := by
  rw [translateRelated]
  split
  · rename_i known hknown
    exact .inl ⟨known, hknown, rfl, rfl⟩
  · rename_i hunknown
    refine .inr ⟨hunknown, ?_⟩
    split
    · rename_i htranslated
      exact .inl ⟨htranslated, rfl, rfl⟩
    · rename_i htranslated
      refine .inr ⟨by simpa using htranslated, ?_⟩
      split
      · rename_i s rest htake
        exact .inl ⟨s, rest, htake, rfl, rfl⟩
      · rename_i htake
        exact .inr ⟨htake, rfl, rfl⟩

/-! ## All steps -/

section Growing

variable {sources : List Topic}

mutual

/-- **A source's placeholder brings along one for each of its copies.** -/
theorem grows_synthesize (s : Topic) (w : Work) (hs : Met sources s) (hw : ∀ t ∈ w.sources, Met sources t) :
    Work.Grows sources w (synthesize locale s w).2.val ∧ (synthesize locale s w).2.val.Expands s := by
  have hp := synthesize_fst locale s w
  have hmet (c : Topic) (hc : c ∈ s.outgoing ++ s.incoming) (ht : c.isTranslated = false) : Met sources c :=
    hs.copy (Topic.mem_copies.2 ⟨hc, ht⟩)
  have hadd := Work.Grows.add hs (show (placeholder locale s).isDummy = true from rfl) rfl rfl w
  obtain ⟨hout, houtIds⟩ := grows_translateAll s.outgoing (w.add (placeholder locale s))
    (fun c hc => hmet c (List.mem_append_left _ hc)) hw
  obtain ⟨hin, hinIds⟩ := grows_translateAll s.incoming
    (translateAll locale s.outgoing (w.add (placeholder locale s))).2.val
    (fun c hc => hmet c (List.mem_append_right _ hc)) fun t ht => hw t (hout.left.subset ht)
  have hlast := Work.Grows.add hs (p := (synthesize locale s w).1) (by rw [hp]; rfl) (by rw [hp]; rfl) (by rw [hp]; rfl)
    (translateAll locale s.incoming (translateAll locale s.outgoing (w.add (placeholder locale s))).2.val).2.val
  rw [synthesize_snd]
  -- The id is known before the relations are followed, and what they make known stays known.
  refine ⟨((hadd.trans hout).trans hin).trans hlast, (hout.trans (hin.trans hlast)).ids List.mem_cons_self, ?_⟩
  intro c hc
  obtain ⟨hc, ht⟩ := Topic.mem_copies.1 hc
  rcases List.mem_append.1 hc with hc | hc
  · exact (hin.trans hlast).ids (houtIds c hc ht)
  · exact hlast.ids (hinIds c hc ht)
termination_by (w.sources.length, sizeOf s)
decreasing_by
  · exact Prod.Lex.right _ (Topic.sizeOf_outgoing s)
  · exact Prod.Lex.right' _ (translateAll locale s.outgoing (w.add (placeholder locale s))).2.property
      (Topic.sizeOf_incoming s)

theorem grows_translateAll (related : List Topic) (w : Work)
    (hr : ∀ c ∈ related, c.isTranslated = false → Met sources c) (hw : ∀ t ∈ w.sources, Met sources t) :
    Work.Grows sources w (translateAll locale related w).2.val ∧
      ∀ c ∈ related, c.isTranslated = false → c.id ∈ (translateAll locale related w).2.val.ids := by
  match related with
  | [] =>
    rw [(translateAll_nil locale w).2]
    exact ⟨Work.Grows.refl sources w, fun _ hc => absurd hc List.not_mem_nil⟩
  | t :: ts =>
    obtain ⟨hone, hid⟩ := grows_translateRelated t w (hr t List.mem_cons_self) hw
    obtain ⟨hrest, hids⟩ := grows_translateAll ts (translateRelated locale t w).2.val
      (fun c hc => hr c (List.mem_cons_of_mem _ hc)) fun s hs => hw s (hone.left.subset hs)
    rw [(translateAll_cons locale t ts w).2]
    refine ⟨hone.trans hrest, fun c hc ht => ?_⟩
    rcases List.mem_cons.1 hc with rfl | hc
    · exact hrest.ids (hid ht)
    · exact hids c hc ht
termination_by (w.sources.length, sizeOf related)
decreasing_by
  · exact Prod.Lex.right _ (sizeOf_lt_cons t ts)
  · exact Prod.Lex.right' _ (translateRelated locale t w).2.property (sizeOf_tail_lt_cons t ts)

theorem grows_translateRelated (c : Topic) (w : Work) (hc : c.isTranslated = false → Met sources c)
    (hw : ∀ t ∈ w.sources, Met sources t) :
    Work.Grows sources w (translateRelated locale c w).2.val ∧
      (c.isTranslated = false → c.id ∈ (translateRelated locale c w).2.val.ids) := by
  rcases translateRelated_cases locale c w with ⟨known, hknown, -, heq⟩ | ⟨-, ⟨ht, -, heq⟩ | ⟨ht, hmade⟩⟩
  · rw [heq]
    refine ⟨Work.Grows.refl sources w, fun ht => ?_⟩
    rw [← Topic.sourceId_of_not_isTranslated ht]
    exact Work.isSome_find?_iff.1 (by rw [hknown]; rfl)
  · rw [heq]
    exact ⟨Work.Grows.refl sources w, fun h => by rw [ht] at h; cases h⟩
  · rcases hmade with ⟨s, rest, htake, -, heq⟩ | ⟨-, -, heq⟩
    · obtain ⟨hid, hperm, hsub⟩ := perm_of_takeSource htake
      obtain ⟨hgrows, hexpands⟩ := grows_synthesize s ⟨w.done, rest⟩ (hw s (hperm.symm.subset List.mem_cons_self))
        fun t ht => hw t (hsub.subset ht)
      rw [heq]
      -- The source is no longer among those left, but its own placeholder has just expanded it.
      exact ⟨hgrows.take hperm hsub hexpands, fun _ => hid ▸ hexpands.self⟩
    · obtain ⟨hgrows, hexpands⟩ := grows_synthesize c w (hc ht) hw
      rw [heq]
      exact ⟨hgrows, fun _ => hexpands.self⟩
termination_by (w.sources.length, sizeOf c + 1)
decreasing_by
  · exact Prod.Lex.left _ _ (Nat.lt_of_succ_le (Nat.le_of_eq (length_of_takeSource htake)))
  · exact Prod.Lex.right _ (Nat.lt_succ_self _)

end

/-! ## Sources one after the other -/

theorem grows_addSource (id : Int) {w : Work} (hw : ∀ t ∈ w.sources, Met sources t) :
    Work.Grows sources w (addSource locale id w) := by
  unfold addSource
  split
  · rename_i s rest htake
    obtain ⟨-, hperm, hsub⟩ := perm_of_takeSource htake
    obtain ⟨hgrows, hexpands⟩ := grows_synthesize s ⟨w.done, rest⟩
      (hw s (hperm.symm.subset List.mem_cons_self)) fun t ht => hw t (hsub.subset ht)
    exact hgrows.take hperm hsub hexpands
  · exact Work.Grows.refl sources w

theorem id_ne_of_mem_addSource (id : Int) {w : Work} (hw : ∀ t ∈ w.sources, Met sources t)
    (hnodup : (w.sources.map (·.id)).Nodup) : ∀ t ∈ (addSource locale id w).sources, t.id ≠ id := by
  unfold addSource
  split
  · rename_i s rest htake
    obtain ⟨hid, hperm, hsub⟩ := perm_of_takeSource htake
    obtain ⟨hgrows, -⟩ := grows_synthesize s ⟨w.done, rest⟩
      (hw s (hperm.symm.subset List.mem_cons_self)) fun t ht => hw t (hsub.subset ht)
    have hfresh := (List.nodup_cons.1 ((hperm.map (·.id)).nodup_iff.1 hnodup)).1
    intro t ht he
    exact hfresh (List.mem_map.2 ⟨t, hgrows.left.subset ht, he.trans hid.symm⟩)
  · rename_i htake
    exact notMem_of_takeSource htake

/-- The work with placeholders for all ids that there is a source for. -/
def addAll (locale : String) (ids : List Int) (w : Work) : Work :=
  ids.foldl (fun w id => addSource locale id w) w

theorem grows_addAll : ∀ (ids : List Int) {w : Work}, (∀ t ∈ w.sources, Met sources t) →
    Work.Grows sources w (addAll locale ids w)
  | [], _, _ => Work.Grows.refl sources _
  | id :: ids, _, hw =>
    have hone := grows_addSource id hw
    hone.trans (grows_addAll ids fun t ht => hw t (hone.left.subset ht))

/-- **Every source that is asked for is expanded.** -/
theorem id_notMem_of_mem_addAll : ∀ (ids : List Int) {w : Work}, (∀ t ∈ w.sources, Met sources t) →
    (w.sources.map (·.id)).Nodup → ∀ t ∈ (addAll locale ids w).sources, t.id ∉ ids
  | [], _, _, _ => fun _ _ => List.not_mem_nil
  | id :: ids, w, hw, hnodup => by
    intro t ht hin
    have hone : Work.Grows sources w (addSource locale id w) := grows_addSource id hw
    have hleft : ∀ t ∈ (addSource locale id w).sources, Met sources t := fun t ht => hw t (hone.left.subset ht)
    rcases List.mem_cons.1 hin with he | hin
    · exact id_ne_of_mem_addSource id hw hnodup t ((grows_addAll ids hleft).left.subset ht) he
    · exact id_notMem_of_mem_addAll ids hleft (hnodup.sublist (hone.left.map _)) t ht hin

end Growing

/-! ## What there is to start from -/

theorem missingIds_concat (found : List Topic) (required : List Int) (id : Int) :
    missingIds found (required ++ [id]) =
      if (found.any fun t => t.sourceId == id) || (missingIds found required).contains id then missingIds found required
      else missingIds found required ++ [id] := by
  unfold missingIds
  rw [List.foldl_append]
  rfl

theorem mem_missingIds {found : List Topic} {required : List Int} {id : Int} :
    id ∈ missingIds found required ↔ id ∈ required ∧ ∀ t ∈ found, t.sourceId ≠ id := by
  induction required using List.reverseRecOn with
  | nil => exact ⟨fun h => absurd h List.not_mem_nil, fun h => absurd h.1 List.not_mem_nil⟩
  | append_singleton required i ih =>
    rw [missingIds_concat]
    split
    · rename_i h
      rw [Bool.or_eq_true, List.any_eq_true, List.contains_iff_mem] at h
      rw [ih]
      refine ⟨fun hid => ⟨List.mem_append_left _ hid.1, hid.2⟩, fun h' => ⟨?_, h'.2⟩⟩
      obtain ⟨hid, hnone⟩ := h'
      rcases List.mem_append.1 hid with hid | hid
      · exact hid
      · cases List.mem_singleton.1 hid
        obtain ⟨t, ht, hi⟩ | hi := h
        · exact absurd (by simpa using hi) (hnone t ht)
        · exact (ih.1 hi).1
    · rename_i h
      rw [Bool.not_eq_true, Bool.or_eq_false_iff, List.any_eq_false] at h
      rw [List.mem_append, List.mem_append, List.mem_singleton, ih]
      constructor
      · rintro (hid | rfl)
        · exact ⟨.inl hid.1, hid.2⟩
        · exact ⟨.inr rfl, fun t ht => by simpa using h.1 t ht⟩
      · rintro ⟨hid | rfl, hnone⟩
        · exact .inl ⟨hid, hnone⟩
        · exact .inr rfl

theorem lastOfEach_concat (ts : List Topic) (t : Topic) :
    lastOfEach (ts ++ [t]) = (lastOfEach ts).filter (fun u => u.id != t.id) ++ [t] := by
  unfold lastOfEach
  rw [List.foldl_append]
  rfl

theorem mem_of_mem_lastOfEach {ts : List Topic} : ∀ t ∈ lastOfEach ts, t ∈ ts := by
  induction ts using List.reverseRecOn with
  | nil => exact fun _ h => h
  | append_singleton ts t ih =>
    rw [lastOfEach_concat]
    intro u hu
    rcases List.mem_append.1 hu with hu | hu
    · exact List.mem_append_left _ (ih u (List.mem_filter.1 hu).1)
    · exact List.mem_append_right _ hu

theorem exists_mem_lastOfEach {ts : List Topic} : ∀ t ∈ ts, ∃ u ∈ lastOfEach ts, u.id = t.id := by
  induction ts using List.reverseRecOn with
  | nil => exact fun _ h => absurd h List.not_mem_nil
  | append_singleton ts t ih =>
    rw [lastOfEach_concat]
    intro u hu
    by_cases he : u.id = t.id
    · exact ⟨t, List.mem_append_right _ (List.mem_singleton_self t), he.symm⟩
    · have hu : u ∈ ts := (List.mem_append.1 hu).resolve_right fun h => he (by rw [List.mem_singleton.1 h])
      obtain ⟨v, hv, hid⟩ := ih u hu
      exact ⟨v, List.mem_append_left _ (List.mem_filter.2 ⟨hv, by simpa [hid] using he⟩), hid⟩

theorem nodup_lastOfEach (ts : List Topic) : ((lastOfEach ts).map (·.id)).Nodup := by
  induction ts using List.reverseRecOn with
  | nil => exact List.nodup_nil
  | append_singleton ts t ih =>
    rw [lastOfEach_concat, List.map_append]
    refine List.nodup_append.2 ⟨ih.sublist (List.filter_sublist.map _), List.pairwise_singleton _ _, ?_⟩
    intro a ha c hc he
    obtain ⟨u, hu, rfl⟩ := List.mem_map.1 ha
    have hne : u.id ≠ t.id := by simpa using (List.mem_filter.1 hu).2
    exact hne (he.trans (List.mem_singleton.1 hc))

end Translation

/-! ## Stores in memory -/

namespace MemoryStore

open Translation

/-- The work that completing the translations of topics ends in. -/
def completed (s : MemoryStore) (locale : String) (required : List Int) : Work :=
  let found := required.filterMap (s.translation? locale)
  let missing := missingIds found required
  addAll locale missing ⟨found, lastOfEach (missing.filterMap s.topic?)⟩

/-- The stored topics among those required that have no translation. -/
def untranslated (s : MemoryStore) (locale : String) (required : List Int) : List Topic :=
  (required.filter fun id => (s.translation? locale id).isNone).filterMap s.topic?

/-- Whether completing the translations of topics makes a placeholder for a topic. -/
def makesPlaceholder (s : MemoryStore) (locale : String) (required : List Int) (id : Int) : Bool :=
  (s.completed locale required).done.any fun t => t.isDummy && t.sourceId == id

variable {s : MemoryStore} {locale : String} {required : List Int} {id : Int} {t : Topic}

theorem id_of_topic? (h : s.topic? id = some t) : t.id = id := by
  simpa using List.find?_some h

theorem sourceId_of_translation? (h : s.translation? locale id = some t) : t.sourceId = id := by
  have h := List.find?_some h
  rw [Bool.and_eq_true] at h
  simpa using h.2

theorem mem_untranslated : t ∈ s.untranslated locale required ↔
    t.id ∈ required ∧ s.translation? locale t.id = none ∧ s.topic? t.id = some t := by
  unfold untranslated
  rw [List.mem_filterMap]
  constructor
  · rintro ⟨id, hid, ht⟩
    obtain ⟨hin, hnone⟩ := List.mem_filter.1 hid
    rw [id_of_topic? ht]
    exact ⟨hin, Option.isNone_iff_eq_none.1 hnone, ht⟩
  · rintro ⟨hin, hnone, ht⟩
    exact ⟨t.id, List.mem_filter.2 ⟨hin, by rw [hnone]; rfl⟩, ht⟩

theorem mem_missingIds_translation? :
    id ∈ missingIds (required.filterMap (s.translation? locale)) required
      ↔ id ∈ required ∧ s.translation? locale id = none := by
  rw [mem_missingIds]
  refine and_congr_right fun hid => ⟨fun h => ?_, fun h t ht he => ?_⟩
  · cases htr : s.translation? locale id with
    | none => rfl
    | some t => exact absurd (sourceId_of_translation? htr) (h t (List.mem_filterMap.2 ⟨id, hid, htr⟩))
  · obtain ⟨i, -, htr⟩ := List.mem_filterMap.1 ht
    rw [sourceId_of_translation? htr] at he
    rw [he, h] at htr
    cases htr

theorem mem_sources : t ∈ lastOfEach
    ((missingIds (required.filterMap (s.translation? locale)) required).filterMap s.topic?) ↔
      t ∈ s.untranslated locale required := by
  have hmem (u : Topic) : u ∈ (missingIds (required.filterMap (s.translation? locale)) required).filterMap s.topic? ↔
      u ∈ s.untranslated locale required := by
    rw [List.mem_filterMap, mem_untranslated]
    constructor
    · rintro ⟨id, hid, hu⟩
      rw [mem_missingIds_translation?] at hid
      rw [id_of_topic? hu]
      exact ⟨hid.1, hid.2, hu⟩
    · rintro ⟨hid, hnone, hu⟩
      exact ⟨u.id, mem_missingIds_translation?.2 ⟨hid, hnone⟩, hu⟩
  refine ⟨fun ht => (hmem t).1 (mem_of_mem_lastOfEach t ht), fun ht => ?_⟩
  obtain ⟨u, hu, hid⟩ := exists_mem_lastOfEach t ((hmem t).2 ht)
  have hstored := (mem_untranslated.1 ((hmem u).1 (mem_of_mem_lastOfEach u hu))).2.2
  rw [hid, (mem_untranslated.1 ht).2.2] at hstored
  cases hstored
  exact hu

theorem grows_completed (s : MemoryStore) (locale : String) (required : List Int) :
    Work.Grows (s.untranslated locale required) ⟨required.filterMap (s.translation? locale), lastOfEach
      ((missingIds (required.filterMap (s.translation? locale)) required).filterMap s.topic?)⟩
        (s.completed locale required) :=
  grows_addAll _ fun _ ht => .source (mem_sources.1 ht)

/-- **An untranslated topic has a placeholder, and so has each copy that it holds.** -/
theorem expands_completed (h : t ∈ s.untranslated locale required) : (s.completed locale required).Expands t := by
  obtain ⟨hid, hnone, -⟩ := mem_untranslated.1 h
  refine ((grows_completed s locale required).expands t (mem_sources.2 h)).resolve_left fun hleft => ?_
  exact id_notMem_of_mem_addAll _ (fun _ ht => .source (mem_sources.1 ht)) (nodup_lastOfEach _) t hleft
    (mem_missingIds_translation?.2 ⟨hid, hnone⟩)

/-- What is known in the end is translated or has a placeholder. -/
theorem mem_ids_completed : id ∈ (s.completed locale required).ids ↔
    (id ∈ required ∧ (s.translation? locale id).isSome) ∨ s.makesPlaceholder locale required id = true := by
  have hgrows := grows_completed s locale required
  unfold makesPlaceholder
  rw [List.any_eq_true]
  constructor
  · intro h
    obtain ⟨p, hp, rfl⟩ := List.mem_map.1 h
    rcases hgrows.met p hp with hfound | ⟨hdummy, -⟩
    · obtain ⟨i, hi, htr⟩ := List.mem_filterMap.1 hfound
      rw [sourceId_of_translation? htr, htr]
      exact .inl ⟨hi, rfl⟩
    · exact .inr ⟨p, hp, by rw [hdummy, beq_self_eq_true]; rfl⟩
  · rintro (⟨hid, htr⟩ | ⟨p, hp, hfor⟩)
    · obtain ⟨t, htr⟩ := Option.isSome_iff_exists.1 htr
      exact List.mem_map.2 ⟨t, hgrows.done (List.mem_filterMap.2 ⟨id, hid, htr⟩), sourceId_of_translation? htr⟩
    · rw [Bool.and_eq_true, beq_iff_eq] at hfor
      exact List.mem_map.2 ⟨p, hp, hfor.2⟩

/-- **A required topic has a text in the end if it is stored, is translated or has a placeholder.** -/
theorem isSome_find?_completed (hid : id ∈ required) : ((s.completed locale required).find? id).isSome ↔
    (s.topic? id).isSome ∨ (s.translation? locale id).isSome ∨ s.makesPlaceholder locale required id = true := by
  rw [Work.isSome_find?_iff]
  refine ⟨fun h => .inr ((mem_ids_completed.1 h).imp_left And.right), ?_⟩
  rintro (htopic | htr | hmade)
  · cases htr : s.translation? locale id with
    | some t => exact mem_ids_completed.2 (.inl ⟨hid, by rw [htr]; rfl⟩)
    | none =>
      obtain ⟨t, ht⟩ := Option.isSome_iff_exists.1 htopic
      have hself := id_of_topic? ht
      subst hself
      exact (expands_completed (mem_untranslated.2 ⟨hid, htr, ht⟩)).self
  · exact mem_ids_completed.2 (.inl ⟨hid, htr⟩)
  · exact mem_ids_completed.2 (.inr hmade)

/-! ## Placeholders for topics that are not stored -/

theorem makesPlaceholder_of_known (htr : s.translation? locale id = none)
    (h : id ∈ (s.completed locale required).ids) : s.makesPlaceholder locale required id = true :=
  (mem_ids_completed.1 h).resolve_left fun h => by
    rw [htr] at h
    exact Bool.false_ne_true h.2

/-- **Placeholders are made of the untranslated topics and of the copies that they hold.** -/
theorem makesPlaceholder_of_untranslated (htr : s.translation? locale id = none)
    (h : ∃ t ∈ s.untranslated locale required, t.id = id ∨ ∃ c ∈ t.copies, c.id = id) :
    s.makesPlaceholder locale required id = true := by
  obtain ⟨t, ht, rfl | ⟨c, hc, rfl⟩⟩ := h
  · exact makesPlaceholder_of_known htr (expands_completed ht).self
  · exact makesPlaceholder_of_known htr ((expands_completed ht).copies c hc)

/-- **Placeholders are made of nothing but topics that were come across.** -/
theorem exists_met_of_makesPlaceholder (htr : s.translation? locale id = none)
    (h : s.makesPlaceholder locale required id = true) :
    ∃ t, Met (s.untranslated locale required) t ∧ t.id = id := by
  obtain ⟨p, hp, hfor⟩ := List.any_eq_true.1 h
  rw [Bool.and_eq_true, beq_iff_eq] at hfor
  rcases (grows_completed s locale required).met p hp with hfound | ⟨-, t, hmet, hid, -⟩
  · obtain ⟨i, -, hi⟩ := List.mem_filterMap.1 hfound
    rw [← sourceId_of_translation? hi, hfor.2, htr] at hi
    cases hi
  · exact ⟨t, hmet, hid.trans hfor.2⟩

/-- Where copies hold no copies, placeholders are made of the untranslated topics and of the copies that they hold, and
of nothing else. -/
theorem makesPlaceholder_iff (hflat : ∀ t ∈ s.untranslated locale required, ∀ c ∈ t.copies, c.copies = [])
    (htr : s.translation? locale id = none) : s.makesPlaceholder locale required id = true ↔
      ∃ t ∈ s.untranslated locale required, t.id = id ∨ ∃ c ∈ t.copies, c.id = id := by
  refine ⟨fun h => ?_, makesPlaceholder_of_untranslated htr⟩
  obtain ⟨t, hmet, rfl⟩ := exists_met_of_makesPlaceholder htr h
  rcases hmet.mem_of_flat hflat with ht | ⟨u, hu, ht⟩
  · exact ⟨t, ht, .inl rfl⟩
  · exact ⟨u, hu, .inr ⟨t, ht, rfl⟩⟩

end MemoryStore
end Bookbinder
