import Bookbinder.Proofs.CompletedTranslations
import Mathlib.Data.Finset.Card
/-!
# Runs that make placeholders

What is known while placeholders are made is a memo, filed by locale and id.  A run follows relations through a map of
source topics that stays as it is, and nothing but the memo keeps it from going round in circles (`Synthesizes`).  Each
placeholder that is built is one more entry of the memo (`Builds`), and a map has only so many sources, so that every
run ends (`exists_synthesizes`).  The library takes sources out of its list as it goes; that is the same run
(`exists_synthesizes_synthesize`).
-/
namespace Bookbinder
namespace Translation

/-- What topics are known as, by locale and id. -/
abbrev Memo := String × Int → Option Topic

/-- The map of source topics that has some entries. -/
def mapped (sources : List (Int × Topic)) (id : Int) : Option Topic :=
  sources.lookup id

section Runs

variable (locale : String) (source? : Int → Option Topic)

mutual

/-- A run for a topic that comes to what is known of it, or else to a placeholder: with what is known before and
afterwards, and the ids that placeholders were built for. -/
inductive Synthesizes : Topic → Memo → Topic → Memo → List Int → Prop
  | known {s t : Topic} {memo : Memo} (h : memo (locale, s.id) = some t) : Synthesizes s memo t memo []
  | built {s : Topic} {memo memo₁ memo₂ : Memo} {outgoing incoming : List Topic} {ids₁ ids₂ : List Int}
      (h : memo (locale, s.id) = none)
      (hout : TranslatesAll s.outgoing (Function.update memo (locale, s.id) (some (placeholder locale s))) outgoing
        memo₁ ids₁)
      (hin : TranslatesAll s.incoming memo₁ incoming memo₂ ids₂) :
    Synthesizes s memo { placeholder locale s with outgoing, incoming }
      (Function.update memo₂ (locale, s.id) (some { placeholder locale s with outgoing, incoming }))
      (s.id :: (ids₁ ++ ids₂))

inductive TranslatesAll : List Topic → Memo → List Topic → Memo → List Int → Prop
  | nil {memo : Memo} : TranslatesAll [] memo [] memo []
  | cons {c c' : Topic} {cs cs' : List Topic} {memo memo₁ memo₂ : Memo} {ids₁ ids₂ : List Int}
      (h : Translates c memo c' memo₁ ids₁) (hs : TranslatesAll cs memo₁ cs' memo₂ ids₂) :
    TranslatesAll (c :: cs) memo (c' :: cs') memo₂ (ids₁ ++ ids₂)

inductive Translates : Topic → Memo → Topic → Memo → List Int → Prop
  | known {c t : Topic} {memo : Memo} (h : memo (locale, c.sourceId) = some t) : Translates c memo t.shallow memo []
  | translated {c : Topic} {memo : Memo} (h : memo (locale, c.sourceId) = none) (ht : c.isTranslated = true) :
    Translates c memo c.shallow memo []
  | plain {c p : Topic} {memo memo' : Memo} {ids : List Int} (h : memo (locale, c.sourceId) = none)
      (ht : c.isTranslated = false) (hs : Synthesizes (origin source? c) memo p memo' ids) :
    Translates c memo p.shallow memo' ids

end

/-- Runs for topics one after the other, with the same memo. -/
inductive Series : List Topic → Memo → Memo → List Int → Prop
  | nil {memo : Memo} : Series [] memo memo []
  | cons {s p : Topic} {ss : List Topic} {memo memo₁ memo₂ : Memo} {ids₁ ids₂ : List Int}
      (h : Synthesizes locale source? s memo p memo₁ ids₁) (hs : Series ss memo₁ memo₂ ids₂) :
    Series (s :: ss) memo memo₂ (ids₁ ++ ids₂)

end Runs

/-! ## What a run does to the memo -/

theorem eq_none_of_kept {memo memo' : Memo} (h : ∀ key t, memo key = some t → memo' key = some t) {key : String × Int}
    (hnone : memo' key = none) : memo key = none := by
  cases hkey : memo key with
  | none => rfl
  | some t => exact nomatch hnone.symm.trans (h key t hkey)

/-- From one memo to another by placeholders: they are built for different ids of which nothing was known before, and
what is known afterwards is what was known before, unchanged, and these. -/
structure Builds (locale : String) (memo : Memo) (ids : List Int) (memo' : Memo) : Prop where
  nodup : ids.Nodup
  fresh : ∀ id ∈ ids, memo (locale, id) = none
  kept : ∀ key t, memo key = some t → memo' key = some t
  isSome_iff : ∀ key, (memo' key).isSome ↔ (memo key).isSome ∨ ∃ id ∈ ids, key = (locale, id)

namespace Builds

variable {locale : String} {memo memo₁ memo₂ : Memo} {ids ids₁ ids₂ : List Int}

theorem refl (locale : String) (memo : Memo) : Builds locale memo [] memo where
  nodup := List.nodup_nil
  fresh _ h := absurd h List.not_mem_nil
  kept _ _ h := h
  isSome_iff key := by simp

theorem trans (h : Builds locale memo ids₁ memo₁) (h' : Builds locale memo₁ ids₂ memo₂) :
    Builds locale memo (ids₁ ++ ids₂) memo₂ where
  nodup := by
    refine List.nodup_append.2 ⟨h.nodup, h'.nodup, fun id hid id' hid' he => ?_⟩
    -- What is built first is known when the others are built.
    have hknown := (h.isSome_iff (locale, id)).2 (.inr ⟨id, hid, rfl⟩)
    rw [he, h'.fresh id' hid'] at hknown
    cases hknown
  fresh := List.forall_mem_append.2 ⟨h.fresh, fun id hid => eq_none_of_kept h.kept (h'.fresh id hid)⟩
  kept key t ht := h'.kept key t (h.kept key t ht)
  isSome_iff key := by
    rw [h'.isSome_iff, h.isSome_iff, or_assoc]
    simp [or_and_right, exists_or]

/-- **A placeholder that is filed before its relations are followed is filed again when it is complete.** -/
theorem close {s p p' : Topic} (hnone : memo (locale, s.id) = none)
    (h : Builds locale (Function.update memo (locale, s.id) (some p)) ids memo₁) :
    Builds locale memo (s.id :: ids) (Function.update memo₁ (locale, s.id) (some p')) := by
  have hother {id : Int} (hid : id ∈ ids) : id ≠ s.id ∧ memo (locale, id) = none := by
    have hfresh := h.fresh id hid
    have hne : id ≠ s.id := by
      rintro rfl
      rw [Function.update_self] at hfresh
      cases hfresh
    rw [Function.update_of_ne fun he => hne (congrArg Prod.snd he)] at hfresh
    exact ⟨hne, hfresh⟩
  constructor
  case nodup => exact List.nodup_cons.2 ⟨fun hid => (hother hid).1 rfl, h.nodup⟩
  case fresh => exact List.forall_mem_cons.2 ⟨hnone, fun id hid => (hother hid).2⟩
  case kept =>
    intro key t ht
    have hne : key ≠ (locale, s.id) := by
      rintro rfl
      rw [hnone] at ht
      cases ht
    rw [Function.update_of_ne hne]
    exact h.kept key t (by rw [Function.update_of_ne hne, ht])
  case isSome_iff =>
    intro key
    by_cases hkey : key = (locale, s.id)
    · subst hkey
      rw [Function.update_self]
      exact iff_of_true rfl (.inr ⟨s.id, List.mem_cons_self, rfl⟩)
    · rw [Function.update_of_ne hkey, h.isSome_iff, Function.update_of_ne hkey]
      simp [hkey]

end Builds

section Properties

variable {locale : String} {source? : Int → Option Topic}

mutual

/-- **A run files what it builds, and nothing else.** -/
theorem Synthesizes.builds : ∀ {s p : Topic} {memo memo' : Memo} {ids : List Int},
    Synthesizes locale source? s memo p memo' ids → Builds locale memo ids memo'
  | _, _, _, _, _, .known _ => .refl _ _
  | _, _, _, _, _, .built h hout hin => Builds.close h (hout.builds.trans hin.builds)

theorem TranslatesAll.builds : ∀ {cs cs' : List Topic} {memo memo' : Memo} {ids : List Int},
    TranslatesAll locale source? cs memo cs' memo' ids → Builds locale memo ids memo'
  | _, _, _, _, _, .nil => .refl _ _
  | _, _, _, _, _, .cons h hs => h.builds.trans hs.builds

theorem Translates.builds : ∀ {c c' : Topic} {memo memo' : Memo} {ids : List Int},
    Translates locale source? c memo c' memo' ids → Builds locale memo ids memo'
  | _, _, _, _, _, .known _ => .refl _ _
  | _, _, _, _, _, .translated _ _ => .refl _ _
  | _, _, _, _, _, .plain _ _ hs => hs.builds

end

theorem Series.builds {ss : List Topic} {memo memo' : Memo} {ids : List Int}
    (h : Series locale source? ss memo memo' ids) : Builds locale memo ids memo' := by
  induction h with
  | nil => exact .refl _ _
  | cons h _ ih => exact h.builds.trans ih

/-! ## One run only -/

mutual

/-- **A run has one outcome.** -/
theorem Synthesizes.unique : ∀ {s p p' : Topic} {memo m m' : Memo} {ids ids' : List Int},
    Synthesizes locale source? s memo p m ids → Synthesizes locale source? s memo p' m' ids' →
      p = p' ∧ m = m' ∧ ids = ids'
  | _, _, _, _, _, _, _, _, .known h, .known h' => ⟨Option.some.inj (h.symm.trans h'), rfl, rfl⟩
  | _, _, _, _, _, _, _, _, .known h, .built h' _ _ => nomatch h.symm.trans h'
  | _, _, _, _, _, _, _, _, .built h _ _, .known h' => nomatch h.symm.trans h'
  | _, _, _, _, _, _, _, _, .built _ hout hin, .built _ hout' hin' => by
    obtain ⟨rfl, rfl, rfl⟩ := hout.unique hout'
    obtain ⟨rfl, rfl, rfl⟩ := hin.unique hin'
    exact ⟨rfl, rfl, rfl⟩

theorem TranslatesAll.unique : ∀ {cs cs' cs'' : List Topic} {memo m m' : Memo} {ids ids' : List Int},
    TranslatesAll locale source? cs memo cs' m ids → TranslatesAll locale source? cs memo cs'' m' ids' →
      cs' = cs'' ∧ m = m' ∧ ids = ids'
  | _, _, _, _, _, _, _, _, .nil, .nil => ⟨rfl, rfl, rfl⟩
  | _, _, _, _, _, _, _, _, .cons h hs, .cons h' hs' => by
    obtain ⟨rfl, rfl, rfl⟩ := h.unique h'
    obtain ⟨rfl, rfl, rfl⟩ := hs.unique hs'
    exact ⟨rfl, rfl, rfl⟩

theorem Translates.unique : ∀ {c c' c'' : Topic} {memo m m' : Memo} {ids ids' : List Int},
    Translates locale source? c memo c' m ids → Translates locale source? c memo c'' m' ids' →
      c' = c'' ∧ m = m' ∧ ids = ids'
  | _, _, _, _, _, _, _, _, .known h, .known h' => by
    cases h.symm.trans h'
    exact ⟨rfl, rfl, rfl⟩
  | _, _, _, _, _, _, _, _, .known h, .translated h' _ => nomatch h.symm.trans h'
  | _, _, _, _, _, _, _, _, .known h, .plain h' _ _ => nomatch h.symm.trans h'
  | _, _, _, _, _, _, _, _, .translated h _, .known h' => nomatch h.symm.trans h'
  | _, _, _, _, _, _, _, _, .translated _ _, .translated _ _ => ⟨rfl, rfl, rfl⟩
  | _, _, _, _, _, _, _, _, .translated _ ht, .plain _ ht' _ => nomatch ht.symm.trans ht'
  | _, _, _, _, _, _, _, _, .plain h _ _, .known h' => nomatch h.symm.trans h'
  | _, _, _, _, _, _, _, _, .plain _ ht _, .translated _ ht' => nomatch ht.symm.trans ht'
  | _, _, _, _, _, _, _, _, .plain _ _ hs, .plain _ _ hs' => by
    obtain ⟨rfl, rfl, rfl⟩ := hs.unique hs'
    exact ⟨rfl, rfl, rfl⟩

end

end Properties

/-! ## Every run ends -/

section Ends

variable {locale : String} {source? : Int → Option Topic} {all : Finset Int} {memo memo' : Memo}

/-- Those of some ids of which nothing is known. -/
def unknown (locale : String) (all : Finset Int) (memo : Memo) : Finset Int :=
  all.filter fun id => (memo (locale, id)).isNone

theorem unknown_subset (h : ∀ key t, memo key = some t → memo' key = some t) :
    unknown locale all memo' ⊆ unknown locale all memo := by
  refine Finset.monotone_filter_right all fun id _ hnone => ?_
  rw [Option.isNone_iff_eq_none] at hnone ⊢
  exact eq_none_of_kept h hnone

theorem kept_update {key : String × Int} (hnone : memo key = none) (p : Topic) (key' : String × Int) (t : Topic)
    (ht : memo key' = some t) : Function.update memo key (some p) key' = some t := by
  rw [Function.update_of_ne, ht]
  rintro rfl
  exact nomatch hnone.symm.trans ht

/-- What is filed of an unknown id is one less. -/
theorem card_unknown_update_lt {id : Int} (hid : id ∈ all) (hnone : memo (locale, id) = none) (p : Topic) :
    (unknown locale all (Function.update memo (locale, id) (some p))).card < (unknown locale all memo).card := by
  refine Finset.card_lt_card ((Finset.ssubset_iff_of_subset (unknown_subset (kept_update hnone p))).2 ⟨id, ?_, ?_⟩)
  · exact Finset.mem_filter.2 ⟨hid, by rw [hnone]; rfl⟩
  · rw [unknown, Finset.mem_filter, Function.update_self]
    exact fun h => Bool.false_ne_true h.2

/-- Where no more is unknown than before, the smaller topic decides. -/
theorem lex_unknown {m n : Nat} (h : ∀ key t, memo key = some t → memo' key = some t) (hlt : m < n) :
    Prod.Lex (· < ·) (· < ·) ((unknown locale all memo').card, m) ((unknown locale all memo).card, n) := by
  have hsubset : unknown locale all memo' ⊆ unknown locale all memo := unknown_subset h
  exact Prod.Lex.right' _ (Finset.card_le_card hsubset) hlt

mutual

/-- **Every run ends.**  Relations hold smaller topics, or lead to source topics; of those one less is unknown each time
that one is come to, since its placeholder is filed before its relations are followed. -/
theorem exists_synthesizes (hall : ∀ id, ∀ o ∈ source? id, o.id ∈ all) (s : Topic) (memo : Memo) :
    ∃ p memo' ids, Synthesizes locale source? s memo p memo' ids := by
  cases h : memo (locale, s.id) with
  | some t => exact ⟨t, memo, [], .known h⟩
  | none =>
    obtain ⟨outgoing, memo₁, ids₁, hout⟩ :=
      exists_translatesAll hall s.outgoing (Function.update memo (locale, s.id) (some (placeholder locale s)))
    obtain ⟨incoming, memo₂, ids₂, hin⟩ := exists_translatesAll hall s.incoming memo₁
    exact ⟨_, _, _, .built h hout hin⟩
termination_by ((unknown locale all (Function.update memo (locale, s.id) (some (placeholder locale s)))).card, sizeOf s)
decreasing_by
  · exact Prod.Lex.right _ (Topic.sizeOf_outgoing s)
  · exact lex_unknown hout.builds.kept (Topic.sizeOf_incoming s)

theorem exists_translatesAll (hall : ∀ id, ∀ o ∈ source? id, o.id ∈ all) (cs : List Topic) (memo : Memo) :
    ∃ cs' memo' ids, TranslatesAll locale source? cs memo cs' memo' ids := by
  match cs with
  | [] => exact ⟨[], memo, [], .nil⟩
  | c :: cs =>
    obtain ⟨c', memo₁, ids₁, h⟩ := exists_translates hall c memo
    obtain ⟨cs', memo₂, ids₂, hs⟩ := exists_translatesAll hall cs memo₁
    exact ⟨_, _, _, .cons h hs⟩
termination_by ((unknown locale all memo).card, sizeOf cs)
decreasing_by
  · exact Prod.Lex.right _ (sizeOf_lt_cons c cs)
  · exact lex_unknown h.builds.kept (sizeOf_tail_lt_cons c cs)

theorem exists_translates (hall : ∀ id, ∀ o ∈ source? id, o.id ∈ all) (c : Topic) (memo : Memo) :
    ∃ c' memo' ids, Translates locale source? c memo c' memo' ids := by
  cases h : memo (locale, c.sourceId) with
  | some t => exact ⟨_, _, _, .known h⟩
  | none =>
    cases ht : c.isTranslated with
    | true => exact ⟨_, _, _, .translated h ht⟩
    | false =>
      cases hknown : memo (locale, (origin source? c).id) with
      | some t => exact ⟨_, _, _, .plain h ht (.known hknown)⟩
      | none =>
        obtain ⟨p, memo', ids, hs⟩ := exists_synthesizes hall (origin source? c) memo
        exact ⟨_, _, _, .plain h ht hs⟩
termination_by ((unknown locale all memo).card, sizeOf c + 1)
decreasing_by
  cases hsource : source? c.id with
  | some o =>
    -- One source fewer is unknown as soon as its placeholder is filed.
    have horigin : origin source? c = o := by rw [origin, hsource, Option.getD_some]
    rw [horigin] at hknown ⊢
    exact Prod.Lex.left _ _ (card_unknown_update_lt (hall c.id o hsource) hknown _)
  | none =>
    -- Without a source the relation itself is followed, which is part of the topic that it belongs to.
    have horigin : origin source? c = c := by rw [origin, hsource, Option.getD_none]
    rw [horigin] at hknown ⊢
    exact lex_unknown (kept_update hknown _) (Nat.lt_succ_self _)

end

end Ends

/-! ## Runs of the library -/

namespace Work

/-- What is known, as a memo. -/
def memo (locale : String) (w : Work) : Memo :=
  fun key => if key.1 = locale then w.find? key.2 else none

/-- The source topics left, each under its id. -/
def entries (w : Work) : List (Int × Topic) :=
  w.sources.map fun s => (s.id, s)

theorem mapped_entries (w : Work) (id : Int) : mapped w.entries id = w.sources.find? fun s => s.id == id := by
  unfold mapped entries
  induction w.sources with
  | nil => rfl
  | cons s ss ih =>
    rw [List.map_cons, List.lookup_cons, List.find?_cons, ih, BEq.comm]

theorem memo_self (locale : String) (w : Work) (id : Int) : w.memo locale (locale, id) = w.find? id := if_pos rfl

theorem memo_add (locale : String) (w : Work) (t : Topic) :
    (w.add t).memo locale = Function.update (w.memo locale) (locale, t.sourceId) (some t) := by
  funext key
  obtain ⟨l, id⟩ := key
  by_cases hkey : (l, id) = (locale, t.sourceId)
  · cases hkey
    rw [Function.update_self, memo_self, find?_add, if_pos rfl]
  · rw [Function.update_of_ne hkey, memo, memo]
    by_cases hl : l = locale
    · subst hl
      rw [if_pos rfl, if_pos rfl, find?_add, if_neg fun he => hkey (by rw [he])]
    · rw [if_neg hl, if_neg hl]

theorem memo_congr {w w' : Work} (h : w'.done = w.done) (locale : String) : w'.memo locale = w.memo locale := by
  funext key
  rw [memo, memo, find?, find?, h]

end Work

section Library

variable {locale : String} {source? : Int → Option Topic}

mutual

/-- **What the library makes of an unknown topic is what its run comes to.** -/
theorem exists_synthesizes_synthesize (s : Topic) (w : Work) (hsound : (w.add (placeholder locale s)).Sound source?)
    (hunknown : w.find? s.id = none) : ∃ ids, Synthesizes locale source? s (w.memo locale)
      (synthesize locale s w).1 ((synthesize locale s w).2.val.memo locale) ids := by
  obtain ⟨ids₁, hout⟩ := exists_translatesAll_translateAll s.outgoing (w.add (placeholder locale s)) hsound
  have hsound₁ : (translateAll locale s.outgoing (w.add (placeholder locale s))).2.val.Sound source? :=
    (makes_translateAll _ _ hsound).1
  obtain ⟨ids₂, hin⟩ := exists_translatesAll_translateAll s.incoming _ hsound₁
  rw [Work.memo_add, sourceId_placeholder] at hout
  have hid : (synthesize locale s w).1.sourceId = s.id := by
    rw [synthesize_fst]
    rfl
  rw [synthesize_snd, Work.memo_add, hid, synthesize_fst]
  exact ⟨_, .built ((w.memo_self locale s.id).trans hunknown) hout hin⟩
termination_by (w.sources.length, sizeOf s)
decreasing_by
  · exact Prod.Lex.right _ (Topic.sizeOf_outgoing s)
  · exact Prod.Lex.right' _ (translateAll locale s.outgoing (w.add (placeholder locale s))).2.property
      (Topic.sizeOf_incoming s)

theorem exists_translatesAll_translateAll (cs : List Topic) (w : Work) (hsound : w.Sound source?) :
    ∃ ids, TranslatesAll locale source? cs (w.memo locale) (translateAll locale cs w).1
      ((translateAll locale cs w).2.val.memo locale) ids := by
  match cs with
  | [] =>
    obtain ⟨hresult, hwork⟩ := translateAll_nil locale w
    rw [hresult, hwork]
    exact ⟨[], .nil⟩
  | c :: cs =>
    obtain ⟨ids₁, h⟩ := exists_translates_translateRelated c w hsound
    have hsound₁ : (translateRelated locale c w).2.val.Sound source? := (makes_translateRelated _ _ hsound).1
    obtain ⟨ids₂, hs⟩ := exists_translatesAll_translateAll cs _ hsound₁
    obtain ⟨hresult, hwork⟩ := translateAll_cons locale c cs w
    rw [hresult, hwork]
    exact ⟨_, .cons h hs⟩
termination_by (w.sources.length, sizeOf cs)
decreasing_by
  · exact Prod.Lex.right _ (sizeOf_lt_cons c cs)
  · exact Prod.Lex.right' _ (translateRelated locale c w).2.property (sizeOf_tail_lt_cons c cs)

theorem exists_translates_translateRelated (c : Topic) (w : Work) (hsound : w.Sound source?) :
    ∃ ids, Translates locale source? c (w.memo locale) (translateRelated locale c w).1
      ((translateRelated locale c w).2.val.memo locale) ids := by
  by_cases hmade : w.find? c.sourceId = none ∧ c.isTranslated = false
  · obtain ⟨hunknown, ht⟩ := hmade
    obtain ⟨w₀, hid, hdone, -, hadded, -, hless, hresult, hwork⟩ :=
      exists_synthesize_origin locale c hsound hunknown ht
    have hsame : w₀.find? (origin source? c).id = none := by
      rw [hid, ← Topic.sourceId_of_not_isTranslated ht, Work.find?, hdone]
      exact hunknown
    obtain ⟨ids, hs⟩ := exists_synthesizes_synthesize (origin source? c) w₀ hadded hsame
    rw [Work.memo_congr hdone] at hs
    rw [hresult, hwork]
    exact ⟨ids, .plain ((w.memo_self locale _).trans hunknown) ht hs⟩
  · rcases translateRelated_cases locale c w with
      ⟨known, hknown, hresult, hwork⟩ | ⟨hunknown, ⟨ht, hresult, hwork⟩ | ⟨ht, -⟩⟩
    · rw [hresult, hwork]
      exact ⟨[], .known ((w.memo_self locale _).trans hknown)⟩
    · rw [hresult, hwork]
      exact ⟨[], .translated ((w.memo_self locale _).trans hunknown) ht⟩
    · exact absurd ⟨hunknown, ht⟩ hmade
termination_by (w.sources.length, sizeOf c + 1)
decreasing_by
  exact hless

end

end Library

/-- **Making placeholders comes to an end, and each is made once.**  For every map of source topics, whatever relations
lead to through it or hold within each other, and for every memo, the run for a topic ends, in one way.  However many
runs share a memo, placeholders are built for different ids of which it knew nothing at first; what it knew stays as it
was, and it knows nothing more but of those ids.  What the library makes of a topic that is unknown is what its run
comes to. -/
theorem synthesize_ends (locale : String) :
    (∀ (sources : List (Int × Topic)) (s : Topic) (memo : Memo), ∃ p memo' ids,
      Synthesizes locale (mapped sources) s memo p memo' ids ∧
      ∀ p' m is, Synthesizes locale (mapped sources) s memo p' m is → p' = p ∧ m = memo' ∧ is = ids) ∧
    (∀ (sources : List (Int × Topic)) (ss : List Topic) (memo memo' : Memo) (ids : List Int),
      Series locale (mapped sources) ss memo memo' ids → Builds locale memo ids memo') ∧
    ∀ (w : Work) (s : Topic), (∀ t ∈ w.done, t.isTranslated = true) → (w.sources.map (·.id)).Nodup →
      w.find? s.id = none → ∃ ids, Synthesizes locale (mapped w.entries) s (w.memo locale) (synthesize locale s w).1
        ((synthesize locale s w).2.val.memo locale) ids := by
  refine ⟨fun sources s memo => ?_, fun sources ss memo memo' ids h => h.builds, fun w s hdone hnodup hunknown => ?_⟩
  · have hall (id : Int) (o : Topic) (ho : mapped sources id = some o) : o.id ∈ (sources.map (·.2.id)).toFinset := by
      obtain ⟨before, after, rfl, -⟩ := List.lookup_eq_some_iff.1 ho
      simp
    obtain ⟨p, memo', ids, h⟩ := exists_synthesizes hall s memo
    exact ⟨p, memo', ids, h, fun p' m is h' => h'.unique h⟩
  · have hsound : w.Sound (mapped w.entries) := ⟨hdone, hnodup, fun id _ => (w.mapped_entries id).symm⟩
    exact exists_synthesizes_synthesize s w (hsound.add rfl) hunknown

/-- From either topic of a circle, each placeholder is made once. -/
theorem synthesize_ends_of_circle : (circle.map (·.id)).Nodup ∧ ∀ s ∈ circle, (Work.mk [] circle).find? s.id = none ∧
    ∃ ids, Synthesizes "de-DE" (mapped (Work.mk [] circle).entries) s ((Work.mk [] circle).memo "de-DE")
      (synthesize "de-DE" s ⟨[], circle⟩).1 ((synthesize "de-DE" s ⟨[], circle⟩).2.val.memo "de-DE") ids ∧ ids.Nodup := by
  have hnodup : (circle.map (·.id)).Nodup := by decide
  obtain ⟨-, hbuilds, hlibrary⟩ := synthesize_ends "de-DE"
  refine ⟨hnodup, fun s _ => ⟨rfl, ?_⟩⟩
  obtain ⟨ids, hrun⟩ := hlibrary ⟨[], circle⟩ s (fun _ h => absurd h List.not_mem_nil) hnodup rfl
  have hseries := hbuilds _ [s] _ _ _ (.cons hrun .nil)
  rw [List.append_nil] at hseries
  exact ⟨ids, hrun, hseries.nodup⟩

end Translation
end Bookbinder
