import Bookbinder.Proofs.BuildFailures
/-!
# What placeholders are made of

Completing translations makes one placeholder for each of some topics, their origins: the source topics that were asked
for, and what is come across from there by following copies.  A step makes placeholders for origins that nothing is
known of, and changes nothing about what is known (`Work.Makes`).  In the end each origin has a placeholder that mirrors
it, with a translated copy in place of each relation (`exists_makes_completed`).
-/
namespace Bookbinder
namespace Translation

/-- The topic that the placeholder for a copy is made of: the source topic if there is one, since that has relations of
its own. -/
def origin (source? : Int → Option Topic) (c : Topic) : Topic :=
  (source? c.id).getD c

/-- Topics that are come across one after the other: each is the origin of a topic known from the start, or of a copy
that an earlier one holds. -/
def Follows (source? : Int → Option Topic) : List Topic → List Topic → Prop
  | _, [] => True
  | known, o :: os => (∃ c ∈ known, origin source? c = o) ∧ Follows source? (known ++ o.copies) os

/-- A translated copy in place of another one, without any relations. -/
structure Echo (c c' : Topic) : Prop where
  sourceId : c'.sourceId = c.sourceId
  translated : c'.isTranslated = true
  outgoing : c'.outgoing = []
  incoming : c'.incoming = []

@[simp] theorem sourceId_placeholder (locale : String) (s : Topic) : (placeholder locale s).sourceId = s.id := rfl

/-! ## Origins -/

section Origins

variable {source? : Int → Option Topic} {known known' os os' : List Topic}

theorem id_origin (hid : ∀ id s, source? id = some s → s.id = id) (c : Topic) : (origin source? c).id = c.id := by
  unfold origin
  cases h : source? c.id with
  | none => rfl
  | some s => exact hid _ _ h

theorem Follows.mono : ∀ {os known known' : List Topic}, known ⊆ known' → Follows source? known os →
    Follows source? known' os
  | [], _, _, _, _ => trivial
  | o :: os, known, known', hsub, ⟨⟨c, hc, ho⟩, hrest⟩ => by
    refine ⟨⟨c, hsub hc, ho⟩, hrest.mono ?_⟩
    intro x hx
    rcases List.mem_append.1 hx with hx | hx
    · exact List.mem_append_left _ (hsub hx)
    · exact List.mem_append_right _ hx

theorem Follows.append : ∀ {os known : List Topic}, Follows source? known os → Follows source? known os' →
    Follows source? known (os ++ os')
  | [], _, _, h' => h'
  | _ :: _, _, ⟨hhead, hrest⟩, h' => ⟨hhead, hrest.append (h'.mono (List.subset_append_left _ _))⟩

/-- What the origins of known topics have, and the origins of copies have from what holds them, all origins have. -/
theorem Follows.forall_mem {P : Topic → Prop} : ∀ {os known : List Topic}, Follows source? known os →
    (∀ c ∈ known, P (origin source? c)) → (∀ o ∈ os, P o → ∀ c ∈ o.copies, P (origin source? c)) → ∀ o ∈ os, P o
  | [], _, _, _, _ => fun _ h => absurd h List.not_mem_nil
  | o :: os, known, ⟨⟨c, hc, horigin⟩, hrest⟩, hknown, hcopies => by
    have ho : P o := horigin ▸ hknown c hc
    refine List.forall_mem_cons.2 ⟨ho, hrest.forall_mem ?_ fun o' ho' => hcopies o' (List.mem_cons_of_mem _ ho')⟩
    intro c' hc'
    rcases List.mem_append.1 hc' with hc' | hc'
    · exact hknown c' hc'
    · exact hcopies o List.mem_cons_self ho c' hc'

/-- **What is come across is the origin of a topic known from the start or of a copy.** -/
theorem Follows.exists_origin (h : Follows source? known os) :
    ∀ o ∈ os, ∃ c, (c ∈ known ∨ ∃ o' ∈ os, c ∈ o'.copies) ∧ origin source? c = o :=
  h.forall_mem (fun c hc => ⟨c, .inl hc, rfl⟩) fun o ho _ c hc => ⟨c, .inr ⟨o, ho, hc⟩, rfl⟩

/-- A source topic is what is come across of its id. -/
theorem Follows.eq_source (hid : ∀ id s, source? id = some s → s.id = id) (h : Follows source? known os) {o s : Topic}
    (ho : o ∈ os) (hs : source? o.id = some s) : o = s := by
  obtain ⟨c, -, rfl⟩ := h.exists_origin o ho
  rw [id_origin hid] at hs
  unfold origin
  rw [hs]
  rfl

end Origins

/-! ## Work that makes placeholders -/

namespace Work

/-- What other topics are shown of the topic that is known for an id. -/
def shown? (w : Work) (id : Int) : Option Topic :=
  (w.find? id).map Topic.shallow

theorem find?_add (w : Work) (t : Topic) (id : Int) :
    (w.add t).find? id = if t.sourceId = id then some t else w.find? id := by
  unfold find? add
  by_cases h : t.sourceId = id <;> simp [h]

/-- The echo of a copy.  Of a copy in the language of the source it is what is shown of its topic. -/
structure Echoes (w : Work) (c c' : Topic) : Prop extends Echo c c' where
  shown : c.isTranslated = false → w.shown? c.id = some c'

/-- A placeholder made of a topic, with an echo of each relation. -/
structure Mirrors (locale : String) (w : Work) (o p : Topic) : Prop where
  shallow : p.shallow = placeholder locale o
  outgoing : List.Forall₂ w.Echoes o.outgoing p.outgoing
  incoming : List.Forall₂ w.Echoes o.incoming p.incoming

/-- Work that knows translations only, and has the sources left of what it does not know. -/
structure Sound (source? : Int → Option Topic) (w : Work) : Prop where
  translated : ∀ t ∈ w.done, t.isTranslated = true
  nodup : (w.sources.map (·.id)).Nodup
  sources : ∀ id, w.find? id = none → (w.sources.find? fun s => s.id == id) = source? id

/-- What making placeholders for origins does to the work: they were not known and are mirrored in the end, and all else
is known as before. -/
structure Makes (locale : String) (os : List Topic) (w w' : Work) : Prop where
  nodup : (os.map (·.id)).Nodup
  fresh : ∀ o ∈ os, w.find? o.id = none
  kept : ∀ id, id ∉ os.map (·.id) → w'.find? id = w.find? id
  mirrored : ∀ o ∈ os, ∃ p, w'.find? o.id = some p ∧ Mirrors locale w' o p
  left : w'.sources.Sublist w.sources
  spent : ∀ o ∈ os, ∀ s ∈ w'.sources, s.id ≠ o.id

variable {locale : String} {source? : Int → Option Topic} {os os' : List Topic} {w w' w'' : Work} {o p s t : Topic}

theorem Mirrors.sourceId (h : Mirrors locale w o p) : p.sourceId = o.id :=
  congrArg Topic.sourceId h.shallow

theorem Mirrors.isTranslated (h : Mirrors locale w o p) : p.isTranslated = true :=
  congrArg Topic.isTranslated h.shallow

theorem Mirrors.mono (h : Mirrors locale w o p) (hshown : ∀ id t, w.shown? id = some t → w'.shown? id = some t) :
    Mirrors locale w' o p where
  shallow := h.shallow
  outgoing := h.outgoing.imp fun _ _ he => ⟨he.toEcho, fun hc => hshown _ _ (he.shown hc)⟩
  incoming := h.incoming.imp fun _ _ he => ⟨he.toEcho, fun hc => hshown _ _ (he.shown hc)⟩

/-! ### Steps one after the other -/

theorem Makes.refl (locale : String) (w : Work) : Makes locale [] w w where
  nodup := List.nodup_nil
  fresh _ h := absurd h List.not_mem_nil
  kept _ _ := rfl
  mirrored _ h := absurd h List.not_mem_nil
  left := List.Sublist.refl _
  spent _ h := absurd h List.not_mem_nil

/-- What is known stays known. -/
theorem Makes.find?_eq_some (h : Makes locale os w w') {id : Int} (ht : w.find? id = some t) :
    w'.find? id = some t := by
  rw [h.kept id, ht]
  intro hid
  obtain ⟨o, ho, rfl⟩ := List.mem_map.1 hid
  rw [h.fresh o ho] at ht
  cases ht

theorem Makes.find?_eq_none (h : Makes locale os w w') {id : Int} (ht : w'.find? id = none) : w.find? id = none := by
  cases hw : w.find? id with
  | none => rfl
  | some t =>
    rw [h.find?_eq_some hw] at ht
    cases ht

theorem Makes.shown?_eq_some (h : Makes locale os w w') (id : Int) (t : Topic) (ht : w.shown? id = some t) :
    w'.shown? id = some t := by
  unfold shown? at ht ⊢
  obtain ⟨u, hu, rfl⟩ := Option.map_eq_some_iff.1 ht
  rw [h.find?_eq_some hu]
  rfl

/-- An origin is known in the end. -/
theorem Makes.mem_ids (h : Makes locale os w w') {id : Int} (hw : w.find? id = none) (hw' : w'.find? id ≠ none) :
    ∃ o ∈ os, o.id = id := by
  by_contra hnone
  have hid : id ∉ os.map (·.id) := by simpa using hnone
  rw [h.kept id hid] at hw'
  exact hw' hw

theorem Makes.trans (h : Makes locale os w w') (h' : Makes locale os' w' w'') : Makes locale (os ++ os') w w'' where
  nodup := by
    rw [List.map_append, List.nodup_append]
    refine ⟨h.nodup, h'.nodup, ?_⟩
    intro id hid id' hid' he
    obtain ⟨o, ho, rfl⟩ := List.mem_map.1 hid
    obtain ⟨o', ho', rfl⟩ := List.mem_map.1 hid'
    obtain ⟨p, hp, -⟩ := h.mirrored o ho
    rw [he, h'.fresh o' ho'] at hp
    cases hp
  fresh := by
    intro o ho
    rcases List.mem_append.1 ho with ho | ho
    · exact h.fresh o ho
    · exact h.find?_eq_none (h'.fresh o ho)
  kept := by
    intro id hid
    rw [List.map_append, List.mem_append, not_or] at hid
    rw [h'.kept id hid.2, h.kept id hid.1]
  mirrored := by
    intro o ho
    rcases List.mem_append.1 ho with ho | ho
    · obtain ⟨p, hp, hmirrors⟩ := h.mirrored o ho
      exact ⟨p, h'.find?_eq_some hp, hmirrors.mono h'.shown?_eq_some⟩
    · exact h'.mirrored o ho
  left := h'.left.trans h.left
  spent := by
    intro o ho
    rcases List.mem_append.1 ho with ho | ho
    · exact fun s hs => h.spent o ho s (h'.left.subset hs)
    · exact h'.spent o ho

/-- **A placeholder that is known before its relations are followed is complete afterwards.**  What others are shown of
it stays the same. -/
theorem Makes.close (h : Makes locale os (w.add (placeholder locale s)) w') (hfresh : w.find? s.id = none)
    (hspent : ∀ t ∈ w.sources, t.id ≠ s.id) (hp : Mirrors locale w' s p) :
    Makes locale (s :: os) w (w'.add p) := by
  have hbare : (w.add (placeholder locale s)).find? s.id = some (placeholder locale s) := by
    rw [find?_add, sourceId_placeholder, if_pos rfl]
  have hother {id : Int} (hid : id ≠ s.id) : (w.add (placeholder locale s)).find? id = w.find? id := by
    rw [find?_add, sourceId_placeholder, if_neg (Ne.symm hid)]
  have hnew {o : Topic} (ho : o ∈ os) : o.id ≠ s.id := by
    intro he
    have hnone := h.fresh o ho
    rw [he, hbare] at hnone
    cases hnone
  have hlast (id : Int) : (w'.add p).find? id = if s.id = id then some p else w'.find? id := by
    rw [find?_add, hp.sourceId]
  have hshown (id : Int) (t : Topic) (ht : w'.shown? id = some t) : (w'.add p).shown? id = some t := by
    unfold shown? at ht ⊢
    rw [hlast]
    split
    · rename_i hid
      subst hid
      rw [h.find?_eq_some hbare] at ht
      cases ht
      exact congrArg some hp.shallow
    · exact ht
  constructor
  case nodup =>
    rw [List.map_cons, List.nodup_cons]
    refine ⟨fun hid => ?_, h.nodup⟩
    obtain ⟨o, ho, he⟩ := List.mem_map.1 hid
    exact hnew ho he
  case fresh =>
    rw [List.forall_mem_cons]
    refine ⟨hfresh, fun o ho => ?_⟩
    rw [← hother (hnew ho)]
    exact h.fresh o ho
  case kept =>
    intro id hid
    rw [List.map_cons, List.mem_cons, not_or] at hid
    rw [hlast, if_neg (Ne.symm hid.1), h.kept id hid.2, hother hid.1]
  case mirrored =>
    rw [List.forall_mem_cons]
    refine ⟨⟨p, by rw [hlast, if_pos rfl], hp.mono hshown⟩, fun o ho => ?_⟩
    obtain ⟨q, hq, hmirrors⟩ := h.mirrored o ho
    exact ⟨q, by rw [hlast, if_neg (Ne.symm (hnew ho)), hq], hmirrors.mono hshown⟩
  case left => exact h.left
  case spent =>
    rw [List.forall_mem_cons]
    exact ⟨fun t ht => hspent t (h.left.subset ht), h.spent⟩

theorem Sound.add (h : Sound source? w) (ht : t.isTranslated = true) : Sound source? (w.add t) where
  translated := List.forall_mem_cons.2 ⟨ht, h.translated⟩
  nodup := h.nodup
  sources := by
    intro id hid
    rw [find?_add] at hid
    split at hid
    · cases hid
    · exact h.sources id hid

end Work

theorem find?_of_takeSource {id : Int} {ts rest : List Topic} {s : Topic} (h : takeSource id ts = some (s, rest)) :
    (ts.find? fun t => t.id == id) = some s ∧
      ∀ id' ≠ id, (rest.find? fun t => t.id == id') = ts.find? fun t => t.id == id' := by
  fun_induction takeSource id ts generalizing rest with
  | case1 => cases h
  | case2 ts t hid =>
    cases h
    refine ⟨by simp [hid], fun id' hne => ?_⟩
    rw [List.find?_cons_of_neg]
    simpa [hid] using Ne.symm hne
  | case3 t ts hid s' rest' h' ih =>
    cases h
    obtain ⟨hfind, hrest⟩ := ih h'
    refine ⟨by simp [hid, hfind], fun id' hne => ?_⟩
    rw [List.find?_cons, List.find?_cons, hrest id' hne]
  | case4 => cases h

/-- The source taken for a placeholder is spent, and the others are left as they were. -/
theorem Work.Sound.take {source? : Int → Option Topic} {w : Work} {id : Int} {s : Topic} {rest : List Topic}
    (h : w.Sound source?) (htake : takeSource id w.sources = some (s, rest)) (locale : String) :
    (Work.add ⟨w.done, rest⟩ (placeholder locale s)).Sound source? ∧ ∀ t ∈ rest, t.id ≠ s.id := by
  obtain ⟨hid, hperm, hsub⟩ := perm_of_takeSource htake
  subst hid
  refine ⟨⟨List.forall_mem_cons.2 ⟨rfl, h.translated⟩, h.nodup.sublist (hsub.map _), fun id hid => ?_⟩,
    fun t ht he => ?_⟩
  · rw [Work.find?_add] at hid
    split at hid
    · cases hid
    · rename_i hne
      exact ((find?_of_takeSource htake).2 id (Ne.symm hne)).trans (h.sources id hid)
  · have hnodup := (hperm.map (·.id)).nodup_iff.1 h.nodup
    exact (List.nodup_cons.1 hnodup).1 (List.mem_map.2 ⟨t, ht, he⟩)

/-! ## All steps -/

section Making

variable {source? : Int → Option Topic} {locale : String}

/-- What becomes of an unknown copy in the language of the source: a placeholder is made of its origin, which is no
longer among the sources left. -/
theorem exists_synthesize_origin (locale : String) (c : Topic) {w : Work} (hsound : w.Sound source?)
    (hunknown : w.find? c.sourceId = none) (ht : c.isTranslated = false) : ∃ w₀ : Work,
      (origin source? c).id = c.id ∧ w₀.done = w.done ∧ w₀.sources.Sublist w.sources ∧
      (w₀.add (placeholder locale (origin source? c))).Sound source? ∧ (∀ t ∈ w₀.sources, t.id ≠ (origin source? c).id) ∧
      Prod.Lex (· < ·) (· < ·) (w₀.sources.length, sizeOf (origin source? c)) (w.sources.length, sizeOf c + 1) ∧
      (translateRelated locale c w).1 = (synthesize locale (origin source? c) w₀).1.shallow ∧
      (translateRelated locale c w).2.val = (synthesize locale (origin source? c) w₀).2.val := by
  rcases translateRelated_cases locale c w with ⟨known, hknown, -⟩ | ⟨-, ⟨htranslated, -⟩ | ⟨-, hmade⟩⟩
  · rw [hunknown] at hknown
    cases hknown
  · rw [ht] at htranslated
    cases htranslated
  rw [Topic.sourceId_of_not_isTranslated ht] at hunknown
  have hsource := hsound.sources c.id hunknown
  rcases hmade with ⟨s, rest, htake, hresult, hwork⟩ | ⟨htake, hresult, hwork⟩
  · obtain ⟨hid, -, hsub⟩ := perm_of_takeSource htake
    obtain ⟨hadded, hspent⟩ := hsound.take htake locale
    have horigin : origin source? c = s := by
      rw [origin, ← hsource, (find?_of_takeSource htake).1]
      rfl
    rw [horigin]
    exact ⟨⟨w.done, rest⟩, hid, rfl, hsub, hadded, hspent,
      Prod.Lex.left _ _ (Nat.lt_of_succ_le (Nat.le_of_eq (length_of_takeSource htake))), hresult, hwork⟩
  · have hnone : source? c.id = none := by
      rw [← hsource, List.find?_eq_none]
      intro t ht
      simpa using notMem_of_takeSource htake t ht
    have horigin : origin source? c = c := by
      rw [origin, hnone]
      rfl
    rw [horigin]
    exact ⟨w, rfl, rfl, List.Sublist.refl _, hsound.add rfl, notMem_of_takeSource htake,
      Prod.Lex.right _ (Nat.lt_succ_self _), hresult, hwork⟩

mutual

/-- **A placeholder mirrors the topic that it is made of, with echoes of all its relations.** -/
theorem makes_synthesize (s : Topic) (w : Work) (hsound : (w.add (placeholder locale s)).Sound source?)
    (hfresh : w.find? s.id = none) (hspent : ∀ t ∈ w.sources, t.id ≠ s.id) :
    (synthesize locale s w).2.val.Sound source? ∧ (synthesize locale s w).1.shallow = placeholder locale s ∧
      (synthesize locale s w).2.val.find? s.id = some (synthesize locale s w).1 ∧
      ∃ os, Work.Makes locale (s :: os) w (synthesize locale s w).2.val ∧ Follows source? s.copies os := by
  obtain ⟨hsound₁, os₁, hmakes₁, hfollows₁, hout⟩ :=
    makes_translateAll s.outgoing (w.add (placeholder locale s)) hsound
  obtain ⟨hsound₂, os₂, hmakes₂, hfollows₂, hin⟩ := makes_translateAll s.incoming
    (translateAll locale s.outgoing (w.add (placeholder locale s))).2.val hsound₁
  have hshallow : (synthesize locale s w).1.shallow = placeholder locale s := by
    rw [synthesize_fst]
    rfl
  have hmirrors : Work.Mirrors locale (translateAll locale s.incoming
      (translateAll locale s.outgoing (w.add (placeholder locale s))).2.val).2.val s (synthesize locale s w).1 := by
    refine ⟨hshallow, ?_, ?_⟩
    · rw [synthesize_fst]
      exact hout.imp fun c c' he => ⟨he.toEcho, fun hc => hmakes₂.shown?_eq_some _ _ (he.shown hc)⟩
    · rw [synthesize_fst]
      exact hin
  have hknown : s.copies = (s.outgoing.filter fun c => !c.isTranslated) ++ s.incoming.filter fun c => !c.isTranslated :=
    List.filter_append ..
  have hmakes := (hmakes₁.trans hmakes₂).close hfresh hspent hmirrors
  rw [synthesize_snd]
  refine ⟨hsound₂.add hmirrors.isTranslated, hshallow, ?_, os₁ ++ os₂, hmakes, ?_⟩
  · rw [Work.find?_add, hmirrors.sourceId, if_pos rfl]
  · rw [hknown]
    exact (hfollows₁.mono (List.subset_append_left _ _)).append (hfollows₂.mono (List.subset_append_right _ _))
termination_by (w.sources.length, sizeOf s)
decreasing_by
  · exact Prod.Lex.right _ (Topic.sizeOf_outgoing s)
  · exact Prod.Lex.right' _ (translateAll locale s.outgoing (w.add (placeholder locale s))).2.property
      (Topic.sizeOf_incoming s)

theorem makes_translateAll (related : List Topic) (w : Work) (hsound : w.Sound source?) :
    (translateAll locale related w).2.val.Sound source? ∧
      ∃ os, Work.Makes locale os w (translateAll locale related w).2.val ∧
        Follows source? (related.filter fun c => !c.isTranslated) os ∧
        List.Forall₂ (translateAll locale related w).2.val.Echoes related (translateAll locale related w).1 := by
  match related with
  | [] =>
    obtain ⟨hresult, hwork⟩ := translateAll_nil locale w
    rw [hresult, hwork]
    exact ⟨hsound, [], .refl locale w, trivial, .nil⟩
  | c :: cs =>
    obtain ⟨hsound₁, os₁, hmakes₁, hfollows₁, hecho⟩ := makes_translateRelated c w hsound
    obtain ⟨hsound₂, os₂, hmakes₂, hfollows₂, hechoes⟩ :=
      makes_translateAll cs (translateRelated locale c w).2.val hsound₁
    obtain ⟨hresult, hwork⟩ := translateAll_cons locale c cs w
    rw [hresult, hwork]
    refine ⟨hsound₂, os₁ ++ os₂, hmakes₁.trans hmakes₂, ?_, .cons ⟨hecho.toEcho, fun hc => ?_⟩ hechoes⟩
    · refine (hfollows₁.mono ?_).append (hfollows₂.mono ?_)
      · exact List.filter_subset _ (List.cons_subset_cons c (List.nil_subset cs))
      · exact List.filter_subset _ (List.subset_cons_self c cs)
    · exact hmakes₂.shown?_eq_some _ _ (hecho.shown hc)
termination_by (w.sources.length, sizeOf related)
decreasing_by
  · exact Prod.Lex.right _ (sizeOf_lt_cons c cs)
  · exact Prod.Lex.right' _ (translateRelated locale c w).2.property (sizeOf_tail_lt_cons c cs)

theorem makes_translateRelated (c : Topic) (w : Work) (hsound : w.Sound source?) :
    (translateRelated locale c w).2.val.Sound source? ∧
      ∃ os, Work.Makes locale os w (translateRelated locale c w).2.val ∧
        Follows source? ([c].filter fun c => !c.isTranslated) os ∧
        (translateRelated locale c w).2.val.Echoes c (translateRelated locale c w).1 := by
  by_cases hmade : w.find? c.sourceId = none ∧ c.isTranslated = false
  · obtain ⟨hunknown, ht⟩ := hmade
    obtain ⟨w₀, hid, hdone, hleft, hadded, hspent, hless, hresult, hwork⟩ :=
      exists_synthesize_origin locale c hsound hunknown ht
    have hc := Topic.sourceId_of_not_isTranslated ht
    have hsame (id : Int) : w₀.find? id = w.find? id := by rw [Work.find?, hdone, Work.find?]
    obtain ⟨hsound', hshallow, hfind, os, hmakes, hfollows⟩ := makes_synthesize (origin source? c) w₀ hadded
      (by rw [hsame, hid, ← hc, hunknown]) hspent
    rw [hresult, hwork, show ([c].filter fun c => !c.isTranslated) = [c] by simp [ht]]
    refine ⟨hsound', _, ⟨hmakes.nodup, fun o ho => ?_, fun id hid => ?_, hmakes.mirrored, hmakes.left.trans hleft,
      hmakes.spent⟩, ⟨⟨c, List.mem_singleton_self c, rfl⟩, hfollows.mono (List.subset_append_right _ _)⟩, ?_,
      fun _ => ?_⟩
    · rw [← hsame, hmakes.fresh o ho]
    · rw [← hsame, hmakes.kept id hid]
    · rw [hshallow]
      exact ⟨hid.trans hc.symm, rfl, rfl, rfl⟩
    · rw [Work.shown?, ← hid, hfind]
      rfl
  · rcases translateRelated_cases locale c w with
      ⟨known, hknown, hresult, hwork⟩ | ⟨hunknown, ⟨ht, hresult, hwork⟩ | ⟨ht, -⟩⟩
    · rw [hresult, hwork]
      have hid : known.sourceId = c.sourceId := by simpa using List.find?_some hknown
      have htranslated := hsound.translated known (List.mem_of_find?_eq_some hknown)
      refine ⟨hsound, [], .refl locale w, trivial, ⟨hid, htranslated, rfl, rfl⟩, fun hc => ?_⟩
      rw [Work.shown?, ← Topic.sourceId_of_not_isTranslated hc, hknown]
      rfl
    · rw [hresult, hwork]
      exact ⟨hsound, [], .refl locale w, trivial, ⟨rfl, ht, rfl, rfl⟩, fun hc => by rw [ht] at hc; cases hc⟩
    · exact absurd ⟨hunknown, ht⟩ hmade
termination_by (w.sources.length, sizeOf c + 1)
decreasing_by
  exact hless

end

/-! ## Sources one after the other -/

variable {roots os : List Topic} {w₀ w : Work}

theorem makes_addSource (hid : ∀ id s, source? id = some s → s.id = id) {id : Int} (hsound : w.Sound source?)
    (hmakes : Work.Makes locale os w₀ w) (hfollows : Follows source? roots os) (hunknown : w₀.find? id = none)
    (hroot : ∀ s ∈ source? id, s ∈ roots) :
    (addSource locale id w).Sound source? ∧ ∃ os', Work.Makes locale os' w₀ (addSource locale id w) ∧
      Follows source? roots os' ∧ os ⊆ os' ∧ ∀ s ∈ source? id, s ∈ os' := by
  unfold addSource
  split
  · rename_i s rest htake
    obtain ⟨hs, hperm, hsub⟩ := perm_of_takeSource htake
    subst hs
    obtain ⟨hadded, hspent⟩ := hsound.take htake locale
    -- What is still left to take has not been made a placeholder for.
    have hfresh : w.find? s.id = none := by
      rw [hmakes.kept, hunknown]
      intro hmem
      obtain ⟨o, ho, he⟩ := List.mem_map.1 hmem
      exact hmakes.spent o ho s (hperm.symm.subset List.mem_cons_self) he.symm
    have hsource : source? s.id = some s := by
      rw [← hsound.sources s.id hfresh, (find?_of_takeSource htake).1]
    obtain ⟨hsound', -, -, more, hmore, hfollows'⟩ := makes_synthesize s ⟨w.done, rest⟩ hadded hfresh hspent
    have hstep : Work.Makes locale (s :: more) w (synthesize locale s ⟨w.done, rest⟩).2.val :=
      ⟨hmore.nodup, hmore.fresh, hmore.kept, hmore.mirrored, hmore.left.trans hsub, hmore.spent⟩
    refine ⟨hsound', os ++ s :: more, hmakes.trans hstep, hfollows.append ⟨⟨s, hroot s hsource, ?_⟩, ?_⟩,
      List.subset_append_left _ _, ?_⟩
    · rw [origin, hsource]
      rfl
    · exact hfollows'.mono (List.subset_append_right _ _)
    · intro t ht
      rw [hsource] at ht
      cases ht
      exact List.mem_append_right _ List.mem_cons_self
  · rename_i htake
    refine ⟨hsound, os, hmakes, hfollows, List.Subset.refl os, fun s hs => ?_⟩
    -- A source that is not left to take has been made a placeholder for.
    have hknown : w.find? id ≠ none := by
      intro hnone
      have hleft := hsound.sources id hnone
      rw [hs, List.find?_eq_some_iff_append] at hleft
      obtain ⟨hsid, before, after, he, -⟩ := hleft
      exact notMem_of_takeSource htake s (by rw [he]; simp) (by simpa using hsid)
    obtain ⟨o, ho, he⟩ := hmakes.mem_ids hunknown hknown
    rw [← he] at hs
    rwa [← hfollows.eq_source hid ho hs]

theorem makes_addAll (hid : ∀ id s, source? id = some s → s.id = id) : ∀ {ids : List Int} {w : Work} {os : List Topic},
    w.Sound source? → Work.Makes locale os w₀ w → Follows source? roots os → (∀ id ∈ ids, w₀.find? id = none) →
    (∀ id ∈ ids, ∀ s ∈ source? id, s ∈ roots) →
    ∃ os', Work.Makes locale os' w₀ (addAll locale ids w) ∧ Follows source? roots os' ∧ os ⊆ os' ∧
      ∀ id ∈ ids, ∀ s ∈ source? id, s ∈ os'
  | [], _, os, _, hmakes, hfollows, _, _ =>
    ⟨os, hmakes, hfollows, List.Subset.refl os, fun _ h => absurd h List.not_mem_nil⟩
  | id :: ids, w, os, hsound, hmakes, hfollows, hunknown, hroots => by
    rw [List.forall_mem_cons] at hunknown hroots
    obtain ⟨hsound', os', hmakes', hfollows', hsub, hmem⟩ :=
      makes_addSource hid hsound hmakes hfollows hunknown.1 hroots.1
    obtain ⟨os'', hmakes'', hfollows'', hsub', hmems⟩ :=
      makes_addAll hid hsound' hmakes' hfollows' hunknown.2 hroots.2
    refine ⟨os'', hmakes'', hfollows'', List.Subset.trans hsub hsub', List.forall_mem_cons.2 ⟨?_, hmems⟩⟩
    exact fun s hs => hsub' (hmem s hs)

end Making

/-! ## Complete translations -/

/-- The source topic of an id among those that a store has given out; of several, the last. -/
def given? (ts : List Topic) (id : Int) : Option Topic :=
  ts.reverse.find? fun t => t.id == id

theorem id_of_given? {ts : List Topic} {id : Int} {t : Topic} (h : given? ts id = some t) : t.id = id := by
  simpa using List.find?_some h

theorem find?_lastOfEach (ts : List Topic) (id : Int) : ((lastOfEach ts).find? fun t => t.id == id) = given? ts id := by
  unfold given?
  induction ts using List.reverseRecOn with
  | nil => rfl
  | append_singleton ts t ih =>
    rw [lastOfEach_concat, List.find?_append, List.find?_filter, List.reverse_append, List.reverse_singleton,
      List.singleton_append, List.find?_cons]
    by_cases h : t.id = id
    · subst h
      have hnone : (lastOfEach ts).find? (fun u => decide ((u.id != t.id) = true ∧ (u.id == t.id) = true)) = none :=
        List.find?_eq_none.2 fun u _ => by simp
      rw [hnone]
      simp
    · have hsame : (fun u : Topic => decide ((u.id != t.id) = true ∧ (u.id == id) = true)) = fun u => u.id == id := by
        funext u
        by_cases hu : u.id = id <;> simp [hu, Ne.symm h]
      have hother : (t.id == id) = false := beq_eq_false_iff_ne.2 h
      rw [hsame, ih, hother, List.find?_cons, hother]
      simp

/-- The work that translations are completed with. -/
def completed (found ts : List Topic) (required : List Int) (locale : String) : Work :=
  addAll locale (missingIds found required) ⟨found, lastOfEach ts⟩

variable {found ts : List Topic} {required : List Int}

theorem find?_found_eq_none_iff {sources : List Topic} {id : Int} :
    (Work.mk found sources).find? id = none ↔ ∀ t ∈ found, t.sourceId ≠ id := by
  unfold Work.find?
  rw [List.find?_eq_none]
  simp

/-- **Completing translations makes placeholders for origins**, among them the source topics that there are. -/
theorem exists_makes_completed (ts : List Topic) (required : List Int)
    (hfound : ∀ t ∈ found, t.isTranslated = true) (locale : String) :
    ∃ os, Work.Makes locale os ⟨found, lastOfEach ts⟩ (completed found ts required locale) ∧
      Follows (given? ts) (required.filterMap (given? ts)) os ∧
      ∀ id ∈ required, (∀ t ∈ found, t.sourceId ≠ id) → ∀ s ∈ given? ts id, s ∈ os := by
  have hsound : (Work.mk found (lastOfEach ts)).Sound (given? ts) :=
    ⟨hfound, nodup_lastOfEach ts, fun id _ => find?_lastOfEach ts id⟩
  have hstart : Follows (given? ts) (required.filterMap (given? ts)) [] := trivial
  obtain ⟨os, hmakes, hfollows, -, hmem⟩ := makes_addAll (fun id s => id_of_given?) hsound (.refl locale _) hstart
    (fun id hid => find?_found_eq_none_iff.2 (mem_missingIds.1 hid).2)
    fun id hid s hs => List.mem_filterMap.2 ⟨id, (mem_missingIds.1 hid).1, hs⟩
  exact ⟨os, hmakes, hfollows, fun id hid hnone => hmem id (mem_missingIds.2 ⟨hid, hnone⟩)⟩

end Translation
end Bookbinder
