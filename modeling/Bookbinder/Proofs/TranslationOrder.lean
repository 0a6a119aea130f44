import Bookbinder.Proofs.CompletedTranslations
/-!
# The order of translations

Which copy a placeholder is made of depends on where its topic is come across first.  Where all copies of a topic are
the same, nothing of that shows: topics asked for in another order are made of the same origins (`mem_origins_of_perm`),
so that each is translated to the same topic (`complete_of_perm`).
-/
namespace Bookbinder
namespace Translation

/-- A store that gives out topics by their ids, in any order. -/
structure Serves {σ : Type} (store : TopicStore σ) (st : σ) (stored? : Int → Option Topic) : Prop where
  id : ∀ id t, stored? id = some t → t.id = id
  topics : ∀ ids, ∃ ts, (store.topics ids st).result = .ok ts ∧ (store.topics ids st).cancelled = false ∧
    ∀ t, t ∈ ts ↔ ∃ id ∈ ids, stored? id = some t

/-- A copy that a stored topic holds, or that another copy holds. -/
inductive Held (stored? : Int → Option Topic) : Topic → Prop
  | stored {id : Int} {t c : Topic} (h : stored? id = some t) (hc : c ∈ t.outgoing ++ t.incoming) : Held stored? c
  | copy {t c : Topic} (h : Held stored? t) (hc : c ∈ t.outgoing ++ t.incoming) : Held stored? c

/-- Copies that are all in the language of the source, and the same wherever a topic is held. -/
structure AlikeCopies (stored? : Int → Option Topic) : Prop where
  plain : ∀ c, Held stored? c → c.isTranslated = false
  eq : ∀ c c', Held stored? c → Held stored? c' → c.id = c'.id → c = c'

variable {stored? source? : Int → Option Topic} {found ts ts' known os os' : List Topic} {required required' : List Int}
  {locale : String}

/-! ## The same origins -/

/-- Origins are stored, or they are copies. -/
theorem Origins.held (hstored : ∀ id t, source? id = some t → stored? id = some t)
    (h : Origins source? found required os) : ∀ o ∈ os, (∃ id, stored? id = some o) ∨ Held stored? o := by
  have horigin (c : Topic) (hc : (∃ id, stored? id = some c) ∨ Held stored? c) :
      (∃ id, stored? id = some (origin source? c)) ∨ Held stored? (origin source? c) := by
    unfold origin
    cases hs : source? c.id with
    | none => exact hc
    | some s => exact .inl ⟨c.id, hstored c.id s hs⟩
  refine h.follows.forall_mem (fun c hc => ?_) fun o _ ho c hc => horigin c (.inr ?_)
  · obtain ⟨id, -, hid⟩ := List.mem_filterMap.1 hc
    exact horigin c (.inl ⟨id, hstored id c hid⟩)
  · have hmem := (Topic.mem_copies.1 hc).1
    rcases ho with ⟨id, ho⟩ | ho
    · exact .stored ho hmem
    · exact .copy ho hmem

theorem Origins.held_copy (hstored : ∀ id t, source? id = some t → stored? id = some t)
    (h : Origins source? found required os) {o c : Topic} (ho : o ∈ os) (hc : c ∈ o.outgoing ++ o.incoming) :
    Held stored? c := by
  rcases h.held hstored o ho with ⟨id, ho⟩ | ho
  · exact .stored ho hc
  · exact .copy ho hc

/-- Of the id of a copy there is no other origin than that of the copy. -/
theorem Origins.eq_origin (hid : ∀ id t, source? id = some t → t.id = id)
    (hstored : ∀ id t, source? id = some t → stored? id = some t) (halike : AlikeCopies stored?)
    (h : Origins source? found required os) {o c : Topic} (ho : o ∈ os) (hc : Held stored? c) (he : o.id = c.id) :
    o = origin source? c := by
  cases hs : source? o.id with
  | some s =>
    rw [h.follows.eq_source hid ho hs, origin, ← he, hs, Option.getD_some]
  | none =>
    obtain ⟨c', hc', horigin⟩ := h.follows.exists_origin o ho
    have hid' : (origin source? c').id = c'.id := id_origin hid c'
    obtain rfl : c' = o := by rw [← horigin, origin, ← hid', horigin, hs, Option.getD_none]
    rw [origin, ← he, hs, Option.getD_none]
    rcases hc' with hc' | ⟨o', ho', hc'⟩
    · obtain ⟨id, -, hroot⟩ := List.mem_filterMap.1 hc'
      rw [← hid id c' hroot, hs] at hroot
      cases hroot
    · exact halike.eq c' c (h.held_copy hstored ho' (Topic.mem_copies.1 hc').1) hc he

/-- **Topics asked for in another order have the same origins.** -/
theorem mem_origins_of_perm (hid : ∀ id t, source? id = some t → t.id = id)
    (hstored : ∀ id t, source? id = some t → stored? id = some t) (halike : AlikeCopies stored?)
    (hperm : required'.Perm required) (h : Origins source? found required os)
    (h' : Origins source? found required' os') : ∀ o ∈ os, o ∈ os' := by
  -- The origins are met in another order, but from the same topics on, and both lists hold what the copies lead to.
  have hmem : ∀ o ∈ os, (∀ t ∈ found, t.sourceId ≠ o.id) → o ∈ os' := by
    refine h.follows.forall_mem (fun c hc hunknown => ?_) fun o ho hmem c hc hunknown => ?_
    · obtain ⟨id, hrequired, hs⟩ := List.mem_filterMap.1 hc
      have hself := hid id c hs
      subst hself
      rw [origin, hs, Option.getD_some] at hunknown ⊢
      exact h'.sources c.id (hperm.mem_iff.2 hrequired) hunknown c hs
    · have hheld := h.held_copy hstored ho (Topic.mem_copies.1 hc).1
      rw [id_origin hid] at hunknown
      rcases h'.copies o (hmem (h.untranslated o ho)) c hc with ⟨t, ht, he⟩ | ⟨o', ho', he⟩
      · exact absurd he (hunknown t ht)
      · rwa [← h'.eq_origin hid hstored halike ho' hheld he]
  exact fun o ho => hmem o ho (h.untranslated o ho)

/-! ## The same placeholders -/

theorem Topic.eq_of_shallow {t u : Topic} (hshallow : t.shallow = u.shallow) (hout : t.outgoing = u.outgoing)
    (hin : t.incoming = u.incoming) : t = u := by
  cases t
  cases u
  cases hout
  cases hin
  cases hshallow
  rfl

section Making

variable {w w₁ w₂ : Work} {sources₁ sources₂ : List Topic}

/-- Echoes in works that show the same are the same. -/
theorem Work.eq_of_echoes (hshown : ∀ id, w₁.shown? id = w₂.shown? id) : ∀ {cs ps qs : List Topic},
    (∀ c ∈ cs, c.isTranslated = false) → List.Forall₂ w₁.Echoes cs ps → List.Forall₂ w₂.Echoes cs qs → ps = qs
  | [], _, _, _, .nil, .nil => rfl
  | c :: cs, p :: ps, q :: qs, hplain, .cons hp hps, .cons hq hqs => by
    rw [List.forall_mem_cons] at hplain
    have hpq : some p = some q := by rw [← hp.shown hplain.1, ← hq.shown hplain.1, hshown]
    rw [Option.some.inj hpq, eq_of_echoes hshown hplain.2 hps hqs]

theorem Work.Makes.find?_eq_of_ne (h₁ : Makes locale os ⟨found, sources₁⟩ w₁)
    (h₂ : Makes locale os' ⟨found, sources₂⟩ w₂) (hmem : ∀ o, o ∈ os ↔ o ∈ os') {id : Int}
    (hid : ∀ o ∈ os, o.id ≠ id) : w₁.find? id = w₂.find? id := by
  have hleft : id ∉ os.map (·.id) := by simpa using hid
  have hright : id ∉ os'.map (·.id) := by simpa [← hmem] using hid
  rw [h₁.kept id hleft, h₂.kept id hright]
  rfl

/-- What is made of the same origins is shown the same to others. -/
theorem Work.Makes.shown?_eq (h₁ : Makes locale os ⟨found, sources₁⟩ w₁) (h₂ : Makes locale os' ⟨found, sources₂⟩ w₂)
    (hmem : ∀ o, o ∈ os ↔ o ∈ os') (id : Int) : w₁.shown? id = w₂.shown? id := by
  unfold shown?
  by_cases hid : ∃ o ∈ os, o.id = id
  · obtain ⟨o, ho, rfl⟩ := hid
    obtain ⟨p, hp, hmirrors₁⟩ := h₁.mirrored o ho
    obtain ⟨q, hq, hmirrors₂⟩ := h₂.mirrored o ((hmem o).1 ho)
    rw [hp, hq, Option.map_some, Option.map_some, hmirrors₁.shallow, hmirrors₂.shallow]
  · rw [h₁.find?_eq_of_ne h₂ hmem fun o ho he => hid ⟨o, ho, he⟩]

/-- **What is made of the same origins is the same.** -/
theorem Work.Makes.find?_eq (h₁ : Makes locale os ⟨found, sources₁⟩ w₁) (h₂ : Makes locale os' ⟨found, sources₂⟩ w₂)
    (hmem : ∀ o, o ∈ os ↔ o ∈ os') (hplain : ∀ o ∈ os, ∀ c ∈ o.outgoing ++ o.incoming, c.isTranslated = false)
    (id : Int) : w₁.find? id = w₂.find? id := by
  by_cases hid : ∃ o ∈ os, o.id = id
  · obtain ⟨o, ho, rfl⟩ := hid
    obtain ⟨p, hp, hmirrors₁⟩ := h₁.mirrored o ho
    obtain ⟨q, hq, hmirrors₂⟩ := h₂.mirrored o ((hmem o).1 ho)
    -- Relations are echoed by what is shown of their topics, which is settled before relations are followed.
    have hshown := h₁.shown?_eq h₂ hmem
    rw [hp, hq, Topic.eq_of_shallow (hmirrors₁.shallow.trans hmirrors₂.shallow.symm)]
    · exact eq_of_echoes hshown (fun c hc => hplain o ho c (List.mem_append_left _ hc)) hmirrors₁.outgoing
        hmirrors₂.outgoing
    · exact eq_of_echoes hshown (fun c hc => hplain o ho c (List.mem_append_right _ hc)) hmirrors₁.incoming
        hmirrors₂.incoming
  · exact h₁.find?_eq_of_ne h₂ hmem fun o ho he => hid ⟨o, ho, he⟩

end Making

/-! ## The same translations -/

/-- A store's topics are looked up the same whatever their order. -/
theorem given?_eq_some_iff (hstored : ∀ id t, stored? id = some t → t.id = id) {ids : List Int}
    (hts : ∀ t, t ∈ ts ↔ ∃ id ∈ ids, stored? id = some t) {id : Int} {t : Topic} :
    given? ts id = some t ↔ id ∈ ids ∧ stored? id = some t := by
  constructor
  · intro h
    have hself := id_of_given? h
    obtain ⟨i, hi, ht⟩ := (hts t).1 (List.mem_reverse.1 (List.mem_of_find?_eq_some h))
    rw [hstored i t ht] at hself
    subst hself
    exact ⟨hi, ht⟩
  · rintro ⟨hid, ht⟩
    have hself := hstored id t ht
    cases h : given? ts id with
    | none =>
      have hnone := List.find?_eq_none.1 h t (List.mem_reverse.2 ((hts t).2 ⟨id, hid, ht⟩))
      exact absurd (by simpa using hself) hnone
    | some u =>
      obtain ⟨i, -, hu⟩ := (hts u).1 (List.mem_reverse.1 (List.mem_of_find?_eq_some h))
      rw [← hstored i u hu, id_of_given? h, ht] at hu
      exact hu.symm

variable {σ : Type} {store : TopicStore σ} {s s' : Session σ}

/-- Topics asked for in another order end in the same work. -/
theorem find?_completed_of_perm (hstored : ∀ id t, stored? id = some t → t.id = id) (halike : AlikeCopies stored?)
    (hfound : ∀ t ∈ found, t.isTranslated = true) (hperm : required'.Perm required)
    (hts : ∀ t, t ∈ ts ↔ ∃ id ∈ missingIds found required, stored? id = some t)
    (hts' : ∀ t, t ∈ ts' ↔ ∃ id ∈ missingIds found required', stored? id = some t) (locale : String) :
    (completed found ts' required' locale).find? = (completed found ts required locale).find? := by
  have hsame : given? ts' = given? ts := by
    funext id
    refine Option.ext fun t => ?_
    rw [given?_eq_some_iff hstored hts', given?_eq_some_iff hstored hts, mem_missingIds, mem_missingIds,
      hperm.mem_iff]
  have hgiven (id : Int) (t : Topic) (h : given? ts id = some t) : stored? id = some t :=
    ((given?_eq_some_iff hstored hts).1 h).2
  obtain ⟨os, horigins, hmakes⟩ := exists_origins ts required hfound locale
  obtain ⟨os', horigins', hmakes'⟩ := exists_origins ts' required' hfound locale
  rw [hsame] at horigins'
  have hmem (o : Topic) : o ∈ os' ↔ o ∈ os :=
    ⟨mem_origins_of_perm (fun _ _ => id_of_given?) hgiven halike hperm.symm horigins' horigins o,
      mem_origins_of_perm (fun _ _ => id_of_given?) hgiven halike hperm horigins horigins' o⟩
  funext id
  exact hmakes'.find?_eq hmakes hmem (fun o ho c hc => halike.plain c (horigins'.held_copy hgiven ho hc)) id

theorem map_some_of_gives {topic? : Int → Option Topic} {ids : List Int} {topics : List Topic}
    (h : (ids.mapM (Press.present topic?)).Gives s topics s') : topics.map some = ids.map topic? := by
  rw [← List.forall₂_eq_eq_eq, List.forall₂_map_left_iff, List.forall₂_map_right_iff]
  exact h.forall₂_present.flip.imp fun _ _ => Eq.symm

/-- **The order in which translations are asked for does not show**: each topic is translated to the same one, or there
is none for it, whatever the order. -/
theorem complete_of_perm (hs : s.cancelled = false) (hserves : Serves store s.store stored?)
    (halike : AlikeCopies stored?) (hfound : ∀ t ∈ found, t.isTranslated = true) (required : List Int)
    (locale : String) : ∃ answer? : Int → Option Topic,
      (∀ id ∈ required, (∃ t ∈ found, t.sourceId = id) ∨ (∃ t, stored? id = some t) → (answer? id).isSome) ∧
      ∀ required' : List Int, required'.Perm required →
        (complete store found required' locale).failure? s
          = (required'.find? fun id => (answer? id).isNone).map Press.missingTopic ∧
        ((∀ id ∈ required, (answer? id).isSome) → ∃ answers s',
          (complete store found required' locale).Gives s answers s' ∧ answers.map some = required'.map answer?) := by
  obtain ⟨ts, -, -, hts⟩ := hserves.topics (missingIds found required)
  refine ⟨(completed found ts required locale).find?, fun id hid havailable => ?_, fun required' hperm => ?_⟩
  · obtain ⟨os, horigins, hmakes⟩ := exists_origins ts required hfound locale
    rw [← Option.not_isNone, Bool.not_eq_true', ← Bool.not_eq_true, horigins.isNone_find? hmakes hid,
      lacks_eq_true_iff]
    rintro ⟨hunknown, hsource, -⟩
    rcases havailable with ⟨t, ht, he⟩ | ⟨t, ht⟩
    · exact hunknown t ht he
    · rw [(given?_eq_some_iff hserves.id hts).2 ⟨mem_missingIds.2 ⟨hid, hunknown⟩, ht⟩] at hsource
      cases hsource
  · obtain ⟨ts', hgiven, hrunning, hts'⟩ := hserves.topics (missingIds found required')
    obtain ⟨t, -, hrun⟩ := exists_run_complete hs hgiven hrunning locale
    rw [find?_completed_of_perm hserves.id halike hfound hperm hts hts'] at hrun
    have hfailure : (complete store found required' locale).failure? s = (required'.find? fun id =>
        ((completed found ts required locale).find? id).isNone).map Press.missingTopic := by
      rw [← Press.failure?_mapM_present, Press.failure?, hrun]
      rfl
    refine ⟨hfailure, fun hall => ?_⟩
    have hnone : (required'.find? fun id => ((completed found ts required locale).find? id).isNone) = none := by
      refine List.find?_eq_none.2 fun id hid => ?_
      rw [← Option.not_isSome, hall id (hperm.mem_iff.1 hid)]
      exact Bool.false_ne_true
    rw [hnone] at hfailure
    obtain ⟨answers, s', hgives⟩ := Press.exists_gives_of_failure? hfailure
    exact ⟨answers, s', hgives, map_some_of_gives (hrun.symm.trans hgives)⟩

theorem serves_memory (st : MemoryStore) : Serves MemoryStore.store st st.topic? where
  id _ _ h := MemoryStore.id_of_topic? h
  topics ids := ⟨ids.filterMap st.topic?, rfl, rfl, fun _ => List.mem_filterMap⟩

theorem held_circle {c : Topic} (h : Held circleSession.store.topic? c) :
    c ∈ [Topic.ofText 1 "A" "<section/>", Topic.ofText 2 "B" "<section/>"] := by
  induction h with
  | @stored id t c ht hc =>
    have hmem : t ∈ circle := List.mem_of_find?_eq_some ht
    rcases List.mem_pair.1 hmem with rfl | rfl
    · rcases List.mem_pair.1 hc with rfl | rfl <;> exact List.mem_cons_of_mem _ List.mem_cons_self
    · rcases List.mem_pair.1 hc with rfl | rfl <;> exact List.mem_cons_self
  | copy _ hc ih =>
    rcases List.mem_pair.1 ih with rfl | rfl <;> exact absurd hc List.not_mem_nil

theorem alikeCopies_circle : AlikeCopies circleSession.store.topic? where
  plain c h := by
    rcases List.mem_pair.1 (held_circle h) with rfl | rfl <;> rfl
  eq c c' h h' he := by
    rcases List.mem_pair.1 (held_circle h) with rfl | rfl <;> rcases List.mem_pair.1 (held_circle h') with rfl | rfl <;>
      first
        | rfl
        | cases he

/-- The topics of a circle are translated to the same placeholders from either end. -/
theorem complete_of_perm_of_circle : circleSession.cancelled = false ∧
    Serves MemoryStore.store circleSession.store circleSession.store.topic? ∧
    AlikeCopies circleSession.store.topic? ∧ ∃ answer? : Int → Option Topic, ∀ required' : List Int,
      required'.Perm [1, 2] → ∃ answers s',
        (complete MemoryStore.store [] required' "de-DE").Gives circleSession answers s' ∧
          answers.map some = required'.map answer? := by
  refine ⟨rfl, serves_memory _, alikeCopies_circle, ?_⟩
  obtain ⟨answer?, havailable, hsame⟩ := complete_of_perm (s := circleSession) rfl (serves_memory _) alikeCopies_circle
    (fun _ h => absurd h List.not_mem_nil) [1, 2] "de-DE"
  refine ⟨answer?, fun required' hperm => (hsame required' hperm).2 fun id hid => havailable id hid (.inr ?_)⟩
  rcases List.mem_pair.1 hid with rfl | rfl <;> exact ⟨_, rfl⟩

end Translation
end Bookbinder
