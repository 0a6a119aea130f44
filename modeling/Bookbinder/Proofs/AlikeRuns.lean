import Bookbinder.Proofs.FinishedBuilds
/-!
# Runs that are alike

Two builds that are made with alike binderies are alike themselves, whatever that means: `Bindery.Alike R b b'` says
that their pages and their calls for what goes into a book besides its topics are related by `R`, and that `R` passes
from steps to what is made of them.  All that is left to do once there is a draft is then related by `R` as well
(`alike_finish`), and so is looking for addresses (`Address.alike_find`).  With one bindery on both sides, `R` is a
property of runs.
-/
namespace Bookbinder

variable {σ τ α β : Type}

/-- A relation of runs that passes from the steps of runs to the runs. -/
structure Press.Congruence (R : ∀ α : Type, Press σ α → Press τ α → Prop) : Prop where
  pure {α : Type} (a : α) : R α (Pure.pure a) (Pure.pure a)
  check : R Unit Press.check Press.check
  bind {α β : Type} {p : Press σ α} {q : Press τ α} {f : α → Press σ β} {g : α → Press τ β} : R α p q →
    (∀ a, R β (f a) (g a)) → R β (p >>= f) (q >>= g)

/-- Binderies for books of one time, with pages and calls that are related. -/
structure Bindery.Alike (R : ∀ α : Type, Press σ α → Press τ α → Prop) (b : Bindery σ) (b' : Bindery τ) : Prop
    extends Press.Congruence R where
  now : b.now = b'.now
  page (page : Template.PageName) (c : Template.Context) :
    R String (Press.render b.renderer page c) (Press.render b'.renderer page c)
  text (id : Int) : R String (Press.ask (b.store.text id)) (Press.ask (b'.store.text id))
  blob (id : Int) : R ByteArray (Press.ask (b.store.blob id)) (Press.ask (b'.store.blob id))
  image (id : Int) : R (Option ByteArray) (Press.ask (b.store.image id)) (Press.ask (b'.store.image id))
  author (id : Int) : R (Option Author) (Press.ask (b.store.author id)) (Press.ask (b'.store.author id))
  tagsNamed (name : String) :
    R (List Tag) (Press.ask (b.store.tagsNamed name)) (Press.ask (b'.store.tagsNamed name))

variable {R : ∀ α : Type, Press σ α → Press τ α → Prop}

namespace Press.Congruence

theorem map (hR : Congruence R) {p : Press σ α} {q : Press τ α} (h : R α p q) (f : α → β) :
    R β (p >>= fun a => Pure.pure (f a)) (q >>= fun a => Pure.pure (f a)) :=
  hR.bind h fun a => hR.pure (f a)

theorem mapM (hR : Congruence R) {f : α → Press σ β} {g : α → Press τ β} (h : ∀ a, R β (f a) (g a)) :
    ∀ xs : List α, R (List β) (xs.mapM f) (xs.mapM g)
  | [] => by
    rw [List.mapM_nil, List.mapM_nil]
    exact hR.pure []
  | x :: xs => by
    rw [List.mapM_cons, List.mapM_cons]
    exact hR.bind (h x) fun y => hR.map (mapM hR h xs) _

theorem foldlM (hR : Congruence R) {f : β → α → Press σ β} {g : β → α → Press τ β} (h : ∀ b x, R β (f b x) (g b x)) :
    ∀ (xs : List α) (b : β), R β (xs.foldlM f b) (xs.foldlM g b)
  | [], b => hR.pure b
  | x :: xs, b => by
    rw [List.foldlM_cons, List.foldlM_cons]
    exact hR.bind (h b x) fun c => foldlM hR h xs c

end Press.Congruence

namespace Address

/-! ## Looking for addresses -/

variable (store : TopicStore σ) (store' : TopicStore τ)

theorem alike_isTaken (hR : Press.Congruence R) (hask : ∀ address, R (List Int)
    (Press.ask (store.withProperty PropertyId.address address))
    (Press.ask (store'.withProperty PropertyId.address address))) (used : List String) (id : Int) (address : String) :
    R Bool (isTaken store used id address) (isTaken store' used id address) := by
  unfold isTaken
  split
  · exact hR.pure true
  · exact hR.map (hask address) _

theorem alike_probe (hR : Press.Congruence R) (hask : ∀ address, R (List Int)
    (Press.ask (store.withProperty PropertyId.address address))
    (Press.ask (store'.withProperty PropertyId.address address))) (used : List String) (t : Topic) :
    ∀ more number : Nat, R String (probe store used t number more) (probe store' used t number more)
  | 0, number => hR.map (alike_isTaken store store' hR hask used t.id _) _
  | more + 1, number => by
    refine hR.bind (alike_isTaken store store' hR hask used t.id _) fun taken => ?_
    split
    · exact alike_probe hR hask used t more (number + 1)
    · exact hR.pure _

/-- **Addresses are found alike where it is alike to ask for them.** -/
theorem alike_find (hR : Press.Congruence R) (hask : ∀ address, R (List Int)
    (Press.ask (store.withProperty PropertyId.address address))
    (Press.ask (store'.withProperty PropertyId.address address))) (attempts : Nat) :
    ∀ (ts : List Topic) (used : List String), R (List Grant) (find store attempts ts used) (find store' attempts ts used)
  | [], _ => hR.pure []
  | t :: ts, used => by
    unfold find
    refine hR.bind hR.check fun _ => ?_
    split
    · exact alike_find hR hask attempts ts used
    · refine hR.bind (alike_probe store store' hR hask used t attempts 0) fun address => ?_
      exact hR.map (alike_find hR hask attempts ts (address :: used)) _

theorem alike_attempt (hR : Press.Congruence R) (hask : ∀ address, R (List Int)
    (Press.ask (store.withProperty PropertyId.address address))
    (Press.ask (store'.withProperty PropertyId.address address)))
    (hupdate : ∀ us, R Unit (Press.ask (store.update us)) (Press.ask (store'.update us))) (attempts : Nat)
    (topics : List Topic) : R (List Topic) (attempt store attempts topics) (attempt store' attempts topics) := by
  unfold attempt
  refine hR.bind (alike_find store store' hR hask attempts topics _) fun grants => ?_
  dsimp only
  split
  · exact hR.map (hupdate _) _
  · exact hR.pure _

end Address

namespace Draft

variable {b : Bindery σ} {b' : Bindery τ}

/-! ## The passes over a draft -/

theorem alike_readTopic (h : b.Alike R b') (d : Draft) (t : Topic) : R _ (readTopic b d t) (readTopic b' d t) := by
  unfold readTopic
  refine h.bind h.check fun _ => ?_
  split
  · exact h.map (h.page _ _) _
  · exact h.map (h.page _ _) _
  · exact h.pure _

theorem alike_readTopics (h : b.Alike R b') (d : Draft) : R _ (d.readTopics b) (d.readTopics b') :=
  h.foldlM (alike_readTopic h) _ d

theorem alike_refuse (h : b.Alike R b') (d : Draft) (page : Template.PageName) (ref : TopicRef) (t : Topic)
    (c : Template.Context) : R _ (refuse b d page ref t c) (refuse b' d page ref t c) :=
  h.map (h.page _ _) _

theorem alike_typeset (h : b.Alike R b') (dtd : String) (d : Draft) (ref : TopicRef) (t : Topic) (i : Injected) :
    R _ (typeset b dtd d ref t i) (typeset b' dtd d ref t i) := by
  unfold typeset
  split
  · refine h.bind (h.page _ _) fun page => ?_
    cases judge d.validator dtd page with
    | mk judged validator =>
      cases judged with
      | ok doc => exact h.bind h.check fun _ => h.pure _
      | error failure => exact alike_refuse h _ _ _ _ _
  · exact alike_refuse h _ _ _ _ _

theorem alike_processEntry (h : b.Alike R b') (dtd : String) (d : Draft) (e : TopicEntry) :
    R _ (processEntry b dtd d e) (processEntry b' dtd d e) := by
  unfold processEntry
  split
  · exact h.pure _
  · dsimp only
    split
    · exact h.pure _
    · exact alike_typeset h dtd _ _ _ _

theorem alike_processStep (h : b.Alike R b') (dtd : String) (d : Draft) (step : Nat) :
    R _ (processStep b dtd d step) (processStep b' dtd d step) := by
  unfold processStep
  refine h.bind h.check fun _ => ?_
  split
  · exact alike_processEntry h dtd d _
  · exact h.pure _

theorem alike_processReferences (h : b.Alike R b') (d : Draft) :
    R _ (d.processReferences b) (d.processReferences b') :=
  h.bind (h.blob _) fun _ => h.foldlM (alike_processStep h _) _ _

theorem alike_findImage (h : b.Alike R b') (d : Draft) (r : ImageRef) : R _ (findImage b d r) (findImage b' d r) := by
  unfold findImage
  split
  · exact h.pure _
  · refine h.bind (h.image _) fun bytes => ?_
    split <;> exact h.pure _

theorem alike_loadImage (h : b.Alike R b') (placeholder : ByteArray) (d : Draft) (images : List Image)
    (r : ImageRef) : R _ (loadImage b placeholder d images r) (loadImage b' placeholder d images r) := by
  unfold loadImage
  refine h.bind h.check fun _ => h.bind (alike_findImage h d r) fun p => ?_
  dsimp only
  split <;> exact h.pure _

theorem alike_collectImages (h : b.Alike R b') (d : Draft) : R _ (d.collectImages b) (d.collectImages b') := by
  unfold collectImages
  dsimp only
  split
  · exact h.pure _
  · refine h.bind (h.blob _) fun placeholder => h.foldlM (fun p r => ?_) _ _
    exact alike_loadImage h placeholder p.1 p.2 r

/-! ## The files -/

theorem alike_renderFile (h : b.Alike R b') (d : Draft) (file : String) (page : Template.PageName)
    (c : Template.Context) : R _ (renderFile b d file page c) (renderFile b' d file page c) :=
  h.map (h.page _ _) _

theorem alike_knownAuthors (h : b.Alike R b') : ∀ ids : List Int, R _ (knownAuthors b ids) (knownAuthors b' ids)
  | [] => h.pure _
  | id :: ids => by
    unfold knownAuthors
    exact h.bind (h.author id) fun author => h.map (alike_knownAuthors h ids) _

theorem alike_firstAuthor (h : b.Alike R b') : ∀ tags : List Tag, R _ (firstAuthor b tags) (firstAuthor b' tags)
  | [] => h.pure _
  | tag :: tags => by
    unfold firstAuthor
    refine h.bind (h.author tag.id) fun author => ?_
    split
    · exact h.pure _
    · exact alike_firstAuthor h tags

theorem alike_reviser (h : b.Alike R b') (d : Draft) : R _ (reviser b d) (reviser b' d) := by
  unfold reviser
  split
  · exact h.pure _
  · refine h.bind (h.tagsNamed _) fun tags => h.bind (alike_firstAuthor h tags) fun author => ?_
    split <;> exact h.pure _

theorem alike_textAsset (h : b.Alike R b') (d : Draft) (id : Int) (file : String) :
    R _ (textAsset b d id file) (textAsset b' d id file) :=
  h.map (h.text id) _

theorem alike_blobAsset (h : b.Alike R b') (d : Draft) (id : Int) (file : String) :
    R _ (blobAsset b d id file) (blobAsset b' d id file) :=
  h.map (h.blob id) _

theorem alike_assets (h : b.Alike R b') (d : Draft) : R _ (assets b d) (assets b' d) := by
  unfold assets
  refine h.bind (alike_textAsset h d _ _) fun icon => ?_
  split
  · exact h.bind (h.mapM (fun asset => alike_textAsset h d _ _) _) fun texts =>
      h.map (h.mapM (fun asset => alike_blobAsset h d _ _) _) _
  · exact h.pure _

theorem date_alike (h : b.Alike R b') (d : Draft) : date b d = date b' d := by
  unfold date
  rw [h.now]

theorem alike_frontMatter (h : b.Alike R b') (d : Draft) : R _ (frontMatter b d) (frontMatter b' d) := by
  have hconfig : R _ (publicanConfig b d) (publicanConfig b' d) := h.map (h.text _) _
  have hauthors : R _ (authorGroup b d) (authorGroup b' d) :=
    h.bind (alike_knownAuthors h d.writerTags) fun authors => alike_renderFile h d _ _ _
  have hhistory : R _ (revisionHistory b d) (revisionHistory b' d) := by
    unfold revisionHistory
    rw [date_alike h]
    exact h.bind (alike_reviser h d) fun author => alike_renderFile h d _ _ _
  have hentities : R _ (entities b d) (entities b' d) := by
    unfold entities
    rw [date_alike h]
    exact alike_renderFile h d _ _ _
  unfold frontMatter
  exact h.bind hconfig fun _ => h.bind (alike_renderFile h d _ _ _) fun _ => h.bind hauthors fun _ =>
    h.bind (alike_renderFile h d _ _ _) fun _ => h.bind hhistory fun _ => h.bind hentities fun _ =>
    h.map (alike_assets h d) _

theorem alike_problemChapters (h : b.Alike R b') (d : Draft) : R _ (problemChapters b d) (problemChapters b' d) := by
  have hchapter : R _ (problemChapter b d) (problemChapter b' d) := h.map (h.page _ _) _
  unfold problemChapters
  split
  · exact h.pure _
  · exact h.map hchapter _

theorem alike_specAppendices (h : b.Alike R b') (d : Draft) : R _ (specAppendices b d) (specAppendices b' d) := by
  have happendix : R _ (specAppendix b d) (specAppendix b' d) := h.map (h.page _ _) _
  unfold specAppendices
  split
  · exact h.pure _
  · exact h.map happendix _

theorem alike_topicFile (h : b.Alike R b') (d : Draft) (preamble : String) (e : TopicEntry) :
    R _ (topicFile? b d preamble e) (topicFile? b' d preamble e) := by
  unfold topicFile?
  dsimp only
  split
  · exact h.pure _
  · exact h.map (h.page _ _) _
  · exact h.pure _

theorem alike_topicFiles (h : b.Alike R b') (d : Draft) : R _ (topicFiles b d) (topicFiles b' d) := by
  unfold topicFiles
  exact h.bind (h.page _ _) fun preamble => h.map (h.mapM (alike_topicFile h d preamble) _) _

theorem alike_files (h : b.Alike R b') (d : Draft) (images : List Image) :
    R _ (d.files b images) (d.files b' images) := by
  unfold files
  exact h.bind h.check fun _ => h.bind (alike_frontMatter h d) fun _ => h.bind (alike_problemChapters h d) fun _ =>
    h.bind h.check fun _ => h.bind (h.mapM (fun l => alike_renderFile h d _ _ _) _) fun _ =>
    h.bind (alike_topicFiles h d) fun _ => h.bind (alike_specAppendices h d) fun _ =>
    h.map (alike_renderFile h d _ _ _) _

end Draft

namespace Bindery

variable {b : Bindery σ} {b' : Bindery τ}

theorem alike_print (h : b.Alike R b') (p : Draft × List Image) : R _ (b.print p) (b'.print p) :=
  h.bind (Draft.alike_files h p.1 p.2) fun _ => h.bind h.check fun _ => h.pure _

/-- **Alike binderies make alike books of a draft.** -/
theorem alike_finish (h : b.Alike R b') (d : Draft) : R _ (b.finish d) (b'.finish d) :=
  h.bind (Draft.alike_readTopics h d) fun d₁ => h.bind (Draft.alike_processReferences h d₁) fun d₂ =>
    h.bind (Draft.alike_collectImages h d₂) fun p => alike_print h p

end Bindery
end Bookbinder
