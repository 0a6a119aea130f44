import Bookbinder.Proofs.BookFiles
import Bookbinder.Proofs.SettledReferences
import Mathlib.Data.List.Perm.Basic
/-!
# The outline and the files of topics agree

The chapters of a book include the files of exactly the references inside of chapters, each once and in document order,
and those files, and no others, are in the folder of the topics' files (`agrees_bind`).  This depends neither on the
store nor on what renders the pages and judges them.
-/
namespace Bookbinder

/-- Items picked out of a list whose keys differ are found again by their keys. -/
theorem filter_any_of_sublist {α κ : Type} [BEq κ] [LawfulBEq κ] {key : α → κ} {xs ys : List α} (h : xs.Sublist ys)
    (hnd : (ys.map key).Nodup) : (ys.filter fun y => xs.any fun x => key x == key y) = xs := by
  induction h with
  | slnil => rfl
  | @cons xs ys y hs ih =>
    rw [List.map_cons, List.nodup_cons] at hnd
    rw [List.filter_cons_of_neg, ih hnd.2]
    rw [List.any_eq_true]
    rintro ⟨x, hx, he⟩
    exact hnd.1 (List.mem_map.2 ⟨x, hs.mem hx, beq_iff_eq.1 he⟩)
  | @cons_cons xs ys y hs ih =>
    rw [List.map_cons, List.nodup_cons] at hnd
    have hrest : (ys.filter fun z => (y :: xs).any fun x => key x == key z)
        = ys.filter fun z => xs.any fun x => key x == key z := by
      refine List.filter_congr fun z hz => ?_
      have hne : key y ≠ key z := fun he => hnd.1 (List.mem_map.2 ⟨z, hz, he.symm⟩)
      rw [List.any_cons, beq_eq_false_iff_ne.2 hne, Bool.false_or]
    rw [List.filter_cons_of_pos (by simp), hrest, ih hnd.2]

mutual

/-- The files that a node of an outline includes, in order. -/
def OutlineNode.hrefs : OutlineNode → List String
  | .inclusion href => [href]
  | .element _ _ _ children => outlineHrefs children

def outlineHrefs : List OutlineNode → List String
  | [] => []
  | n :: ns => n.hrefs ++ outlineHrefs ns

end

theorem outlineHrefs_append (ns ms : List OutlineNode) :
    outlineHrefs (ns ++ ms) = outlineHrefs ns ++ outlineHrefs ms := by
  induction ns with
  | nil => rfl
  | cons n ns ih => rw [List.cons_append, outlineHrefs, outlineHrefs, ih, List.append_assoc]

theorem outlineHrefs_map_inclusion {α : Type} (f : α → String) (xs : List α) :
    outlineHrefs (xs.map fun x => .inclusion (f x)) = xs.map f := by
  induction xs with
  | nil => rfl
  | cons x xs ih => rw [List.map_cons, outlineHrefs, OutlineNode.hrefs, ih, List.map_cons, List.singleton_append]

theorem itemsRefs_of_not_hasRef {is : List Item} (h : ¬itemsHaveRef is = true) : itemsRefs is = [] := by
  rw [itemsHaveRef_eq] at h
  simpa using h

namespace Layout

/-! ## What is included -/

section Nodes

variable (r : Registry) (stable : Bool)

mutual

theorem hrefs_itemNodes : ∀ i : Item, outlineHrefs (itemNodes r stable i) = i.refs.map (refFile r stable)
  | .topic ref => rfl
  | .level h children => by
    unfold itemNodes Item.refs
    split
    · rw [outlineHrefs, OutlineNode.hrefs, outlineHrefs, hrefs_nodes children, List.append_nil]
    · rename_i hnone
      rw [itemsRefs_of_not_hasRef hnone]
      rfl

/-- **A chapter includes the files of its references, in document order.** -/
theorem hrefs_nodes : ∀ is : List Item, outlineHrefs (nodes r stable is) = (itemsRefs is).map (refFile r stable)
  | [] => rfl
  | i :: is => by
    unfold nodes itemsRefs
    rw [outlineHrefs_append, hrefs_itemNodes i, hrefs_nodes is, List.map_append]

end

end Nodes

theorem hrefs_topNode (stable : Bool) (l : Level) :
    (topNode stable l).hrefs = (chaptersIn l).map fun c => chapterFile stable c.heading := by
  unfold topNode chaptersIn
  split
  · exact outlineHrefs_map_inclusion _ _
  · rfl

/-- **The book includes its chapters, in book order.** -/
theorem hrefs_topNodes (stable : Bool) (root : Level) :
    outlineHrefs (topNodes stable root) = (chapters root).map fun c => chapterFile stable c.heading := by
  unfold topNodes chapters
  induction usedLevels root.children with
  | nil => rfl
  | cons l ls ih => rw [List.map_cons, outlineHrefs, hrefs_topNode, ih, List.flatMap_cons, List.map_append]

/-! ## References inside of chapters -/

/-- The references below an item, if it is a level. -/
def refsBelow : Item → List TopicRef
  | .topic _ => []
  | .level _ children => itemsRefs children

/-- The references inside of the chapters that an item directly below the book is or holds. -/
def placedIn : Item → List TopicRef
  | .topic _ => []
  | .level h children => if h.kind = .part then children.flatMap refsBelow else itemsRefs children

/-- The references inside of chapters, empty levels or not. -/
def placed (root : Level) : List TopicRef :=
  root.children.flatMap placedIn

/-- The reference that an item is. -/
def own : Item → List TopicRef
  | .topic ref => [ref]
  | .level _ _ => []

/-- The references directly at an item directly below the book: itself, or those directly in a part. -/
def looseIn : Item → List TopicRef
  | .topic ref => [ref]
  | .level h children => if h.kind = .part then children.flatMap own else []

/-- The references directly in the book or directly in one of its parts. -/
def loose (root : Level) : List TopicRef :=
  root.children.flatMap looseIn

theorem flatMap_usedLevels (is : List Item) : (usedLevels is).flatMap Level.refs = is.flatMap refsBelow := by
  fun_induction usedLevels is with
  | case1 => rfl
  | case2 ref is ih => rw [ih, List.flatMap_cons, refsBelow, List.nil_append]
  | case3 h children is hu ih => rw [List.flatMap_cons, ih, List.flatMap_cons, refsBelow, Level.refs]
  | case4 h children is hu ih =>
    rw [ih, List.flatMap_cons, refsBelow, itemsRefs_of_not_hasRef hu, List.nil_append]

theorem refs_chaptersIn (h : Heading) (children : List Item) :
    (chaptersIn ⟨h, children⟩).flatMap Level.refs = placedIn (.level h children) := by
  unfold chaptersIn placedIn
  dsimp only
  split
  · exact flatMap_usedLevels children
  · rw [List.flatMap_singleton, Level.refs]

theorem itemsRefs_eq_flatMap (is : List Item) : itemsRefs is = is.flatMap Item.refs := by
  induction is with
  | nil => rfl
  | cons i is ih => rw [itemsRefs, ih, List.flatMap_cons]

theorem flatMap_sublist {f g : Item → List TopicRef} (h : ∀ i, (f i).Sublist (g i)) (is : List Item) :
    (is.flatMap f).Sublist (is.flatMap g) := by
  induction is with
  | nil => exact .slnil
  | cons i is ih => exact (h i).append ih

theorem placedIn_sublist (i : Item) : (placedIn i).Sublist i.refs := by
  have hbelow (i : Item) : (refsBelow i).Sublist i.refs := by
    cases i with
    | topic ref => exact List.nil_sublist _
    | level h children => exact List.Sublist.refl _
  cases i with
  | topic ref => exact List.nil_sublist _
  | level h children =>
    rw [placedIn, Item.refs]
    split
    · rw [itemsRefs_eq_flatMap]
      exact flatMap_sublist hbelow children
    · exact List.Sublist.refl _

theorem placed_sublist (root : Level) : (placed root).Sublist root.refs := by
  unfold placed Level.refs
  rw [itemsRefs_eq_flatMap]
  exact flatMap_sublist placedIn_sublist root.children

theorem flatMap_perm {f g h : Item → List TopicRef} (hperm : ∀ i, (h i).Perm (f i ++ g i)) (is : List Item) :
    (is.flatMap h).Perm (is.flatMap f ++ is.flatMap g) :=
  (List.Perm.flatMap_left is fun i _ => hperm i).trans (List.flatMap_append_perm is f g).symm

/-- **Every reference is inside of a chapter, or directly in the book or in a part.** -/
theorem perm_refs (root : Level) : root.refs.Perm (placed root ++ loose root) := by
  have hown (i : Item) : i.refs.Perm (refsBelow i ++ own i) := by
    cases i with
    | topic ref => exact .refl _
    | level h children => exact .of_eq (List.append_nil _).symm
  have hin (i : Item) : i.refs.Perm (placedIn i ++ looseIn i) := by
    cases i with
    | topic ref => exact .refl _
    | level h children =>
      rw [placedIn, looseIn, Item.refs]
      split
      · rw [itemsRefs_eq_flatMap]
        exact flatMap_perm hown children
      · exact .of_eq (List.append_nil _).symm
  unfold Level.refs
  rw [itemsRefs_eq_flatMap]
  exact flatMap_perm hin root.children

/-- **What ends up in the book is what is inside of chapters.** -/
theorem outlined_eq_placed (root : Level) : outlined root = placed root := by
  have hempty {h : Heading} {children : List Item} (hu : ¬itemsHaveRef children = true) :
      placedIn (.level h children) = [] := by
    have hs := placedIn_sublist (.level h children)
    rw [Item.refs, itemsRefs_of_not_hasRef hu] at hs
    exact List.sublist_nil.1 hs
  unfold outlined chapters placed
  rw [List.flatMap_assoc]
  fun_induction usedLevels root.children with
  | case1 => rfl
  | case2 ref is ih => rw [ih, List.flatMap_cons, placedIn, List.nil_append]
  | case3 h children is hu ih => rw [List.flatMap_cons, refs_chaptersIn, ih, List.flatMap_cons]
  | case4 h children is hu ih => rw [ih, List.flatMap_cons, hempty hu, List.nil_append]

/-- **Of references with steps of their own, just those directly in the book or in a part are left out.** -/
theorem isOutlined_iff {root : Level} (hsteps : (root.refs.map (·.step)).Nodup) {ref : TopicRef} (h : ref ∈ root.refs) :
    isOutlined root ref.step = true ↔ ref ∉ loose root := by
  have hperm := perm_refs root
  have hsplit := (hperm.map TopicRef.step).nodup_iff.1 hsteps
  rw [List.map_append, List.nodup_append] at hsplit
  unfold isOutlined
  rw [outlined_eq_placed, List.any_eq_true]
  constructor
  · rintro ⟨x, hx, he⟩ hloose
    exact hsplit.2.2 x.step (List.mem_map_of_mem hx) ref.step (List.mem_map_of_mem hloose) (beq_iff_eq.1 he)
  · intro hloose
    exact ⟨ref, (List.mem_append.1 (hperm.mem_iff.1 h)).resolve_right hloose, beq_self_eq_true _⟩

end Layout

namespace Draft

/-- The registered references that end up in the book. -/
def outlinedEntries (d : Draft) : List TopicEntry :=
  d.registry.entries.filter fun e => Layout.isOutlined d.outline e.ref.step

/-- The files that the chapters include, in book order. -/
def chapterHrefs (d : Draft) : List String :=
  (Layout.chapters d.outline).flatMap fun c => outlineHrefs (Layout.nodes d.registry d.stable c.children)

/-- The file that the page of a reference is written to, within the locale's folder. -/
def hrefOf (d : Draft) (e : TopicEntry) : String :=
  Layout.topicFile (e.linkId d.stable)

/-- **Outline and files agree.** -/
structure Agrees (d : Draft) (a : Archive) : Prop where
  /-- The book includes its chapters in book order. -/
  chapters : outlineHrefs (Layout.topNodes d.stable d.outline)
    = (Layout.chapters d.outline).map fun c => Layout.chapterFile d.stable c.heading
  /-- What ends up in the book is what is inside of chapters, in document order. -/
  outlined : d.outlinedEntries.map (·.ref) = Layout.placed d.outline
  /-- What does not is directly in the book or in a part. -/
  left : ∀ e ∈ d.registry.entries, e ∈ d.outlinedEntries ↔ e.ref ∉ Layout.loose d.outline
  /-- The chapters include the files of the references that end up in the book, one after the other. -/
  hrefs : d.chapterHrefs = d.outlinedEntries.map d.hrefOf
  /-- Those are the files in the folder of the topics' files. -/
  files : ∀ path, path ∈ a.paths ∧ d.isTopicPath path = true ↔ path ∈ d.chapterHrefs.map d.localePath
  /-- No reference is pending. -/
  settled : ∀ e ∈ d.registry.entries, e.outcome ≠ .pending

variable {σ : Type} {b : Bindery σ} {d : Draft} {s s' : Session σ}

theorem outlinedEntries_refs (hrefs : d.registry.entries.map (·.ref) = d.outline.refs)
    (hsteps : (d.outline.refs.map (·.step)).Nodup) : d.outlinedEntries.map (·.ref) = Layout.placed d.outline := by
  rw [← filter_any_of_sublist (Layout.placed_sublist d.outline) hsteps, ← hrefs, List.filter_map,
    ← Layout.outlined_eq_placed]
  rfl

theorem refFile_eq (hsteps : d.registry.steps.Nodup) {e : TopicEntry} (he : e ∈ d.registry.entries) :
    Layout.refFile d.registry d.stable e.ref = d.hrefOf e := by
  have hentry : d.registry.entry? e.ref.step = some e := by
    cases h : d.registry.entry? e.ref.step with
    | none => exact absurd (beq_self_eq_true _) (List.find?_eq_none.1 h e he)
    | some x =>
      have hx : x.ref.step = e.ref.step := by simpa using List.find?_some h
      rw [eq_of_step hsteps (List.mem_of_find?_eq_some h) he hx]
  unfold Layout.refFile
  rw [hentry]
  rfl

theorem chapterHrefs_eq (hrefs : d.registry.entries.map (·.ref) = d.outline.refs)
    (hsteps : (d.outline.refs.map (·.step)).Nodup) : d.chapterHrefs = d.outlinedEntries.map d.hrefOf := by
  have houtlined : d.chapterHrefs
      = (Layout.outlined d.outline).map (Layout.refFile d.registry d.stable) := by
    unfold chapterHrefs Layout.outlined
    rw [List.map_flatMap]
    exact congrArg (List.flatMap · _) (funext fun c => Layout.hrefs_nodes _ _ c.children)
  have hnodup : d.registry.steps.Nodup := by
    rw [← hrefs, List.map_map] at hsteps
    exact hsteps
  rw [houtlined, Layout.outlined_eq_placed, ← outlinedEntries_refs hrefs hsteps, List.map_map]
  exact List.map_congr_left fun e he => refFile_eq hnodup (List.mem_filter.1 he).1

theorem exists_topicFile {preamble : String} {e : TopicEntry} (he : e.Publishable) {o : Option File}
    (hrun : (topicFile? b d preamble e).Gives s o s') : ∃ f, o = some f ∧ f.path = d.topicPath e := by
  suffices h : ∃ f, o = some f by
    obtain ⟨f, rfl⟩ := h
    exact ⟨f, rfl, path_topicFile hrun f rfl⟩
  rw [topicFile?] at hrun
  cases he with
  | valid doc outcome document =>
    simp only [outcome, document] at hrun
    exact ⟨_, hrun.pure.1⟩
  | fallback content outcome =>
    simp only [outcome] at hrun
    obtain ⟨page, -, rfl⟩ := hrun.map
    exact ⟨_, rfl⟩

theorem map_path_filterMap {es : List TopicEntry} {os : List (Option File)}
    (h : List.Forall₂ (fun e o => ∃ f, o = some f ∧ f.path = d.topicPath e) es os) :
    (os.filterMap id).map (·.path) = es.map d.topicPath := by
  induction h with
  | nil => rfl
  | cons hf _ ih =>
    obtain ⟨f, rfl, hpath⟩ := hf
    rw [List.filterMap_cons, List.map_cons, ← ih, ← hpath]
    rfl

/-- Every reference that ends up in the book gets a file, in document order. -/
theorem map_path_topicFiles (h : ∀ e ∈ d.registry.entries, e.Publishable) {fs : List File}
    (hrun : (topicFiles b d).Gives s fs s') : fs.map (·.path) = d.outlinedEntries.map d.topicPath := by
  rw [topicFiles] at hrun
  obtain ⟨preamble, s₁, -, hrun⟩ := hrun.bind
  obtain ⟨os, hos, rfl⟩ := hrun.map
  have hall : List.Forall₂ (fun e o => ∃ t t', (topicFile? b d preamble e).Gives t o t') d.outlinedEntries os :=
    hos.mapM
  refine map_path_filterMap (List.forall₂_iff_get.2 ⟨hall.length_eq, fun i hi hi' => ?_⟩)
  obtain ⟨t, t', hfile⟩ := (List.forall₂_iff_get.1 hall).2 i hi hi'
  exact exists_topicFile (h _ (List.mem_filter.1 (List.get_mem d.outlinedEntries ⟨i, hi⟩)).1) hfile

theorem mem_paths_ofFiles {fs : List File} {path : String} :
    path ∈ (Archive.ofFiles fs).paths ↔ path ∈ fs.map (·.path) := by
  unfold Archive.paths
  rw [((Archive.perm_files_ofFiles fs).map _).mem_iff, List.mem_map, List.mem_map]
  constructor
  · rintro ⟨f, hf, rfl⟩
    exact ⟨f, latestBy_subset _ _ hf, rfl⟩
  · rintro ⟨f, hf, rfl⟩
    exact exists_mem_latestBy hf

theorem agrees_of_written {images : List Image} {fs : List File} {spec : ContentSpec} (h : Bindery.Ready spec d)
    (hfs : Written b d images fs) : d.Agrees (.ofFiles fs) := by
  have hsteps : (d.outline.refs.map (·.step)).Nodup := by
    rw [← h.refs, List.map_map]
    exact h.steps.imp Nat.ne_of_lt
  have hhrefs := chapterHrefs_eq h.refs hsteps
  refine ⟨Layout.hrefs_topNodes _ _, outlinedEntries_refs h.refs hsteps, fun e he => ?_, hhrefs, fun path => ?_,
    fun e he => (h.publishable e he).ne_pending⟩
  · have href : e.ref ∈ d.outline.refs := h.refs ▸ List.mem_map_of_mem he
    rw [← Layout.isOutlined_iff hsteps href]
    exact List.mem_filter.trans (and_iff_right he)
  · obtain ⟨topics, _, _, htopics, hfilter⟩ := hfs.exists_topicFiles
    have hpaths : (fs.map (·.path)).filter d.isTopicPath = d.chapterHrefs.map d.localePath := by
      rw [List.filter_map, Function.comp_def, hfilter, map_path_topicFiles h.publishable htopics, hhrefs,
        List.map_map]
      rfl
    rw [mem_paths_ofFiles, ← hpaths, List.mem_filter]

end Draft

namespace Bindery

variable {σ : Type} {b : Bindery σ} {spec : ContentSpec} {settings : Settings} {requester : Option String}
  {s s' : Session σ}

/-- **The chapters of a book include exactly the files of its topics.** -/
theorem agrees_bind {book : Book} (hplain : b.Untranslated s)
    (hrun : (b.bind spec settings requester).Gives s book s') :
    ∃ d images t, (b.prepare spec settings requester).Gives s (d, images) t ∧ Ready spec d ∧ d.Agrees book.archive := by
  rw [bind_eq] at hrun
  obtain ⟨⟨d, images⟩, t, hprepare, hprint⟩ := hrun.bind
  unfold print at hprint
  obtain ⟨fs, t₁, hfiles, hprint⟩ := hprint.bind
  obtain ⟨_, _, -, hprint⟩ := hprint.bind
  obtain ⟨rfl, -⟩ := hprint.pure
  have hready := ready_prepare hplain hprepare
  exact ⟨d, images, t, hprepare, hready, Draft.agrees_of_written hready (Draft.written_files hfiles)⟩

/-- The topics of a store in memory are untranslated if all that it holds are. -/
theorem untranslated_memory {b : Bindery MemoryStore} (hstore : b.store = MemoryStore.store)
    {s : Session MemoryStore} (h : ∀ t ∈ s.store.topics, t.translation = none) : b.Untranslated s := by
  intro ids ts hts t ht
  rw [hstore] at hts
  cases hts
  obtain ⟨id, -, hid⟩ := List.mem_filterMap.1 ht
  exact h t (List.mem_of_find?_eq_some hid)

/-- A book with a part, references outside of all chapters, an empty section and repeats. -/
def mixedSpec : ContentSpec :=
  sampleSpec [
    .topic (.ofTopic 1 "A"),
    .level { kind := .part, title := "Basics" } [
      .topic (.ofTopic 2 "B"),
      .level { kind := .chapter, title := "First" } [
        .level { kind := .division, title := "Nothing" } [],
        .level { kind := .division, title := "Inner" } [.topic (.ofTopic 2 "B")],
        .topic (.ofTopic 1 "A")]],
    .level { kind := .chapter, title := "Second" } [.topic (.ofTopic 2 "B")]]

/-- A store of two topics without any markers. -/
def mixedSession : Session MemoryStore :=
  sampleSession "<section><para>a</para></section>" "<section><para>b</para></section>"

/-- In such a book two references are left out, and the others are included and written in document order. -/
theorem agrees_mixed : ∃ book d images s' t,
    (sample.bind mixedSpec sampleSettings none).Gives mixedSession book s' ∧
    (sample.prepare mixedSpec sampleSettings none).Gives mixedSession (d, images) t ∧
    d.chapterHrefs = ["topics/B-1.xml", "topics/A-1.xml", "topics/B-2.xml"] ∧ Ready mixedSpec d ∧
    d.Agrees book.archive := by
  have hplain : sample.Untranslated mixedSession := untranslated_memory rfl (by decide +kernel)
  have hruns : ∃ book d images s' t, (sample.bind mixedSpec sampleSettings none).Gives mixedSession book s' ∧
      (sample.prepare mixedSpec sampleSettings none).Gives mixedSession (d, images) t ∧
      d.chapterHrefs = ["topics/B-1.xml", "topics/A-1.xml", "topics/B-2.xml"] ∧ True :=
    exists_bound (P := fun d => d.chapterHrefs = ["topics/B-1.xml", "topics/A-1.xml", "topics/B-2.xml"])
      (Q := fun _ _ => True) (by decide +kernel)
  obtain ⟨book, d, images, s', t, hbind, hprepare, hhrefs, -⟩ := hruns
  obtain ⟨d', images', t', hprepare', hready, hagrees⟩ := agrees_bind hplain hbind
  cases (hprepare.unique hprepare').1
  exact ⟨book, d, images, s', t, hbind, hprepare, hhrefs, hready, hagrees⟩

end Bindery
end Bookbinder
