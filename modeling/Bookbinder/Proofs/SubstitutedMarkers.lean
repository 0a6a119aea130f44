import Bookbinder.Proofs.LinkSources
/-!
# Topics with their markers substituted

Substituting the markers of a topic splices nodes in for comments and leaves everything else as it is
(`Xml.nodesReplaceComments_eq`).  What takes the place of a marker, and what is reported of all of them, is told by the
ids that resolve alone: where missing injections are an error (`process_strict`), and where they are tolerated
(`process_tolerant`).
-/
namespace Bookbinder

namespace Xml

/-! ## Splicing nodes in for comments -/

mutual

/-- A node with nodes in place of the comments that there are any for.  Those nodes are not looked into. -/
def Node.splice (g : String → Option (List Node)) : Node → List Node
  | .comment body => (g body).getD [.comment body]
  | .element name attributes children => [.element name attributes (nodesSplice g children)]
  | n => [n]

def nodesSplice (g : String → Option (List Node)) : List Node → List Node
  | [] => []
  | n :: ns => n.splice g ++ nodesSplice g ns

end

def Element.splice (g : String → Option (List Node)) (e : Element) : Element :=
  ⟨e.name, e.attributes, nodesSplice g e.children⟩

section Congruence

variable {g g' : String → Option (List Node)}

mutual

theorem Node.splice_congr : ∀ {n : Node}, (∀ body ∈ n.comments, g body = g' body) → n.splice g = n.splice g'
  | .comment body, h => by rw [Node.splice, Node.splice, h body List.mem_cons_self]
  | .element _ _ children, h => by rw [Node.splice, Node.splice, nodesSplice_congr h]
  | .text _, _ => rfl
  | .cdata _, _ => rfl
  | .instruction _, _ => rfl

theorem nodesSplice_congr : ∀ {ns : List Node}, (∀ body ∈ nodesComments ns, g body = g' body) →
    nodesSplice g ns = nodesSplice g' ns
  | [], _ => rfl
  | n :: ns, h => by
    rw [nodesSplice, nodesSplice, Node.splice_congr fun body hbody => h body (List.mem_append_left _ hbody),
      nodesSplice_congr fun body hbody => h body (List.mem_append_right _ hbody)]

end

/-- Only what there is for the comments of an element matters. -/
theorem Element.splice_congr {e : Element} (h : ∀ body ∈ e.comments, g body = g' body) : e.splice g = e.splice g' := by
  rw [Element.splice, Element.splice, nodesSplice_congr h]

end Congruence

section Replacing

variable {σ : Type} {f : String → σ → Option (List Node) × σ} {g : String → Option (List Node)}

mutual

theorem Node.replaceComments_eq (hf : ∀ body s, (f body s).1 = g body) : ∀ (n : Node) (s : σ),
    n.replaceComments f s = (n.splice g, n.comments.foldl (fun s body => (f body s).2) s)
  | .comment body, s => by
    rw [Node.replaceComments, Node.splice, ← hf body s, Node.comments]
    split
    · rename_i h
      rw [List.foldl_cons, List.foldl_nil, h, Option.getD_some]
    · rename_i h
      rw [List.foldl_cons, List.foldl_nil, h, Option.getD_none]
  | .element name attributes children, s => by
    rw [Node.replaceComments, nodesReplaceComments_eq hf children s, Node.splice, Node.comments]
  | .text _, _ => rfl
  | .cdata _, _ => rfl
  | .instruction _, _ => rfl

/-- **Replacing comments splices nodes in and hands the state on from comment to comment**, if what takes the place of a
comment does not depend on the state. -/
theorem nodesReplaceComments_eq (hf : ∀ body s, (f body s).1 = g body) : ∀ (ns : List Node) (s : σ),
    nodesReplaceComments f ns s = (nodesSplice g ns, (nodesComments ns).foldl (fun s body => (f body s).2) s)
  | [], _ => rfl
  | n :: ns, s => by
    rw [nodesReplaceComments, Node.replaceComments_eq hf n s]
    dsimp only
    rw [nodesReplaceComments_eq hf ns, nodesSplice, nodesComments, List.foldl_append]

end

end Replacing

end Xml

namespace Injection

open Xml (Element Node)

/-! ## Ascending ids -/

theorem mem_insertId {id i : Int} {ids : List Int} : i ∈ insertId id ids ↔ i = id ∨ i ∈ ids := by
  fun_induction insertId id ids with
  | case1 => simp
  | case2 => simp
  | case3 => simp
  | case4 j js _ _ ih => rw [List.mem_cons, ih, List.mem_cons, or_left_comm]

theorem pairwise_insertId {id : Int} {ids : List Int} (h : ids.Pairwise (· < ·)) :
    (insertId id ids).Pairwise (· < ·) := by
  fun_induction insertId id ids with
  | case1 => exact List.pairwise_singleton _ _
  | case2 j js hlt =>
    refine List.pairwise_cons.2 ⟨List.forall_mem_cons.2 ⟨hlt, fun i hi => ?_⟩, h⟩
    exact Int.lt_trans hlt ((List.pairwise_cons.1 h).1 i hi)
  | case3 => exact h
  | case4 j js hlt hne ih =>
    obtain ⟨hj, hjs⟩ := List.pairwise_cons.1 h
    refine List.pairwise_cons.2 ⟨fun i hi => ?_, ih hjs⟩
    rcases mem_insertId.1 hi with rfl | hi
    · omega
    · exact hj i hi

/-- Ids in ascending order, each once. -/
def ascending (ids : List Int) : List Int :=
  ids.foldl (fun is id => insertId id is) []

theorem foldl_insertId {ids start : List Int} (h : start.Pairwise (· < ·)) :
    (ids.foldl (fun is id => insertId id is) start).Pairwise (· < ·) ∧
      ∀ i, i ∈ ids.foldl (fun is id => insertId id is) start ↔ i ∈ start ∨ i ∈ ids := by
  induction ids generalizing start with
  | nil => exact ⟨h, by simp⟩
  | cons id ids ih =>
    have hinsert : (insertId id start).Pairwise (· < ·) := pairwise_insertId h
    obtain ⟨hsorted, hmem⟩ := ih hinsert
    refine ⟨hsorted, fun i => ?_⟩
    rw [List.foldl_cons, hmem, mem_insertId, List.mem_cons, or_assoc, or_left_comm]

theorem pairwise_ascending (ids : List Int) : (ascending ids).Pairwise (· < ·) :=
  (foldl_insertId .nil).1

theorem mem_ascending {ids : List Int} {i : Int} : i ∈ ascending ids ↔ i ∈ ids := by
  rw [ascending, (foldl_insertId .nil).2]
  simp

/-! ## Resolved ids -/

section Resolving

variable (targets : LinkTargets) (t : Topic)

/-- An id that a marker of a kind names is resolved: the topic is related to it, and a link finds it in what is built. -/
def Resolves (kind : MarkerKind) (id : MarkerId) : Prop :=
  (∃ r ∈ t.outgoing, r.sourceId = id.topicId) ∧ (kind.isLink = true → targets.contains id.topicId = true)

instance (kind : MarkerKind) (id : MarkerId) : Decidable (Resolves targets t kind id) :=
  inferInstanceAs (Decidable (_ ∧ _))

/-- All ids of a marker are resolved. -/
def Settled (m : Marker) : Prop :=
  ∀ id ∈ m.ids, Resolves targets t m.kind id

instance (m : Marker) : Decidable (Settled targets t m) :=
  inferInstanceAs (Decidable (∀ id ∈ m.ids, _))

/-- The ids of a marker that are not resolved. -/
def missing (m : Marker) : List MarkerId :=
  m.ids.filter fun id => ¬ Resolves targets t m.kind id

/-- The ids that are not resolved among those that markers of some kinds name, in document order. -/
def unresolved (kinds : MarkerKind → Bool) (ms : List Marker) : List MarkerId :=
  (ms.filter fun m => kinds m.kind).flatMap (missing targets t)

/-- What takes the place of a comment.  A marker gives way to what it asks for of its resolved ids, if there are no
others or others are tolerated. -/
def stead? (tolerant : Bool) (body : String) : Option (List Node) :=
  (Marker.read? body).bind fun m =>
    if tolerant ∨ Settled targets t m then some (nodes targets m.kind (resolved targets t m)) else none

end Resolving

variable {targets : LinkTargets} {t : Topic}

theorem isNone_resolve? {kind : MarkerKind} {id : MarkerId} :
    (resolve? targets t kind id).isNone = true ↔ ¬ Resolves targets t kind id := by
  have hrelated : (t.related? id.topicId).isNone = true ↔ ¬ ∃ r ∈ t.outgoing, r.sourceId = id.topicId := by
    rw [Topic.related?, Option.isNone_iff_eq_none, List.find?_eq_none]
    simp
  rw [Resolves, resolve?]
  cases kind.isLink <;> cases targets.contains id.topicId <;> simp [hrelated]

theorem missing_eq_nil_iff {m : Marker} : missing targets t m = [] ↔ Settled targets t m := by
  simp [missing, Settled, List.filter_eq_nil_iff]

theorem unresolved_eq_nil_iff {kinds : MarkerKind → Bool} {ms : List Marker} :
    unresolved targets t kinds ms = [] ↔ ∀ m ∈ ms, kinds m.kind = true → Settled targets t m := by
  rw [unresolved, List.flatMap_eq_nil_iff]
  simp only [missing_eq_nil_iff, List.mem_filter, and_imp]

/-! ## What markers add up to -/

theorem Unresolved.add_eq (u : Unresolved) (kind : MarkerKind) (ids : List MarkerId) : u.add kind ids =
    ⟨u.links ++ (if kind.isLink then ids else []), u.texts ++ (if kind == .text then ids else []),
      u.titles ++ (if kind == .title then ids else [])⟩ := by
  cases kind <;> simp [Unresolved.add, MarkerKind.isLink]

/-- **What one marker does**: it gives way unless there is an id to complain about, and is tallied in any case. -/
theorem substitute_eq (tolerant : Bool) (m : Marker) (tally : Tally) : substitute targets tolerant t m tally =
    (if tolerant ∨ Settled targets t m then some (nodes targets m.kind (resolved targets t m)) else none,
      ⟨(if m.kind.isLink then m.topicIds else []).foldl (fun is id => insertId id is) tally.claimed,
        tally.unresolved.add m.kind (missing targets t m)⟩) := by
  have hmissing : (m.ids.filter fun id => (resolve? targets t m.kind id).isNone) = missing targets t m := by
    rw [missing]
    exact List.filter_congr fun id _ => by rw [Bool.eq_iff_iff, isNone_resolve?, decide_eq_true_iff]
  have hclaimed : (if m.kind.isLink then m.topicIds.foldl (fun is id => insertId id is) tally.claimed else tally.claimed)
      = (if m.kind.isLink then m.topicIds else []).foldl (fun is id => insertId id is) tally.claimed := by
    split <;> rfl
  have hstays : ((!(missing targets t m).isEmpty && !tolerant) = true) ↔ ¬ (tolerant ∨ Settled targets t m) := by
    rw [← missing_eq_nil_iff]
    cases tolerant <;> simp
  rw [substitute, hmissing, hclaimed]
  by_cases hshown : (tolerant : Prop) ∨ Settled targets t m
  · rw [if_neg (by rw [hstays]; exact not_not_intro hshown), if_pos hshown]
    rfl
  · rw [if_pos (hstays.2 hshown), if_neg hshown]

theorem stead?_eq (tolerant : Bool) (body : String) :
    stead? targets t tolerant body = (Marker.read? body).bind (replacement? targets tolerant t) := by
  rw [stead?]
  refine Option.bind_congr fun m _ => ?_
  rw [replacement?, substitute_eq]

/-- What has been gathered once markers have been seen: the ids of links, and the unresolved ids of each bucket. -/
def tallyOf (targets : LinkTargets) (t : Topic) (ms : List Marker) : Tally :=
  ⟨ascending ((ms.filter fun m => m.kind.isLink).flatMap Marker.topicIds),
    ⟨unresolved targets t MarkerKind.isLink ms, unresolved targets t (· == .text) ms,
      unresolved targets t (· == .title) ms⟩⟩

theorem foldl_substitute (tolerant : Bool) (ms : List Marker) (tally : Tally) :
    ms.foldl (fun tally m => (substitute targets tolerant t m tally).2) tally =
      ⟨((ms.filter fun m => m.kind.isLink).flatMap Marker.topicIds).foldl (fun is id => insertId id is) tally.claimed,
        ⟨tally.unresolved.links ++ unresolved targets t MarkerKind.isLink ms,
          tally.unresolved.texts ++ unresolved targets t (· == .text) ms,
          tally.unresolved.titles ++ unresolved targets t (· == .title) ms⟩⟩ := by
  have hcons (kinds : MarkerKind → Bool) (m : Marker) (ms : List Marker) : unresolved targets t kinds (m :: ms)
      = (if kinds m.kind then missing targets t m else []) ++ unresolved targets t kinds ms := by
    rw [unresolved, unresolved, List.filter_cons]
    split <;> rfl
  have hlinks (m : Marker) (ms : List Marker) : ((m :: ms).filter fun m => m.kind.isLink).flatMap Marker.topicIds
      = (if m.kind.isLink then m.topicIds else []) ++ (ms.filter fun m => m.kind.isLink).flatMap Marker.topicIds := by
    rw [List.filter_cons]
    split <;> rfl
  induction ms generalizing tally with
  | nil => simp [unresolved]
  | cons m ms ih =>
    rw [List.foldl_cons, ih, substitute_eq, Unresolved.add_eq]
    simp only [hcons, hlinks, List.foldl_append, List.append_assoc]

/-- **All markers together** leave a tally of the markers, in document order. -/
theorem foldl_atComment (tolerant : Bool) (root : Element) :
    root.comments.foldl (fun tally body => (atComment targets tolerant t body tally).2) {}
      = tallyOf targets t (markers root) := by
  have hmarkers (bodies : List String) (tally : Tally) :
      bodies.foldl (fun tally body => (atComment targets tolerant t body tally).2) tally
        = (bodies.filterMap Marker.read?).foldl (fun tally m => (substitute targets tolerant t m tally).2) tally := by
    rw [List.foldl_filterMap]
    congr 1
    funext tally body
    rw [atComment]
    cases Marker.read? body <;> rfl
  rw [hmarkers, ← markers, foldl_substitute]
  simp [tallyOf, ascending]

/-- **A topic with its markers substituted** is what it was with nodes spliced in, and the report is on their tally. -/
theorem process_eq (targets : LinkTargets) (tolerant : Bool) (t : Topic) (root : Element) : process targets tolerant t root
    = (root.splice (stead? targets t tolerant), (tallyOf targets t (markers root)).report tolerant) := by
  have hstead (body : String) (tally : Tally) :
      (atComment targets tolerant t body tally).1 = stead? targets t tolerant body := by
    rw [fst_atComment, stead?_eq]
  have hroot : process targets tolerant t root = (⟨root.name, root.attributes,
      (Xml.nodesReplaceComments (atComment targets tolerant t) root.children {}).1⟩,
      ((Xml.nodesReplaceComments (atComment targets tolerant t) root.children {}).2).report tolerant) := rfl
  rw [hroot, Xml.nodesReplaceComments_eq (g := stead? targets t tolerant) hstead, ← foldl_atComment tolerant root]
  rfl

/-! ## Reports -/

/-- What is said about ids, if there are any. -/
def complaint (say : List MarkerId → String) (ids : List MarkerId) : List String :=
  if ids = [] then [] else [say ids]

theorem complaint_eq_nil_iff {say : List MarkerId → String} {ids : List MarkerId} : complaint say ids = [] ↔ ids = [] := by
  rw [complaint]
  split <;> simp [*]

/-- The messages about unresolved ids that pass a test: about links, about texts and about titles. -/
def complaints (targets : LinkTargets) (t : Topic) (ms : List Marker) (counts : MarkerId → Bool) : List String :=
  complaint linksMessage ((unresolved targets t MarkerKind.isLink ms).filter counts)
    ++ complaint textsMessage ((unresolved targets t (· == .text) ms).filter counts)
    ++ complaint titlesMessage ((unresolved targets t (· == .title) ms).filter counts)

theorem messages_tallyOf (ms : List Marker) (counts : MarkerId → Bool) :
    (tallyOf targets t ms).unresolved.messages counts = complaints targets t ms counts := by
  have hsaid (buckets : List (List MarkerId × (List MarkerId → String))) :
      (buckets.filterMap fun b => if (b.1.filter counts).isEmpty then none else some (b.2 (b.1.filter counts)))
      = buckets.flatMap fun b => complaint b.2 (b.1.filter counts) := by
    induction buckets with
    | nil => rfl
    | cons b buckets ih =>
      rw [List.filterMap_cons, List.flatMap_cons, ih]
      by_cases hnone : b.1.filter counts = []
      · simp only [hnone, complaint, List.isEmpty_nil, if_true, List.nil_append]
      · simp only [List.isEmpty_iff, hnone, complaint, if_false, List.singleton_append]
  refine (hsaid _).trans ?_
  simp only [complaints, List.flatMap_cons, List.flatMap_nil, List.append_nil, List.append_assoc]
  rfl

theorem complaints_true (ms : List Marker) : complaints targets t ms (fun _ => true)
    = complaint linksMessage (unresolved targets t MarkerKind.isLink ms)
      ++ complaint textsMessage (unresolved targets t (· == .text) ms)
      ++ complaint titlesMessage (unresolved targets t (· == .title) ms) := by
  simp only [complaints, List.filter_true]

/-- There is something to say exactly if some id of some marker is not resolved. -/
theorem complaints_true_eq_nil_iff {ms : List Marker} :
    complaints targets t ms (fun _ => true) = [] ↔ ∀ m ∈ ms, Settled targets t m := by
  simp only [complaints_true, List.append_eq_nil_iff, complaint_eq_nil_iff, unresolved_eq_nil_iff]
  constructor
  · rintro ⟨⟨hlinks, htexts⟩, htitles⟩ m hm
    cases hkind : m.kind with
    | text => exact htexts m hm (by rw [hkind]; rfl)
    | title => exact htitles m hm (by rw [hkind]; rfl)
    | _ => exact hlinks m hm (by rw [hkind]; rfl)
  · exact fun h => ⟨⟨fun m hm _ => h m hm, fun m hm _ => h m hm⟩, fun m hm _ => h m hm⟩

/-- Where no id is left unresolved there is nothing to say, whichever ids count. -/
theorem complaints_eq_nil {ms : List Marker} (h : ∀ m ∈ ms, Settled targets t m) (counts : MarkerId → Bool) :
    complaints targets t ms counts = [] := by
  have hnone (kinds : MarkerKind → Bool) : unresolved targets t kinds ms = [] :=
    unresolved_eq_nil_iff.2 fun m hm _ => h m hm
  simp only [complaints, hnone, List.filter_nil]
  rfl

theorem mem_claimed_tallyOf {ms : List Marker} {id : Int} :
    id ∈ (tallyOf targets t ms).claimed ↔ ∃ m ∈ ms, m.kind.isLink = true ∧ id ∈ m.topicIds := by
  simp only [tallyOf, mem_ascending, List.mem_flatMap, List.mem_filter, and_assoc]

theorem stead?_eq_none_iff {tolerant : Bool} {body : String} : stead? targets t tolerant body = none ↔
    ∀ m, Marker.read? body = some m → tolerant = false ∧ ¬ Settled targets t m := by
  rw [stead?, Option.bind_eq_none_iff]
  refine forall₂_congr fun m _ => ?_
  rw [ite_eq_right_iff]
  simp [not_or]

/-- Where all ids resolve, comments give way to the same nodes with tolerance and without. -/
theorem stead?_of_settled {root : Element} (h : ∀ m ∈ markers root, Settled targets t m) {body : String}
    (hbody : body ∈ root.comments) : stead? targets t true body = stead? targets t false body := by
  rw [stead?, stead?]
  refine Option.bind_congr fun m hm => ?_
  have hsettled := h m (List.mem_filterMap.2 ⟨body, hbody, hm⟩)
  rw [if_pos (.inr hsettled), if_pos (.inr hsettled)]

/-- **Markers where missing injections are an error.**  Comments give way that are markers all ids of which resolve, and
nothing else changes.  Nothing is a warning, the ids of link markers are claimed, and the errors name the unresolved ids:
those of links, then those of texts, then those of titles. -/
theorem process_strict (targets : LinkTargets) (t : Topic) (root : Element) :
    let document := (process targets false t root).1
    let report := (process targets false t root).2
    (document = root.splice (stead? targets t false) ∧
      ∀ body, stead? targets t false body = none ↔ ∀ m, Marker.read? body = some m → ¬ Settled targets t m) ∧
    report.warnings = [] ∧
    (report.claimed.Pairwise (· < ·) ∧
      ∀ id, id ∈ report.claimed ↔ ∃ m ∈ markers root, m.kind.isLink = true ∧ id ∈ m.topicIds) ∧
    report.errors = complaint linksMessage (unresolved targets t MarkerKind.isLink (markers root))
      ++ complaint textsMessage (unresolved targets t (· == .text) (markers root))
      ++ complaint titlesMessage (unresolved targets t (· == .title) (markers root)) ∧
    (report.isValid = true ↔ ∀ m ∈ markers root, Settled targets t m) := by
  intro document report
  have herrors : report.errors = complaints targets t (markers root) fun _ => true := by
    rw [← messages_tallyOf]
    exact congrArg (·.2.errors) (process_eq targets false t root)
  have hclaimed : report.claimed = (tallyOf targets t (markers root)).claimed :=
    congrArg (·.2.claimed) (process_eq targets false t root)
  refine ⟨⟨congrArg (·.1) (process_eq targets false t root), fun body => ?_⟩,
    congrArg (·.2.warnings) (process_eq targets false t root), ⟨?_, fun id => ?_⟩, ?_, ?_⟩
  · rw [stead?_eq_none_iff]
    simp only [true_and]
  · rw [hclaimed]
    exact pairwise_ascending _
  · rw [hclaimed, mem_claimed_tallyOf]
  · rw [herrors, complaints_true]
  · rw [Report.isValid, List.isEmpty_iff, herrors, complaints_true_eq_nil_iff]

/-- **Markers where missing injections are tolerated.**  Every marker gives way and nothing is an error; the warnings
name the unresolved ids that are not optional.  The same ids are claimed as without tolerance, and where there is no
error without it, tolerance changes nothing. -/
theorem process_tolerant (targets : LinkTargets) (t : Topic) (root : Element) :
    let strict := process targets false t root
    let tolerant := process targets true t root
    tolerant.2.errors = [] ∧
    (tolerant.1 = root.splice (stead? targets t true) ∧
      ∀ body, stead? targets t true body = none ↔ Marker.read? body = none) ∧
    tolerant.2.warnings = complaints targets t (markers root) (fun id => !id.isOptional) ∧
    tolerant.2.claimed = strict.2.claimed ∧
    (strict.2.isValid = true → tolerant = strict) := by
  intro strict tolerant
  have hstrict : strict = _ := process_eq targets false t root
  have htolerant : tolerant = _ := process_eq targets true t root
  refine ⟨congrArg (·.2.errors) htolerant, ⟨congrArg (·.1) htolerant, fun body => ?_⟩, ?_, ?_, fun hvalid => ?_⟩
  · rw [stead?_eq_none_iff, Option.eq_none_iff_forall_ne_some]
    simp only [Bool.true_eq_false, false_and, imp_false]
  · rw [← messages_tallyOf]
    exact congrArg (·.2.warnings) htolerant
  · exact (congrArg (·.2.claimed) htolerant).trans (congrArg (·.2.claimed) hstrict).symm
  · rw [hstrict, Report.isValid, Tally.report, List.isEmpty_iff] at hvalid
    have hsettled : ∀ m ∈ markers root, Settled targets t m := by
      rwa [← complaints_true_eq_nil_iff, ← messages_tallyOf]
    have hwarnings := complaints_eq_nil hsettled fun id => !id.isOptional
    have hdocument : root.splice (stead? targets t true) = root.splice (stead? targets t false) :=
      Xml.Element.splice_congr fun body hbody => stead?_of_settled hsettled hbody
    rw [htolerant, hstrict, hdocument, Tally.report, Tally.report, messages_tallyOf, messages_tallyOf, hwarnings,
      complaints_eq_nil hsettled]
    rfl

/-- Where the only id resolves, tolerance changes nothing. -/
theorem process_tolerant_of_related :
    let t := { Topic.ofText 1 "A" "" with outgoing := [Topic.ofText 2 "B" ""] }
    let root : Element := ⟨"section", [], [.comment " Inject: 2 ", .text "."]⟩
    (process (.standalone "/") false t root).2.isValid = true ∧
      process (.standalone "/") true t root = process (.standalone "/") false t root := by
  intro t root
  have hvalid : (process (.standalone "/") false t root).2.isValid = true := by decide +kernel
  exact ⟨hvalid, (process_tolerant (.standalone "/") t root).2.2.2.2 hvalid⟩

end Injection
end Bookbinder
