import Bookbinder.Xml.Node
/-!
# Comments and what takes their place

A function that is to replace the comments of a tree is asked about each of them once, in document order and with its
number; it is not asked about comments in the nodes that it answers with (`replaced_replaceNumbered`).  The answers take
the places of the comments, and all else is as it was, in its order (`Replaced`).
-/
namespace Bookbinder
namespace Xml

variable {σ : Type}

/-! ## Answers to comments -/

/-- The answers to comments that are put one after the other, numbered from a number on. -/
def answers (f : Nat → String → σ → Option (List Node) × σ) : Nat → List String → σ → List (Option (List Node)) × σ
  | _, [], s => ([], s)
  | i, body :: bodies, s =>
    let (answer, s) := f i body s
    let (rest, s) := answers f (i + 1) bodies s
    (answer :: rest, s)

/-- A function that puts down which comments it is asked about, each with its number. -/
def logged (f : Nat → String → σ → Option (List Node) × σ) :
    Nat → String → σ × List (String × Nat) → Option (List Node) × (σ × List (String × Nat)) :=
  fun i body (s, calls) =>
    let (answer, s) := f i body s
    (answer, s, calls ++ [(body, i)])

variable (f : Nat → String → σ → Option (List Node) × σ)

theorem answers_append : ∀ (bodies more : List String) (i : Nat) (s : σ), answers f i (bodies ++ more) s
    = ((answers f i bodies s).1 ++ (answers f (i + bodies.length) more (answers f i bodies s).2).1,
      (answers f (i + bodies.length) more (answers f i bodies s).2).2)
  | [], _, _, _ => rfl
  | body :: bodies, more, i, s => by
    have hrest := answers_append bodies more (i + 1) (f i body s).2
    rw [Nat.add_assoc, Nat.add_comm 1] at hrest
    change ((f i body s).1 :: (answers f (i + 1) (bodies ++ more) _).1, (answers f (i + 1) (bodies ++ more) _).2) = _
    rw [hrest]
    rfl

/-- **A function that puts down what it is asked answers the same, and is asked about the comments in their order.** -/
theorem answers_logged : ∀ (bodies : List String) (i : Nat) (s : σ) (calls : List (String × Nat)),
    answers (logged f) i bodies (s, calls)
      = ((answers f i bodies s).1, (answers f i bodies s).2, calls ++ bodies.zipIdx i)
  | [], _, _, calls => by
    rw [List.zipIdx_nil, List.append_nil]
    rfl
  | body :: bodies, i, s, calls => by
    have hrest := answers_logged bodies (i + 1) (f i body s).2 (calls ++ [(body, i)])
    rw [List.append_assoc, List.singleton_append] at hrest
    change ((f i body s).1 :: (answers (logged f) (i + 1) bodies _).1, (answers (logged f) (i + 1) bodies _).2) = _
    rw [hrest]
    rfl

/-! ## Replaced comments -/

/-- Nodes after each of their comments was kept or replaced, as it was answered in document order.  All else is as it
was. -/
inductive Replaced : List Node → List (Option (List Node)) → List Node → Prop
  | nil : Replaced [] [] []
  | kept (body : String) {ns ms : List Node} {as : List (Option (List Node))} (rest : Replaced ns as ms) :
    Replaced (.comment body :: ns) (none :: as) (.comment body :: ms)
  | replaced (body : String) (nodes : List Node) {ns ms : List Node} {as : List (Option (List Node))}
    (rest : Replaced ns as ms) : Replaced (.comment body :: ns) (some nodes :: as) (nodes ++ ms)
  | element (name : String) (attributes : Attributes) {cs cs' ns ms : List Node} {as bs : List (Option (List Node))}
    (children : Replaced cs as cs') (rest : Replaced ns bs ms) :
    Replaced (.element name attributes cs :: ns) (as ++ bs) (.element name attributes cs' :: ms)
  | other {n : Node} (leaf : n.element? = none) (uncommented : n.comments = []) {ns ms : List Node}
    {as : List (Option (List Node))} (rest : Replaced ns as ms) : Replaced (n :: ns) as (n :: ms)

namespace Replaced

variable {ns ms ms' : List Node} {as : List (Option (List Node))}

/-- There is one answer to each comment. -/
theorem length_eq (h : Replaced ns as ms) : as.length = (nodesComments ns).length := by
  induction h with
  | nil => rfl
  | kept body rest ih => exact congrArg (· + 1) ih
  | replaced body nodes rest ih => exact congrArg (· + 1) ih
  | element name attributes children rest ihc ihr =>
    rw [nodesComments, Node.comments, List.length_append, List.length_append, ihc, ihr]
  | other leaf uncommented rest ih => rw [nodesComments, uncommented, List.nil_append, ih]

/-- **Nodes and answers leave no choice.** -/
theorem unique (h : Replaced ns as ms) (h' : Replaced ns as ms') : ms = ms' := by
  induction h generalizing ms' with
  | nil => cases h' with
    | nil => rfl
  | kept body rest ih => cases h' with
    | kept _ rest' => rw [ih rest']
    | other leaf uncommented => cases uncommented
  | replaced body nodes rest ih => cases h' with
    | replaced _ _ rest' => rw [ih rest']
    | other leaf uncommented => cases uncommented
  | element name attributes children rest ihc ihr =>
    rename_i as bs
    generalize has : as ++ bs = answers at h'
    cases h' with
    | element _ _ children' rest' =>
      obtain ⟨rfl, rfl⟩ := List.append_inj has (children.length_eq.trans children'.length_eq.symm)
      rw [ihc children', ihr rest']
    | other leaf => cases leaf
  | other leaf uncommented rest ih => cases h' with
    | kept => cases uncommented
    | replaced => cases uncommented
    | element => cases leaf
    | other _ _ rest' => rw [ih rest']

end Replaced

/-! ## Replacing -/

mutual

theorem Node.replaced_numbered : ∀ (n : Node) (i : Nat) (s : σ),
    (n.replaceComments (numbered f) (i, s)).2 = (i + n.comments.length, (answers f i n.comments s).2) ∧
      ∀ {ns ms : List Node} {as : List (Option (List Node))}, Replaced ns as ms →
        Replaced (n :: ns) ((answers f i n.comments s).1 ++ as) ((n.replaceComments (numbered f) (i, s)).1 ++ ms)
  | .comment body, i, s => by
    have hanswer : answers f i [body] s = ([(f i body s).1], (f i body s).2) := rfl
    rw [Node.replaceComments, Node.comments, hanswer, numbered]
    cases f i body s with
    | mk answer t =>
      cases answer with
      | some nodes => exact ⟨rfl, .replaced body nodes⟩
      | none => exact ⟨rfl, .kept body⟩
  | .element name attributes cs, i, s => by
    obtain ⟨hstate, hchildren⟩ := replaced_numbered cs i s
    exact ⟨hstate, .element name attributes hchildren⟩
  | .text _, _, _ => ⟨rfl, .other rfl rfl⟩
  | .cdata _, _, _ => ⟨rfl, .other rfl rfl⟩
  | .instruction _, _, _ => ⟨rfl, .other rfl rfl⟩

/-- **The comments of nodes are put one after the other, and each is replaced as it is answered.** -/
theorem replaced_numbered : ∀ (ns : List Node) (i : Nat) (s : σ),
    (nodesReplaceComments (numbered f) ns (i, s)).2
        = (i + (nodesComments ns).length, (answers f i (nodesComments ns) s).2) ∧
      Replaced ns (answers f i (nodesComments ns) s).1 (nodesReplaceComments (numbered f) ns (i, s)).1
  | [], _, _ => ⟨rfl, .nil⟩
  | n :: ns, i, s => by
    obtain ⟨hstate, hn⟩ := Node.replaced_numbered n i s
    obtain ⟨hrest, hns⟩ := replaced_numbered ns (i + n.comments.length) (answers f i n.comments s).2
    rw [nodesComments, nodesReplaceComments, answers_append, List.length_append, ← Nat.add_assoc]
    dsimp only
    rw [hstate]
    exact ⟨hrest, hn hns⟩

end

/-- **Comments are replaced one by one, and nothing else is changed.**  The function is asked about the comments of the
tree, numbered from zero in document order, and about nothing else: each is kept or replaced in its place as it is
answered, and the nodes that take its place are not looked into. -/
theorem replaced_replaceNumbered (e : Element) (s : σ) :
    (e.replaceNumbered f s).1.name = e.name ∧ (e.replaceNumbered f s).1.attributes = e.attributes ∧
      Replaced e.children (answers f 0 e.comments s).1 (e.replaceNumbered f s).1.children ∧
      (e.replaceNumbered f s).2 = (answers f 0 e.comments s).2 ∧
      e.replaceNumbered (logged f) (s, [])
        = ((e.replaceNumbered f s).1, (e.replaceNumbered f s).2, e.comments.zipIdx) := by
  obtain ⟨hstate, hreplaced⟩ := replaced_numbered f e.children 0 s
  obtain ⟨hlogged, hsame⟩ := replaced_numbered (logged f) e.children 0 (s, [])
  rw [answers_logged] at hlogged hsame
  refine ⟨rfl, rfl, hreplaced, congrArg Prod.snd hstate, ?_⟩
  simp only [Element.replaceNumbered, Element.replaceComments, hsame.unique hreplaced, hlogged, hstate]
  rfl

end Xml
end Bookbinder
