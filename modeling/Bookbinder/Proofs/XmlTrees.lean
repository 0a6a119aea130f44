import Bookbinder.Xml.Node
/-!
# What editing a tree does to its elements

Rewriting attributes keeps the elements of a tree and their order, so what is read off each element's name and
attributes changes element by element (`map_nodesElements_mapAttributes`).
-/
namespace Bookbinder
namespace Xml

variable {σ β : Type}

/-! ## Attributes -/

namespace Attributes

theorem get?_cons (a : String × String) (as : Attributes) (name : String) :
    get? (a :: as) name = if a.1 = name then some a.2 else get? as name := by
  by_cases h : a.1 = name
  · simp [get?, h]
  · simp [get?, h]

theorem get?_set (as : Attributes) (name value : String) : (as.set name value).get? name = some value := by
  induction as with
  | nil => simp [Attributes.set, get?]
  | cons a as ih =>
    rw [Attributes.set]
    by_cases ha : a.1 = name
    · rw [if_pos ha, get?_cons, if_pos rfl]
    · rw [if_neg ha, get?_cons, if_neg ha, ih]

theorem get?_set_of_ne (as : Attributes) {name other : String} (value : String) (h : other ≠ name) :
    (as.set name value).get? other = as.get? other := by
  induction as with
  | nil => simp [Attributes.set, get?, Ne.symm h]
  | cons a as ih =>
    rw [Attributes.set]
    by_cases ha : a.1 = name
    · rw [if_pos ha, get?_cons, get?_cons, if_neg (Ne.symm h), if_neg (fun e => h (e.symm.trans ha))]
    · rw [if_neg ha, get?_cons, get?_cons, ih]

end Attributes

/-! ## Elements -/

theorem nodesElements_append (ns ms : List Node) : nodesElements (ns ++ ms) = nodesElements ns ++ nodesElements ms := by
  induction ns with
  | nil => rfl
  | cons n ns ih => rw [List.cons_append, nodesElements, nodesElements, ih, List.append_assoc]

mutual

/-- **Rewriting attributes changes a tree element by element.**  `key` reads something off a name and attributes, and
`g` is what the rewriting does to that. -/
theorem Node.map_elements_mapAttributes (key : String → Attributes → β) (g : β → β)
    (f : String → Attributes → σ → Attributes × σ) (hf : ∀ name as s, key name (f name as s).1 = g (key name as)) :
    ∀ (n : Node) (s : σ), (n.mapAttributes f s).1.elements.map (fun e => key e.name e.attributes)
      = n.elements.map (fun e => g (key e.name e.attributes))
  | .element name as cs, s => by
    simp only [Node.mapAttributes, Node.elements, List.map_cons, hf]
    rw [map_nodesElements_mapAttributes key g f hf cs]
  | .text _, _ => rfl
  | .cdata _, _ => rfl
  | .comment _, _ => rfl
  | .instruction _, _ => rfl

theorem map_nodesElements_mapAttributes (key : String → Attributes → β) (g : β → β)
    (f : String → Attributes → σ → Attributes × σ) (hf : ∀ name as s, key name (f name as s).1 = g (key name as)) :
    ∀ (ns : List Node) (s : σ), (nodesElements (nodesMapAttributes f ns s).1).map (fun e => key e.name e.attributes)
      = (nodesElements ns).map (fun e => g (key e.name e.attributes))
  | [], _ => rfl
  | n :: ns, s => by
    simp only [nodesMapAttributes, nodesElements, List.map_append]
    rw [Node.map_elements_mapAttributes key g f hf n, map_nodesElements_mapAttributes key g f hf ns]

end

mutual

theorem Node.exists_of_mem_mapAttributes (f : String → Attributes → σ → Attributes × σ) : ∀ (n : Node) (s : σ)
    {e : Element}, e ∈ (n.mapAttributes f s).1.elements →
      ∃ e₀ ∈ n.elements, ∃ s₀, e.name = e₀.name ∧ e.attributes = (f e₀.name e₀.attributes s₀).1
  | .element name as cs, s, e, h => by
    rcases List.mem_cons.1 h with rfl | h
    · exact ⟨_, List.mem_cons_self, s, rfl, rfl⟩
    · obtain ⟨e₀, he₀, hs⟩ := exists_of_mem_nodesMapAttributes f cs _ h
      exact ⟨e₀, List.mem_cons_of_mem _ he₀, hs⟩
  | .text _, _, _, h => absurd h List.not_mem_nil
  | .cdata _, _, _, h => absurd h List.not_mem_nil
  | .comment _, _, _, h => absurd h List.not_mem_nil
  | .instruction _, _, _, h => absurd h List.not_mem_nil

theorem exists_of_mem_nodesMapAttributes (f : String → Attributes → σ → Attributes × σ) : ∀ (ns : List Node) (s : σ)
    {e : Element}, e ∈ nodesElements (nodesMapAttributes f ns s).1 →
      ∃ e₀ ∈ nodesElements ns, ∃ s₀, e.name = e₀.name ∧ e.attributes = (f e₀.name e₀.attributes s₀).1
  | [], _, _, h => absurd h List.not_mem_nil
  | n :: ns, s, e, h => by
    simp only [nodesMapAttributes, nodesElements, List.mem_append] at h
    rcases h with h | h
    · obtain ⟨e₀, he₀, hs⟩ := Node.exists_of_mem_mapAttributes f n s h
      exact ⟨e₀, List.mem_append_left _ he₀, hs⟩
    · obtain ⟨e₀, he₀, hs⟩ := exists_of_mem_nodesMapAttributes f ns _ h
      exact ⟨e₀, List.mem_append_right _ he₀, hs⟩

end

section Gathering

variable {f : String → Attributes → List β → Attributes × List β} {g : String → Attributes → List β}

mutual

theorem Node.gathered_mapAttributes (hf : ∀ name as found, (f name as found).2 = found ++ g name as) :
    ∀ (n : Node) (found : List β),
      (n.mapAttributes f found).2 = found ++ n.elements.flatMap fun e => g e.name e.attributes
  | .element name as cs, found => by
    rw [Node.mapAttributes, Node.elements, List.flatMap_cons, ← List.append_assoc, ← hf name as found]
    exact gathered_nodesMapAttributes hf cs _
  | .text _, found => (List.append_nil found).symm
  | .cdata _, found => (List.append_nil found).symm
  | .comment _, found => (List.append_nil found).symm
  | .instruction _, found => (List.append_nil found).symm

/-- **What is gathered while attributes are rewritten is what the elements give one after the other.** -/
theorem gathered_nodesMapAttributes (hf : ∀ name as found, (f name as found).2 = found ++ g name as) :
    ∀ (ns : List Node) (found : List β),
      (nodesMapAttributes f ns found).2 = found ++ (nodesElements ns).flatMap fun e => g e.name e.attributes
  | [], found => (List.append_nil found).symm
  | n :: ns, found => by
    rw [nodesMapAttributes, nodesElements, List.flatMap_append, ← List.append_assoc,
      ← Node.gathered_mapAttributes hf n found]
    exact gathered_nodesMapAttributes hf ns _

end

end Gathering

/-- The values of an attribute among nodes, in document order. -/
def nodesValues (name : String) (ns : List Node) : List String :=
  (nodesElements ns).filterMap (·.attribute? name)

theorem filterMap_attribute? (name : String) (es : List Element) :
    es.filterMap (·.attribute? name) = (es.map fun e => e.attributes.get? name).filterMap id := by
  rw [List.filterMap_map]
  rfl

/-- The values of an attribute after a rewriting that changes each of them alike. -/
theorem nodesValues_mapAttributes (name : String) (g : String → String) (f : String → Attributes → σ → Attributes × σ)
    (hf : ∀ n as s, (f n as s).1.get? name = (as.get? name).map g) (ns : List Node) (s : σ) :
    nodesValues name (nodesMapAttributes f ns s).1 = (nodesValues name ns).map g := by
  have h := map_nodesElements_mapAttributes (fun _ as => as.get? name) (Option.map g) f hf ns s
  rw [nodesValues, filterMap_attribute?, h, List.filterMap_map, nodesValues, List.map_filterMap]
  rfl

end Xml
end Bookbinder
