import Mathlib.Data.List.Forall2
/-!
# The latest of items with one key

Of items that share a key, only the last counts (`latestBy`).  Which ones those are depends on the keys alone.
-/
namespace Bookbinder

variable {α β : Type} {key : α → String}

/-- The items whose key no later one has. -/
def latestBy (key : α → String) : List α → List α
  | [] => []
  | x :: xs => if xs.any fun y => key y == key x then latestBy key xs else x :: latestBy key xs

theorem any_key_iff {xs : List α} {k : String} : (xs.any fun y => key y == k) = true ↔ ∃ y ∈ xs, key y = k := by
  simp only [List.any_eq_true, beq_iff_eq]

theorem latestBy_append (key : α → String) (xs ys : List α) : latestBy key (xs ++ ys)
    = ((latestBy key xs).filter fun x => !ys.any fun y => key y == key x) ++ latestBy key ys := by
  induction xs with
  | nil => rfl
  | cons x xs ih =>
    rw [List.cons_append, latestBy, latestBy, List.any_append, ih]
    cases xs.any fun y => key y == key x with
    | true => simp
    | false => cases hys : ys.any fun y => key y == key x <;> simp [hys]

/-- What is kept among the items with some keys does not depend on the others. -/
theorem filter_latestBy (p : String → Bool) (xs : List α) :
    ((latestBy key xs).filter fun x => p (key x)) = latestBy key (xs.filter fun x => p (key x)) := by
  induction xs with
  | nil => rfl
  | cons x xs ih =>
    have hany (hp : p (key x) = true) : ((xs.filter fun y => p (key y)).any fun y => key y == key x)
        = xs.any fun y => key y == key x := by
      rw [List.any_filter]
      congr 1
      funext y
      by_cases hy : key y = key x
      · rw [hy, hp, Bool.true_and]
      · rw [beq_eq_false_iff_ne.2 hy, Bool.and_false]
    rw [latestBy, List.filter_cons]
    by_cases hp : p (key x) = true
    · rw [if_pos hp, latestBy, hany hp, ← ih]
      split
      · rfl
      · rw [List.filter_cons, if_pos hp]
    · rw [if_neg hp, ← ih]
      split
      · rfl
      · rw [List.filter_cons, if_neg hp]

theorem latestBy_subset (key : α → String) (xs : List α) : latestBy key xs ⊆ xs := by
  induction xs with
  | nil => exact List.Subset.refl _
  | cons x xs ih =>
    rw [latestBy]
    split
    · exact List.Subset.trans ih (List.subset_cons_self x xs)
    · exact List.cons_subset_cons x ih

theorem latestBy_eq_self {xs : List α} (h : (xs.map key).Nodup) : latestBy key xs = xs := by
  induction xs with
  | nil => rfl
  | cons x xs ih =>
    rw [List.map_cons, List.nodup_cons] at h
    have hany : ¬(xs.any fun y => key y == key x) = true := fun ha => by
      obtain ⟨y, hy, he⟩ := any_key_iff.1 ha
      exact h.1 (List.mem_map.2 ⟨y, hy, he⟩)
    rw [latestBy, if_neg hany, ih h.2]

theorem exists_mem_latestBy {xs : List α} {x : α} (h : x ∈ xs) : ∃ y ∈ latestBy key xs, key y = key x := by
  induction xs generalizing x with
  | nil => exact absurd h List.not_mem_nil
  | cons z xs ih =>
    rw [latestBy]
    split
    · rename_i hany
      rcases List.mem_cons.1 h with rfl | h
      · obtain ⟨y, hy, he⟩ := any_key_iff.1 hany
        obtain ⟨y', hy', he'⟩ := ih hy
        exact ⟨y', hy', he'.trans he⟩
      · exact ih h
    · rcases List.mem_cons.1 h with rfl | h
      · exact ⟨x, List.mem_cons_self, rfl⟩
      · obtain ⟨y, hy, he⟩ := ih h
        exact ⟨y, List.mem_cons_of_mem _ hy, he⟩

theorem latestBy_append_left {xs ys : List α} (h : ∀ x ∈ xs, ∃ y ∈ ys, key y = key x) :
    latestBy key (xs ++ ys) = latestBy key ys := by
  rw [latestBy_append, List.filter_eq_nil_iff.2, List.nil_append]
  intro x hx
  rw [any_key_iff.2 (h x (latestBy_subset key xs hx))]
  exact Bool.false_ne_true

theorem latestBy_append_middle {xs ys : List α} (h : ∀ x ∈ xs, ∃ y ∈ ys, key y = key x) (ws : List α) :
    latestBy key (ws ++ (xs ++ ys)) = latestBy key (ws ++ ys) := by
  have hany (k : String) : ((xs ++ ys).any fun y => key y == k) = ys.any fun y => key y == k := by
    rw [Bool.eq_iff_iff, any_key_iff, any_key_iff]
    constructor
    · rintro ⟨y, hy, rfl⟩
      exact (List.mem_append.1 hy).elim (h y) fun hy => ⟨y, hy, rfl⟩
    · exact fun ⟨y, hy, he⟩ => ⟨y, List.mem_append_right _ hy, he⟩
  rw [latestBy_append, latestBy_append key ws ys, latestBy_append_left h]
  simp only [hany]

/-- Of lists whose items go together, the same items are kept. -/
theorem forall₂_latestBy {R : α → β → Prop} {key' : β → String} {xs : List α} {ys : List β} (h : List.Forall₂ R xs ys)
    (hkey : ∀ a a' c c', R a c → R a' c' → (key' c = key' c' ↔ key a = key a')) :
    List.Forall₂ R (latestBy key xs) (latestBy key' ys) := by
  induction h with
  | nil => exact .nil
  | @cons x y xs ys hxy hall ih =>
    have hany : (ys.any fun c => key' c == key' y) = xs.any fun a => key a == key x := by
      clear ih
      induction hall with
      | nil => rfl
      | @cons a c as cs hac _ ih =>
        have hbeq : (key' c == key' y) = (key a == key x) :=
          Bool.eq_iff_iff.2 (beq_iff_eq.trans ((hkey a x c y hac hxy).trans beq_iff_eq.symm))
        rw [List.any_cons, List.any_cons, ih, hbeq]
    rw [latestBy, latestBy, hany]
    split
    · exact ih
    · exact .cons hxy ih

end Bookbinder
