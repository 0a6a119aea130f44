import Mathlib.Data.List.Perm.Basic
/-!
# Lists sorted by title

Lists of links are sorted by the titles that they show.  Sorting keeps every entry, puts the titles in ascending order and
leaves entries of one title in the order that they had (`SortedBy`); merging does just that (`sortedBy_mergeSort`).
-/
namespace Bookbinder

variable {α β : Type}

/-- A list sorted by a text that its entries have, those with the same text in the order that they had. -/
structure SortedBy (key : α → String) (xs ys : List α) : Prop where
  perm : ys.Perm xs
  ascending : ys.Pairwise fun a b => key a ≤ key b
  stable : ∀ title, (ys.filter fun a => key a = title) = xs.filter fun a => key a = title

theorem sortedBy_mergeSort (key : α → String) (xs : List α) :
    SortedBy key xs (xs.mergeSort fun a b => decide (key a ≤ key b)) := by
  have htrans : ∀ a b c : α, decide (key a ≤ key b) = true → decide (key b ≤ key c) = true →
      decide (key a ≤ key c) = true := fun a b c hab hbc =>
    decide_eq_true (String.le_trans (of_decide_eq_true hab) (of_decide_eq_true hbc))
  have htotal : ∀ a b : α, (decide (key a ≤ key b) || decide (key b ≤ key a)) = true := fun a b => by
    simpa using String.le_total (key a) (key b)
  have hperm := List.mergeSort_perm xs fun a b => decide (key a ≤ key b)
  refine ⟨hperm, (List.pairwise_mergeSort htrans htotal xs).imp of_decide_eq_true, fun title => ?_⟩
  -- Entries of one title are in ascending order as they stand, and such a part of a list keeps its order.
  have htitle : (xs.filter fun a => key a = title).Pairwise fun a b => decide (key a ≤ key b) = true := by
    refine List.pairwise_of_forall_mem_list fun a ha b hb => decide_eq_true ?_
    have hkeys : key a = key b := (of_decide_eq_true (List.mem_filter.1 ha).2).trans
      (of_decide_eq_true (List.mem_filter.1 hb).2).symm
    exact hkeys ▸ String.le_refl _
  have hsub := (List.sublist_mergeSort htrans htotal htitle List.filter_sublist).filter fun a => key a = title
  rw [List.filter_filter] at hsub
  simp only [Bool.and_self] at hsub
  exact (hsub.eq_of_length (hperm.filter _).length_eq.symm).symm

/-- What is taken from the entries of a sorted list is sorted by the same text. -/
theorem SortedBy.map {key : α → String} {key' : β → String} {f : α → β} {xs ys : List α} (h : SortedBy key xs ys)
    (hkey : ∀ a ∈ xs, key' (f a) = key a) : SortedBy key' (xs.map f) (ys.map f) where
  perm := h.perm.map f
  ascending := by
    refine List.pairwise_map.2 (h.ascending.imp_of_mem fun {a b} ha hb hab => ?_)
    rwa [hkey a (h.perm.mem_iff.1 ha), hkey b (h.perm.mem_iff.1 hb)]
  stable title := by
    have hfilter {zs : List α} (hzs : ∀ a ∈ zs, a ∈ xs) :
        ((zs.map f).filter fun b => key' b = title) = (zs.filter fun a => key a = title).map f := by
      rw [List.filter_map]
      refine congrArg (List.map f) (List.filter_congr fun a ha => ?_)
      rw [Function.comp, hkey a (hzs a ha)]
    rw [hfilter fun a ha => h.perm.mem_iff.1 ha, hfilter fun a ha => ha, h.stable]

end Bookbinder
