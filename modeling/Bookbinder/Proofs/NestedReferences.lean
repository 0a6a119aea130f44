import Bookbinder.Dtd
import Bookbinder.Proofs.NumberedNames
import Bookbinder.Proofs.TrimmedText
import Mathlib.Logic.Function.Iterate
/-!
# Nested references

A declaration is expanded in passes over the whole of it.  A pass replaces each reference by what its name was declared
as, where the references that are in there wait for the next pass.  If every percent sign begins a reference
(`Complete`), none begins in one such text and ends behind it.  So a pass takes one level off the nesting
(`shallow_expandOnce`), and as many passes as references are deep come to the recursive substitution
(`substitutes_iterate`).  Circles are not nested to any depth (`not_shallow_of_circle`), but the passes end all the same
(`exists_expansion`).
-/
namespace Bookbinder
namespace Dtd

/-! ## References -/

/-- A name that a parameter entity can be referred to by. -/
structure EntityName where
  first : Char
  rest : List Char
  starts : isNameStart first = true
  continues : ∀ c ∈ rest, isNameChar c = true

namespace EntityName

def chars (n : EntityName) : List Char :=
  n.first :: n.rest

/-- A reference as it is written. -/
def reference (n : EntityName) : List Char :=
  '%' :: (n.chars ++ [';'])

end EntityName

/-- A text that holds a reference to a name. -/
def RefersTo (cs : List Char) (n : EntityName) : Prop :=
  n.reference <:+: cs

/-- A text in which every percent sign begins a reference. -/
def Complete (cs : List Char) : Prop :=
  ∀ s, '%' :: s <:+ cs → ∃ n : EntityName, n.reference <+: '%' :: s

/-- Names that references lead through: the text refers to the first, and what each stands for refers to the next. -/
def Leads (es : Entities) : List Char → List EntityName → Prop
  | _, [] => True
  | cs, n :: ns => RefersTo cs n ∧ Leads es (es.text n.chars) ns

/-- **References are nested to a depth at most**: there are no more names in a row that they lead through. -/
def Shallow (es : Entities) (depth : Nat) (cs : List Char) : Prop :=
  ∀ ns, Leads es cs ns → ns.length ≤ depth

/-- A text with its references substituted recursively: each is replaced by what its name stands for, in which they are
substituted themselves, and by nothing if the name is not declared. -/
inductive Substitutes (es : Entities) : List Char → List Char → Prop
  | nil : Substitutes es [] []
  | char {c : Char} {cs out : List Char} : c ≠ '%' → Substitutes es cs out → Substitutes es (c :: cs) (c :: out)
  | reference {n : EntityName} {cs value out : List Char} : Substitutes es (es.text n.chars) value →
      Substitutes es cs out → Substitutes es (n.reference ++ cs) (value ++ out)

/-- Passes over a text, of which there are at most so many: they go on as long as the text holds a reference. -/
inductive Expansion (es : Entities) : (limit passes : Nat) → List Char → List Char → Prop
  | spent {cs : List Char} : Expansion es 0 0 cs cs
  | settled {limit : Nat} {cs : List Char} : (∀ n, ¬ RefersTo cs n) → Expansion es (limit + 1) 0 cs cs
  | pass {limit passes : Nat} {cs out : List Char} {n : EntityName} : RefersTo cs n →
      Expansion es limit passes (expandOnce es cs) out → Expansion es (limit + 1) (passes + 1) cs out

/-! ## Finding references -/

namespace EntityName

theorem isNameChar_of_mem {n : EntityName} : ∀ c ∈ n.chars, isNameChar c = true := by
  refine List.forall_mem_cons.2 ⟨?_, n.continues⟩
  have hstart := n.starts
  rw [isNameStart, Bool.or_eq_true] at hstart
  rcases hstart with h | h
  · simp [isNameChar, Char.isAlphanum, h]
  · simp [isNameChar, h]

theorem percent_notMem (n : EntityName) : '%' ∉ n.chars ++ [';'] := by
  rw [List.mem_append, not_or]
  exact ⟨fun h => absurd (isNameChar_of_mem _ h) (by decide), by decide⟩

theorem chars_injective : Function.Injective chars := by
  rintro ⟨_, _, _, _⟩ ⟨_, _, _, _⟩ h
  obtain ⟨rfl, rfl⟩ := List.cons.inj h
  rfl

theorem reference_append (n : EntityName) (cs : List Char) : n.reference ++ cs = '%' :: (n.chars ++ ';' :: cs) := by
  simp [reference]

/-- **A reference tells its name**, whatever follows it. -/
theorem reference_append_inj {m n : EntityName} {as bs : List Char} (h : m.reference ++ as = n.reference ++ bs) :
    m = n ∧ as = bs := by
  have hend (cs : List Char) : ∀ c ∈ (';' :: cs).head?, ¬ isNameChar c = true := by
    rintro c ⟨⟩
    decide
  rw [reference_append, reference_append] at h
  obtain ⟨hchars, hrest⟩ := append_inj_of_boundary (hend as) (hend bs) isNameChar_of_mem isNameChar_of_mem
    (List.cons.inj h).2
  exact ⟨chars_injective hchars, (List.cons.inj hrest).2⟩

theorem reference_prefix_iff {m n : EntityName} {cs : List Char} : m.reference <+: n.reference ++ cs ↔ m = n := by
  refine ⟨fun ⟨rest, hrest⟩ => (reference_append_inj hrest).1, ?_⟩
  rintro rfl
  exact List.prefix_append _ _

end EntityName

theorem reference?_append (n : EntityName) (cs : List Char) :
    reference? (n.chars ++ ';' :: cs) = some (n.chars, cs) := by
  have hend : ∀ c ∈ (';' :: cs).head?, isNameChar c = false := by
    rintro c ⟨⟩
    decide
  have hdrop : (n.rest ++ ';' :: cs).dropWhile isNameChar = ';' :: cs := by
    rw [List.dropWhile_append_of_pos n.continues, Text.dropWhile_eq_self hend]
  have htake : (n.rest ++ ';' :: cs).takeWhile isNameChar = n.rest := by
    rw [List.takeWhile_append_of_pos n.continues, Text.takeWhile_eq_nil hend, List.append_nil]
  change reference? (n.first :: (n.rest ++ ';' :: cs)) = _
  rw [reference?, if_pos n.starts, hdrop, htake]
  rfl

/-- **What is found as a reference is one.** -/
theorem exists_of_reference? {cs name rest : List Char} (h : reference? cs = some (name, rest)) :
    ∃ n : EntityName, n.chars = name ∧ '%' :: cs = n.reference ++ rest := by
  cases cs with
  | nil => cases h
  | cons c cs =>
    rw [reference?] at h
    split at h
    · rename_i hc
      split at h
      · rename_i r hr
        cases h
        refine ⟨⟨c, cs.takeWhile isNameChar, hc, fun d hd => List.mem_takeWhile_imp hd⟩, rfl, ?_⟩
        rw [EntityName.reference_append, EntityName.chars, List.cons_append, ← hr, List.takeWhile_append_dropWhile]
      · cases h
    · cases h

section Texts

variable {es : Entities} {n : EntityName} {as bs cs : List Char} {c : Char}

theorem refersTo_char (hc : c ≠ '%') : RefersTo (c :: cs) n ↔ RefersTo cs n := by
  have hno : ¬ n.reference <+: c :: cs := fun h => hc (List.cons_prefix_cons.1 h).1.symm
  rw [RefersTo, List.infix_cons_iff, or_iff_right hno]
  rfl

theorem refersTo_append_of_notMem (h : '%' ∉ as) (cs : List Char) : RefersTo (as ++ cs) n ↔ RefersTo cs n := by
  induction as with
  | nil => rfl
  | cons a as ih =>
    rw [List.mem_cons, not_or] at h
    rw [List.cons_append, refersTo_char (Ne.symm h.1), ih h.2]

theorem refersTo_reference {m : EntityName} : RefersTo (m.reference ++ cs) n ↔ n = m ∨ RefersTo cs n := by
  have hhere : n.reference <+: m.reference ++ cs ↔ n = m := EntityName.reference_prefix_iff
  rw [← hhere, ← refersTo_append_of_notMem m.percent_notMem cs]
  exact List.infix_cons_iff

theorem not_refersTo_nil : ¬ RefersTo [] n := fun h => by
  cases List.infix_nil.1 h

/-! ## Complete texts -/

theorem complete_nil : Complete [] := fun s h => by
  cases List.suffix_nil.1 h

theorem complete_cons :
    Complete (c :: cs) ↔ (c = '%' → ∃ n : EntityName, n.reference <+: '%' :: cs) ∧ Complete cs := by
  constructor
  · refine fun h => ⟨?_, fun s hs => h s (hs.trans (List.suffix_cons c cs))⟩
    rintro rfl
    exact h cs List.suffix_rfl
  · rintro ⟨hc, hcs⟩ s hs
    rcases List.suffix_cons_iff.1 hs with he | hs
    · obtain ⟨rfl, rfl⟩ := List.cons.inj he
      exact hc rfl
    · exact hcs s hs

theorem complete_char (hc : c ≠ '%') : Complete (c :: cs) ↔ Complete cs := by
  rw [complete_cons, and_iff_right fun h => absurd h hc]

theorem complete_append_of_notMem (h : '%' ∉ as) (cs : List Char) : Complete (as ++ cs) ↔ Complete cs := by
  induction as with
  | nil => rfl
  | cons a as ih =>
    rw [List.mem_cons, not_or] at h
    rw [List.cons_append, complete_char (Ne.symm h.1), ih h.2]

theorem complete_reference (n : EntityName) (cs : List Char) : Complete (n.reference ++ cs) ↔ Complete cs := by
  rw [← complete_append_of_notMem n.percent_notMem cs]
  exact complete_cons.trans (and_iff_right fun _ => ⟨n, List.prefix_append _ _⟩)

/-- **A complete text is made of references and of other characters than percent signs.** -/
@[elab_as_elim]
theorem Complete.induction {motive : (cs : List Char) → Complete cs → Prop} (nil : motive [] complete_nil)
    (char : ∀ (c : Char) (cs : List Char) (hc : c ≠ '%') (hcs : Complete cs), motive cs hcs →
      motive (c :: cs) ((complete_char hc).2 hcs))
    (reference : ∀ (n : EntityName) (cs : List Char) (hcs : Complete cs), motive cs hcs →
      motive (n.reference ++ cs) ((complete_reference n cs).2 hcs))
    {cs : List Char} (h : Complete cs) : motive cs h := by
  match cs with
  | [] => exact nil
  | c :: cs =>
    by_cases hc : c = '%'
    · subst hc
      obtain ⟨n, rest, hrest⟩ := h cs List.suffix_rfl
      have hlt : rest.length < ('%' :: cs).length := by
        rw [← hrest, EntityName.reference_append]
        simp only [List.length_cons, List.length_append]
        omega
      obtain rfl := (List.cons.inj hrest).2
      have hcs := (complete_reference n rest).1 h
      exact reference n rest hcs (Complete.induction nil char reference hcs)
    · have hcs := (complete_char hc).1 h
      exact char c cs hc hcs (Complete.induction nil char reference hcs)
termination_by cs.length
decreasing_by
  · assumption
  · exact Nat.lt_succ_self _

theorem complete_self (n : EntityName) : Complete n.reference := by
  have h := (complete_reference n []).2 complete_nil
  rwa [List.append_nil] at h

theorem complete_text (h : ∀ e ∈ es, Complete e.2) (name : List Char) : Complete (es.text name) := by
  rw [Entities.text]
  cases hfind : es.find? fun e => e.1 == name with
  | none => exact complete_nil
  | some e => exact h e (List.mem_of_find?_eq_some hfind)

theorem Complete.append (has : Complete as) (hbs : Complete bs) : Complete (as ++ bs) := by
  induction has using Complete.induction with
  | nil => exact hbs
  | char c cs hc _ ih => exact (complete_char hc).2 ih
  | reference n cs _ ih =>
    rw [List.append_assoc]
    exact (complete_reference n _).2 ih

/-- No reference begins in a complete text and ends behind it. -/
theorem Complete.refersTo_append (has : Complete as) : RefersTo (as ++ bs) n ↔ RefersTo as n ∨ RefersTo bs n := by
  induction has using Complete.induction with
  | nil => exact (or_iff_right not_refersTo_nil).symm
  | char c cs hc _ ih => rw [List.cons_append, refersTo_char hc, refersTo_char hc, ih]
  | reference m cs _ ih => rw [List.append_assoc, refersTo_reference, refersTo_reference, ih, or_assoc]

/-! ## One pass -/

theorem expandOnce_char (hc : c ≠ '%') (cs : List Char) : expandOnce es (c :: cs) = c :: expandOnce es cs := by
  rw [expandOnce, if_neg hc]

theorem expandOnce_reference (n : EntityName) (cs : List Char) :
    expandOnce es (n.reference ++ cs) = es.text n.chars ++ expandOnce es cs := by
  rw [EntityName.reference_append, expandOnce, if_pos rfl]
  split
  · rename_i h
    rw [reference?_append] at h
    cases h
    rfl
  · rename_i h
    rw [reference?_append] at h
    cases h

theorem expandOnce_of_not_refersTo (h : ∀ n, ¬ RefersTo cs n) : expandOnce es cs = cs := by
  induction cs with
  | nil => rw [expandOnce]
  | cons c cs ih =>
    have hcs : expandOnce es cs = cs := ih fun n hn => h n (hn.trans (List.suffix_cons c cs).isInfix)
    rw [expandOnce]
    split
    · rename_i hc
      subst hc
      split
      · rename_i name r href
        obtain ⟨n, -, hn⟩ := exists_of_reference? href
        exact absurd (hn ▸ (List.prefix_append n.reference r).isInfix) (h n)
      · rw [hcs]
    · rw [hcs]

theorem expandOnce_append (has : Complete as) (bs : List Char) :
    expandOnce es (as ++ bs) = expandOnce es as ++ expandOnce es bs := by
  induction has using Complete.induction with
  | nil => rw [expandOnce, List.nil_append, List.nil_append]
  | char c cs hc _ ih => rw [List.cons_append, expandOnce_char hc, expandOnce_char hc, ih, List.cons_append]
  | reference n cs _ ih =>
    rw [List.append_assoc, expandOnce_reference, expandOnce_reference, ih, List.append_assoc]

theorem complete_expandOnce (hes : ∀ name, Complete (es.text name)) (hcs : Complete cs) :
    Complete (expandOnce es cs) := by
  induction hcs using Complete.induction with
  | nil =>
    rw [expandOnce]
    exact complete_nil
  | char c cs hc _ ih =>
    rw [expandOnce_char hc]
    exact (complete_char hc).2 ih
  | reference n cs _ ih =>
    rw [expandOnce_reference]
    exact (hes n.chars).append ih

/-- **After a pass, a text refers to what the texts that were put in refer to.** -/
theorem refersTo_expandOnce (hes : ∀ name, Complete (es.text name)) (hcs : Complete cs) :
    RefersTo (expandOnce es cs) n ↔ ∃ m, RefersTo cs m ∧ RefersTo (es.text m.chars) n := by
  induction hcs using Complete.induction with
  | nil => simp [expandOnce, not_refersTo_nil]
  | char c cs hc _ ih =>
    rw [expandOnce_char hc, refersTo_char hc, ih]
    simp only [refersTo_char hc]
  | reference m cs _ ih =>
    rw [expandOnce_reference, (hes m.chars).refersTo_append, ih]
    simp only [refersTo_reference, or_and_right, exists_or, exists_eq_left]

/-! ## Nesting -/

theorem shallow_zero_iff : Shallow es 0 cs ↔ ∀ n, ¬ RefersTo cs n := by
  constructor
  · intro h n hn
    exact absurd (h [n] ⟨hn, trivial⟩) (by simp)
  · rintro h (_ | ⟨n, ns⟩) hns
    · exact Nat.le_refl 0
    · exact absurd hns.1 (h n)

theorem shallow_succ_iff {k : Nat} :
    Shallow es (k + 1) cs ↔ ∀ n, RefersTo cs n → Shallow es k (es.text n.chars) := by
  constructor
  · intro h n hn ns hns
    exact Nat.le_of_succ_le_succ (h (n :: ns) ⟨hn, hns⟩)
  · rintro h (_ | ⟨n, ns⟩) hns
    · exact Nat.zero_le _
    · exact Nat.succ_le_succ (h n hns.1 ns hns.2)

theorem Shallow.le {j k : Nat} (h : Shallow es j cs) (hjk : j ≤ k) : Shallow es k cs :=
  fun ns hns => (h ns hns).trans hjk

theorem Shallow.exists_lt {k : Nat} {ns : List EntityName} (h : Shallow es k cs) (hns : Leads es cs (ns ++ [n])) :
    ∃ j < k, Shallow es j (es.text n.chars) := by
  induction ns generalizing k cs with
  | nil =>
    cases k with
    | zero => exact absurd hns.1 (shallow_zero_iff.1 h n)
    | succ k => exact ⟨k, Nat.lt_succ_self k, shallow_succ_iff.1 h n hns.1⟩
  | cons m ns ih =>
    cases k with
    | zero => exact absurd hns.1 (shallow_zero_iff.1 h m)
    | succ k =>
      obtain ⟨j, hj, hshallow⟩ := ih (shallow_succ_iff.1 h m hns.1) hns.2
      exact ⟨j, Nat.lt_succ_of_lt hj, hshallow⟩

/-- References that lead back to where they come from are not nested to any depth. -/
theorem not_shallow_of_circle {ns : List EntityName} (hns : Leads es (es.text n.chars) (ns ++ [n])) (k : Nat) :
    ¬ Shallow es k (es.text n.chars) := by
  induction k using Nat.strong_induction_on with
  | _ k ih =>
    intro h
    -- The circle leads back to the same text, which would be nested to a smaller depth.
    obtain ⟨j, hj, hshallow⟩ := h.exists_lt hns
    exact ih j hj hshallow

theorem Leads.of_append {ns ms : List EntityName} (h : Leads es cs (ns ++ ms)) : Leads es cs ns := by
  induction ns generalizing cs with
  | nil => trivial
  | cons n ns ih => exact ⟨h.1, ih h.2⟩

/-- **References that are nested to a depth at most form no circles.** -/
theorem Shallow.nodup {k : Nat} {ns : List EntityName} (h : Shallow es k cs) (hns : Leads es cs ns) : ns.Nodup := by
  induction ns generalizing k cs with
  | nil => exact List.nodup_nil
  | cons n ns ih =>
    cases k with
    | zero => exact absurd hns.1 (shallow_zero_iff.1 h n)
    | succ k =>
      have hn := shallow_succ_iff.1 h n hns.1
      refine List.nodup_cons.2 ⟨fun hmem => ?_, ih hn hns.2⟩
      obtain ⟨as, bs, rfl⟩ := List.append_of_mem hmem
      have hcircle : Leads es (es.text n.chars) (as ++ [n] ++ bs) := by simpa using hns.2
      exact not_shallow_of_circle hcircle.of_append k hn

theorem forall_refersTo_expandOnce (hes : ∀ name, Complete (es.text name)) (hcs : Complete cs)
    {P : EntityName → Prop} : (∀ n, RefersTo (expandOnce es cs) n → P n) ↔
      ∀ m, RefersTo cs m → ∀ n, RefersTo (es.text m.chars) n → P n := by
  simp only [refersTo_expandOnce hes hcs]
  exact ⟨fun h m hm n hn => h n ⟨m, hm, hn⟩, fun h n ⟨m, hm, hn⟩ => h m hm n hn⟩

/-- **A pass takes one level off the nesting.** -/
theorem shallow_expandOnce (hes : ∀ name, Complete (es.text name)) (hcs : Complete cs) {k : Nat} :
    Shallow es k (expandOnce es cs) ↔ Shallow es (k + 1) cs := by
  cases k with
  | zero =>
    simp only [shallow_succ_iff, shallow_zero_iff]
    exact forall_refersTo_expandOnce hes hcs
  | succ k =>
    simp only [shallow_succ_iff]
    exact forall_refersTo_expandOnce hes hcs

/-! ## All passes -/

theorem expand_eq_iterate (es : Entities) (cs : List Char) : expand es cs = (expandOnce es)^[16] cs := by
  have hrepeat (k : Nat) : Nat.repeat (expandOnce es) k cs = (expandOnce es)^[k] cs := by
    induction k with
    | zero => rfl
    | succ k ih => rw [Nat.repeat, ih, Function.iterate_succ_apply']
  exact hrepeat 16

theorem refersTo_iterate_iff (hes : ∀ name, Complete (es.text name)) (hcs : Complete cs) {k : Nat} :
    (∀ n, ¬ RefersTo ((expandOnce es)^[k] cs) n) ↔ Shallow es k cs := by
  induction k generalizing cs with
  | zero => exact shallow_zero_iff.symm
  | succ k ih => rw [Function.iterate_succ_apply, ih (complete_expandOnce hes hcs), shallow_expandOnce hes hcs]

theorem iterate_append (hes : ∀ name, Complete (es.text name)) (has : Complete as) (k : Nat) (bs : List Char) :
    (expandOnce es)^[k] (as ++ bs) = (expandOnce es)^[k] as ++ (expandOnce es)^[k] bs := by
  induction k generalizing as bs with
  | zero => rfl
  | succ k ih =>
    simp only [Function.iterate_succ_apply]
    rw [expandOnce_append has, ih (complete_expandOnce hes has)]

theorem iterate_of_not_refersTo (h : ∀ n, ¬ RefersTo cs n) (k : Nat) : (expandOnce es)^[k] cs = cs :=
  Function.iterate_fixed (expandOnce_of_not_refersTo h) k

/-- A text without references expands to itself. -/
theorem expand_of_notMem (es : Entities) {cs : List Char} (h : '%' ∉ cs) : expand es cs = cs := by
  rw [expand_eq_iterate]
  exact iterate_of_not_refersTo (fun n hn => h (hn.subset List.mem_cons_self)) 16

theorem iterate_char (hes : ∀ name, Complete (es.text name)) (hc : c ≠ '%') (k : Nat) (cs : List Char) :
    (expandOnce es)^[k] (c :: cs) = c :: (expandOnce es)^[k] cs := by
  have hfixed : expandOnce es [c] = [c] := by
    rw [expandOnce_char hc, expandOnce]
  have happend := iterate_append hes ((complete_char hc).2 complete_nil) k cs
  rwa [Function.iterate_fixed hfixed] at happend

theorem Leads.mono {ns : List EntityName} (hns : Leads es cs ns) (h : ∀ n, RefersTo cs n → RefersTo bs n) :
    Leads es bs ns := by
  cases ns with
  | nil => trivial
  | cons n ns => exact ⟨h n hns.1, hns.2⟩

theorem Shallow.mono {k : Nat} (hbs : Shallow es k bs) (h : ∀ n, RefersTo cs n → RefersTo bs n) : Shallow es k cs :=
  fun ns hns => hbs ns (hns.mono h)

/-- **Passes come to the recursive substitution**, if there are as many of them as references are deep. -/
theorem substitutes_iterate (hes : ∀ name, Complete (es.text name)) {cs : List Char} (hcs : Complete cs) (k : Nat)
    (h : Shallow es k cs) : Substitutes es cs ((expandOnce es)^[k] cs) := by
  -- The induction is along the text.  What a reference stands for is there after one pass, and has one level less.
  induction hcs using Complete.induction with
  | nil =>
    rw [iterate_of_not_refersTo fun _ => not_refersTo_nil]
    exact .nil
  | char c cs hc _ ih =>
    rw [iterate_char hes hc]
    exact .char hc (ih (h.mono fun n => (refersTo_char hc).2))
  | reference n cs _ ih =>
    cases k with
    | zero => exact absurd (refersTo_reference.2 (.inl rfl)) (shallow_zero_iff.1 h n)
    | succ k =>
      have hvalue := substitutes_iterate hes (hes n.chars) k
        (shallow_succ_iff.1 h n (refersTo_reference.2 (.inl rfl)))
      have hrest := ih (h.mono fun m hm => refersTo_reference.2 (.inr hm))
      rw [Function.iterate_succ_apply, expandOnce_reference, iterate_append hes (hes n.chars),
        ← Function.iterate_succ_apply]
      exact .reference hvalue hrest
termination_by k

/-! ## Recursive substitution -/

theorem Substitutes.of_char {out : List Char} (h : Substitutes es (c :: cs) out) (hc : c ≠ '%') :
    ∃ rest, out = c :: rest ∧ Substitutes es cs rest := by
  generalize hds : c :: cs = ds at h
  cases h with
  | nil => cases hds
  | char _ h =>
    obtain ⟨rfl, rfl⟩ := List.cons.inj hds
    exact ⟨_, rfl, h⟩
  | reference _ _ => exact absurd (List.cons.inj hds).1 hc

theorem Substitutes.of_reference {out : List Char} (h : Substitutes es (n.reference ++ cs) out) :
    ∃ value rest, out = value ++ rest ∧ Substitutes es (es.text n.chars) value ∧ Substitutes es cs rest := by
  generalize hds : n.reference ++ cs = ds at h
  cases h with
  | nil => cases hds
  | char hc _ => exact absurd (List.cons.inj hds).1.symm hc
  | reference hvalue hrest =>
    obtain ⟨rfl, rfl⟩ := EntityName.reference_append_inj hds
    exact ⟨_, _, rfl, hvalue, hrest⟩

/-- **References can be substituted in one way only.** -/
theorem Substitutes.unique {out out' : List Char} (h : Substitutes es cs out) (h' : Substitutes es cs out') :
    out = out' := by
  induction h generalizing out' with
  | nil =>
    generalize hds : ([] : List Char) = ds at h'
    cases h' with
    | nil => rfl
    | char => cases hds
    | reference => cases hds
  | char hc _ ih =>
    obtain ⟨rest, rfl, hrest⟩ := h'.of_char hc
    rw [ih hrest]
  | reference _ _ ihvalue ihrest =>
    obtain ⟨value, rest, rfl, hvalue, hrest⟩ := h'.of_reference
    rw [ihvalue hvalue, ihrest hrest]

/-! ## The end of the passes -/

theorem Expansion.le {limit passes : Nat} {out : List Char} (h : Expansion es limit passes cs out) :
    passes ≤ limit := by
  induction h with
  | spent => exact Nat.le_refl 0
  | settled => exact Nat.zero_le _
  | pass _ _ ih => exact Nat.succ_le_succ ih

/-- **Passes always end**, and those that would find no reference change nothing. -/
theorem exists_expansion (es : Entities) (limit : Nat) (cs : List Char) :
    ∃ passes, Expansion es limit passes cs ((expandOnce es)^[limit] cs) := by
  induction limit generalizing cs with
  | zero => exact ⟨0, .spent⟩
  | succ limit ih =>
    by_cases hsome : ∃ n, RefersTo cs n
    · obtain ⟨n, hn⟩ := hsome
      obtain ⟨passes, hrest⟩ := ih (expandOnce es cs)
      exact ⟨passes + 1, .pass hn hrest⟩
    · have hnone : ∀ n, ¬ RefersTo cs n := fun n hn => hsome ⟨n, hn⟩
      rw [iterate_of_not_refersTo hnone]
      exact ⟨0, .settled hnone⟩

end Texts

/-- **A text is expanded to its recursive substitution, and to a text without references**, if all percent signs begin
references and these are at most sixteen deep.  In any case there are at most sixteen passes. -/
theorem expand_substitutes (es : Entities) (body : List Char) :
    (Complete body → (∀ name, Complete (es.text name)) → Shallow es 16 body →
      (∀ out, Substitutes es body out ↔ out = expand es body) ∧ ∀ n, ¬ RefersTo (expand es body) n) ∧
    ∃ passes ≤ 16, Expansion es 16 passes body (expand es body) := by
  rw [expand_eq_iterate]
  constructor
  · intro hbody hes hshallow
    have hout := substitutes_iterate hes hbody 16 hshallow
    refine ⟨fun out => ⟨fun h => h.unique hout, ?_⟩, (refersTo_iterate_iff hes hbody).2 hshallow⟩
    rintro rfl
    exact hout
  · obtain ⟨passes, hpasses⟩ := exists_expansion es 16 body
    exact ⟨passes, hpasses.le, hpasses⟩

/-- Names that nest, a name that is not declared, and beside them one that stands for itself. -/
theorem expand_substitutes_nested :
    let a : EntityName := ⟨'a', [], by decide, by decide⟩
    let b : EntityName := ⟨'b', ['1'], by decide, by decide⟩
    let o : EntityName := ⟨'_', [], by decide, by decide⟩
    let u : EntityName := ⟨'u', ['.', 'v'], by decide, by decide⟩
    let es : Entities := [(a.chars, 'x' :: (b.reference ++ b.reference)), (b.chars, ['y']), (o.chars, o.reference)]
    let body := a.reference ++ '|' :: u.reference
    (Complete body ∧ (∀ name, Complete (es.text name)) ∧ Shallow es 16 body) ∧
      expand es body = ['x', 'y', 'y', '|'] ∧ (∀ n, ¬ RefersTo (expand es body) n) ∧
      ∃ passes ≤ 16, Expansion es 16 passes o.reference (expand es o.reference) := by
  intro a b o u es body
  have hbody : Complete body := (complete_reference a _).2 ((complete_char (by decide)).2 (complete_self u))
  have hes : ∀ name, Complete (es.text name) := by
    refine complete_text ?_
    simp only [es, List.forall_mem_cons, List.not_mem_nil, false_imp_iff, implies_true, and_true]
    exact ⟨(complete_char (by decide)).2 ((complete_self b).append (complete_self b)),
      (complete_char (by decide)).2 complete_nil, complete_self o⟩
  have hshallow : Shallow es 16 body := by
    have hb : Shallow es 0 (es.text b.chars) :=
      shallow_zero_iff.2 fun n => (refersTo_char (by decide)).not.2 not_refersTo_nil
    have hu : Shallow es 1 (es.text u.chars) := shallow_succ_iff.2 fun n hn => absurd hn not_refersTo_nil
    have ha : Shallow es 1 (es.text a.chars) := shallow_succ_iff.2 fun n hn => by
      have htext : RefersTo ('x' :: (b.reference ++ (b.reference ++ []))) n := hn
      rw [refersTo_char (by decide), refersTo_reference, refersTo_reference, or_iff_left not_refersTo_nil,
        or_self] at htext
      exact htext ▸ hb
    have htwo : Shallow es 2 body := shallow_succ_iff.2 fun n hn => by
      have htext : RefersTo (a.reference ++ '|' :: (u.reference ++ [])) n := hn
      rw [refersTo_reference, refersTo_char (by decide), refersTo_reference, or_iff_left not_refersTo_nil] at htext
      rcases htext with rfl | rfl
      · exact ha
      · exact hu
    exact htwo.le (by decide)
  have hout : Substitutes es body ['x', 'y', 'y', '|'] := by
    have hb : Substitutes es (es.text b.chars) ['y'] := .char (by decide) .nil
    have hend : Substitutes es (b.reference ++ []) (['y'] ++ []) := .reference hb .nil
    have ha : Substitutes es (es.text a.chars) ('x' :: (['y'] ++ ['y'])) := .char (by decide) (.reference hb hend)
    have hu : Substitutes es (u.reference ++ []) ([] ++ []) := .reference .nil .nil
    exact .reference ha (.char (by decide) hu)
  obtain ⟨hexpand, hnone⟩ := (expand_substitutes es body).1 hbody hes hshallow
  exact ⟨⟨hbody, hes, hshallow⟩, ((hexpand _).1 hout).symm, hnone, (expand_substitutes es o.reference).2⟩

end Dtd
end Bookbinder
