import Bookbinder.Proofs.BackMatterPages
import Bookbinder.Proofs.DocumentVerdicts
import Bookbinder.Proofs.TrimmedText
/-!
# The publisher's configuration of a book

The configuration is the store's base text with the brand in its places, the language in the first setting for it or in
a line of its own, and more lines at the end (`Completes`, which leaves nothing open: `completes_iff`).  The brand is put
in as a replacement text, in which dollar signs refer to groups of a match.  So it is put in as it is if and only if it
stands for itself or there is no place for it (`Bindery.publicanCfg_reads`).
-/
namespace Bookbinder

namespace Text

/-! ## First places -/

variable {p cs a r : List Char}

theorem cut?_eq_none_iff : cut? p cs = none ↔ ¬ p <:+: cs := by
  have hfront (cs : List Char) : after? p cs = none ↔ ¬ p <+: cs := by
    rw [← Dtd.isSome_after?_iff, Bool.not_eq_true, Option.isSome_eq_false_iff, Option.isNone_iff_eq_none]
  induction cs with
  | nil =>
    rw [cut?, List.infix_nil, ← List.prefix_nil, ← hfront]
    cases after? p [] <;> simp
  | cons c cs ih =>
    rw [cut?, List.infix_cons_iff, not_or, ← hfront]
    cases hafter : after? p (c :: cs) <;> cases hcut : cut? p cs <;> simp_all

/-- **A text is cut at a pattern's first place**: the pattern ends nowhere before that place ends. -/
theorem cut?_eq_some_iff (hp : p ≠ []) : cut? p cs = some (a, r) ↔ cs = a ++ p ++ r ∧ ¬ p <:+: a ++ p.dropLast := by
  have hlast : p = p.dropLast ++ [p.getLast hp] := (List.dropLast_concat_getLast hp).symm
  constructor
  · intro h
    refine ⟨cut?_eq_some h, fun hin => ?_⟩
    obtain ⟨⟨b, u⟩, hb⟩ : ∃ c, cut? p (a ++ p.dropLast) = some c :=
      Option.ne_none_iff_exists'.1 fun hn => cut?_eq_none_iff.1 hn hin
    have he := cut?_eq_some hb
    rw [he] at hb
    -- The earlier place would be found in the whole text as well, and would leave more of it.
    have hends := Xml.Markup.cut?_ends h
    have hwhole : a ++ p = b ++ p ++ (u ++ [p.getLast hp]) := by
      rw [← List.append_assoc, ← he, List.append_assoc, ← hlast]
    rw [hwhole, cut?_append hb] at hends
    exact absurd (congrArg Prod.snd (Option.some.inj hends)) (List.append_ne_nil_of_right_ne_nil u (List.cons_ne_nil _ _))
  · rintro ⟨rfl, hnot⟩
    obtain ⟨⟨b, u⟩, hb⟩ : ∃ c, cut? p (a ++ p) = some c :=
      Option.ne_none_iff_exists'.1 fun hn => cut?_eq_none_iff.1 hn (List.suffix_append a p).isInfix
    have he := cut?_eq_some hb
    rcases List.eq_nil_or_concat u with rfl | ⟨u, l, rfl⟩
    · rw [List.append_nil] at he
      obtain rfl := List.append_cancel_right he
      have := cut?_append (r := []) (by rwa [List.append_nil]) r
      exact this
    · rw [hlast, ← List.append_assoc, ← hlast, List.concat_eq_append, ← List.append_assoc] at he
      have hshort := (List.append_inj' he rfl).1
      exact absurd ⟨b, u, hshort.symm⟩ hnot

/-! ## Replaced places -/

/-- A text and what it becomes if a pattern's places in it, from the left and without overlaps, take another text. -/
inductive Replaced (p new : List Char) : List Char → List Char → Prop
  | rest {cs : List Char} : ¬ p <:+: cs → Replaced p new cs cs
  | place {before after after' : List Char} : ¬ p <:+: before ++ p.dropLast → Replaced p new after after' →
      Replaced p new (before ++ p ++ after) (before ++ new ++ after')

theorem replaceAll_of_absent {new : List Char} (h : ¬ p <:+: cs) : replaceAll p new cs = cs := by
  rw [replaceAll]
  split
  · rfl
  · split
    · rfl
    · rename_i hcut
      rw [cut?_eq_none_iff.2 h] at hcut
      cases hcut

theorem replaceAll_append {new : List Char} (hp : p ≠ []) (h : ¬ p <:+: a ++ p.dropLast) :
    replaceAll p new (a ++ p ++ r) = a ++ new ++ replaceAll p new r := by
  rw [replaceAll, dif_neg hp]
  split
  · rename_i hcut
    rw [(cut?_eq_some_iff hp).2 ⟨rfl, h⟩] at hcut
    cases hcut
  · rename_i hcut
    rw [(cut?_eq_some_iff hp).2 ⟨rfl, h⟩] at hcut
    cases hcut
    rfl

theorem replaced_replaceAll (hp : p ≠ []) (new cs : List Char) : Replaced p new cs (replaceAll p new cs) := by
  cases hcut : cut? p cs with
  | none =>
    rw [cut?_eq_none_iff] at hcut
    rw [replaceAll_of_absent hcut]
    exact .rest hcut
  | some c =>
    obtain ⟨a, r⟩ := c
    have := length_lt_of_cut? hp hcut
    obtain ⟨rfl, hfirst⟩ := (cut?_eq_some_iff hp).1 hcut
    rw [replaceAll_append hp hfirst]
    exact .place hfirst (replaced_replaceAll hp new r)
termination_by cs.length

/-- **There is one way to replace all places.** -/
theorem replaced_iff {new cs' : List Char} (hp : p ≠ []) : Replaced p new cs cs' ↔ cs' = replaceAll p new cs := by
  constructor
  · intro h
    induction h with
    | rest h => rw [replaceAll_of_absent h]
    | place h _ ih => rw [replaceAll_append hp h, ih]
  · rintro rfl
    exact replaced_replaceAll hp new cs

theorem Replaced.length_le {e b cs₁ cs₂ : List Char} (hle : e.length ≤ b.length) (hp : p ≠ []) (h₁ : Replaced p e cs cs₁)
    (h₂ : Replaced p b cs cs₂) : cs₁.length ≤ cs₂.length := by
  induction h₁ generalizing cs₂ with
  | rest h => rw [(replaced_iff hp).1 h₂, replaceAll_of_absent h]
  | @place before after after' h _ ih =>
    rw [(replaced_iff hp).1 h₂, replaceAll_append hp h]
    have := ih ((replaced_iff hp).2 rfl)
    simp only [List.length_append]
    omega

/-- **Two texts in the same places make a difference**, if there are such places. -/
theorem Replaced.eq_or_absent {e b cs' : List Char} (hp : p ≠ []) (he : Replaced p e cs cs') (hb : Replaced p b cs cs') :
    e = b ∨ ¬ p <:+: cs := by
  cases he with
  | rest h => exact .inr h
  | @place before after after' h he =>
    left
    rw [replaced_iff hp, replaceAll_append hp h, List.append_assoc, List.append_assoc] at hb
    have hsame := List.append_cancel_left hb
    have hafter : Replaced p b after (replaceAll p b after) := replaced_replaceAll hp b after
    have hlength := congrArg List.length hsame
    simp only [List.length_append] at hlength
    have hle := fun h : e.length ≤ b.length => he.length_le h hp hafter
    have hge := fun h : b.length ≤ e.length => hafter.length_le h hp he
    exact (List.append_inj hsame (by omega)).1

end Text

namespace PublicanConfig

open Text (Replaced cut? isBlank)

/-! ## Lines -/

def isLineBreak (c : Char) : Prop :=
  c = '\r' ∨ c = '\n'

/-- A text and what it becomes with one more line: the line begins where a line ends or the text begins, if need be
behind a line break of its own, and ends in a line break. -/
inductive AddsLine (line : List Char) : List Char → List Char → Prop
  | fresh {cs : List Char} : (∀ c ∈ cs.getLast?, c = '\n') → AddsLine line cs (cs ++ (line ++ ['\n']))
  | behind {cs : List Char} {c : Char} : c ≠ '\n' → AddsLine line (cs ++ [c]) (cs ++ c :: '\n' :: (line ++ ['\n']))

/-- A text and what it becomes with more lines, one after the other. -/
inductive AddsLines : List String → List Char → List Char → Prop
  | nil {cs : List Char} : AddsLines [] cs cs
  | cons {line : String} {lines : List String} {cs cs' cs'' : List Char} : AddsLine line.toList cs cs' →
      AddsLines lines cs' cs'' → AddsLines (line :: lines) cs cs''

theorem closed_of_getLast? {cs : List Char} (h : ∀ c ∈ cs.getLast?, c = '\n') : closed cs = cs := by
  rw [closed, if_pos]
  cases hlast : cs.getLast? with
  | none => simp [List.getLast?_eq_none_iff.1 hlast]
  | some c => simp [h c hlast]

theorem closed_concat {c : Char} (h : c ≠ '\n') (cs : List Char) : closed (cs ++ [c]) = cs ++ [c, '\n'] := by
  rw [closed, if_neg]
  · simp
  · simp [h]

theorem addsLine_iff {line : String} {cs cs' : List Char} : AddsLine line.toList cs cs' ↔ cs' = addLine cs line := by
  constructor
  · intro h
    cases h with
    | fresh h => rw [addLine, closed_of_getLast? h, List.append_assoc]
    | behind h => simp [addLine, closed_concat h]
  · rintro rfl
    by_cases hlast : ∀ c ∈ cs.getLast?, c = '\n'
    · rw [addLine, closed_of_getLast? hlast, List.append_assoc]
      exact .fresh hlast
    · push Not at hlast
      obtain ⟨c, hc, hne⟩ := hlast
      obtain ⟨cs, rfl⟩ := List.getLast?_eq_some_iff.1 hc
      have hline : addLine (cs ++ [c]) line = cs ++ c :: '\n' :: (line.toList ++ ['\n']) := by
        simp [addLine, closed_concat hne]
      rw [hline]
      exact .behind hne

theorem addsLines_iff {lines : List String} {cs cs' : List Char} : AddsLines lines cs cs' ↔ cs' = lines.foldl addLine cs := by
  constructor
  · intro h
    induction h with
    | nil => rfl
    | cons hline _ ih => rw [List.foldl_cons, ← addsLine_iff.1 hline, ih]
  · rintro rfl
    induction lines generalizing cs with
    | nil => exact .nil
    | cons line lines ih => exact .cons (addsLine_iff.2 rfl) ih

/-! ## The language -/

/-- A text and what it becomes with the language: the first setting for it gets another value, up to its line's end, or
there is a line for it if there has been none. -/
inductive WithLanguage (locale : String) : List Char → List Char → Prop
  | set {before value after : List Char} : ¬ languageKey.toList <:+: before ++ languageKey.toList.dropLast →
      (∀ c ∈ value, ¬ isLineBreak c) → (∀ c ∈ after.head?, isLineBreak c) →
      WithLanguage locale (before ++ languageKey.toList ++ (value ++ after))
        (before ++ languageKey.toList ++ (' ' :: locale.toList ++ after))
  | add {cs cs' : List Char} : ¬ languageKey.toList <:+: cs →
      AddsLine (languageKey ++ " " ++ locale).toList cs cs' → WithLanguage locale cs cs'

/-- What is left of a text behind its first line. -/
def behindLine (cs : List Char) : List Char :=
  cs.dropWhile fun c => c != '\r' && c != '\n'

theorem afterLine_append (cs : List Char) : (afterLine cs).1 ++ (afterLine cs).2 = behindLine cs := by
  unfold afterLine behindLine
  split <;> simp_all

theorem behindLine_append {value after : List Char} (hvalue : ∀ c ∈ value, ¬ isLineBreak c)
    (hafter : ∀ c ∈ after.head?, isLineBreak c) : behindLine (value ++ after) = after := by
  rw [behindLine, List.dropWhile_append_of_pos]
  · refine Text.dropWhile_eq_self fun c hc => ?_
    rcases hafter c hc with rfl | rfl <;> rfl
  · intro c hc
    have := hvalue c hc
    simp_all [isLineBreak]

theorem exists_line (cs : List Char) : ∃ value, cs = value ++ behindLine cs ∧ (∀ c ∈ value, ¬ isLineBreak c) ∧
    ∀ c ∈ (behindLine cs).head?, isLineBreak c := by
  refine ⟨cs.takeWhile fun c => c != '\r' && c != '\n', (List.takeWhile_append_dropWhile ..).symm, fun c hc => ?_,
    fun c hc => ?_⟩
  · have := List.mem_takeWhile_imp hc
    simp_all [isLineBreak]
  · have := Text.head_dropWhile c hc
    rw [Bool.and_eq_false_iff, bne_eq_false_iff_eq, bne_eq_false_iff_eq] at this
    exact this

theorem withLanguage_of_cut {locale : String} {cs before rest : List Char}
    (h : cut? languageKey.toList cs = some (before, rest)) :
    withLanguage locale cs = before ++ languageKey.toList ++ (' ' :: locale.toList ++ behindLine rest) := by
  rw [withLanguage, h, ← afterLine_append]
  simp

theorem withLanguage_iff {locale : String} {cs cs' : List Char} :
    WithLanguage locale cs cs' ↔ cs' = withLanguage locale cs := by
  have hkey : languageKey.toList ≠ [] := by decide
  constructor
  · intro h
    cases h with
    | set hfirst hvalue hafter =>
      rw [withLanguage_of_cut ((Text.cut?_eq_some_iff hkey).2 ⟨rfl, hfirst⟩), behindLine_append hvalue hafter]
    | add hnone hline => rw [withLanguage, Text.cut?_eq_none_iff.2 hnone, addsLine_iff.1 hline]
  · rintro rfl
    cases hcut : cut? languageKey.toList cs with
    | none =>
      rw [withLanguage, hcut]
      exact .add (Text.cut?_eq_none_iff.1 hcut) (addsLine_iff.2 rfl)
    | some c =>
      obtain ⟨before, rest⟩ := c
      obtain ⟨rfl, hfirst⟩ := (Text.cut?_eq_some_iff hkey).1 hcut
      rw [withLanguage_of_cut hcut]
      obtain ⟨value, hrest, hvalue, hafter⟩ := exists_line rest
      have hset : WithLanguage locale _ _ := .set hfirst hvalue hafter
      rwa [← hrest] at hset

/-! ## Whole configurations -/

/-- A text with the brand in it, and what it becomes with the language and with more lines. -/
def Completes (locale : String) (lines : List String) (branded : List Char) (text : String) : Prop :=
  ∃ localized, WithLanguage locale branded localized ∧ AddsLines lines localized text.toList

/-- **How a configuration is completed is not left open.** -/
theorem completes_iff {locale : String} {lines : List String} {branded : List Char} {text : String} :
    Completes locale lines branded text ↔ text.toList = lines.foldl addLine (withLanguage locale branded) := by
  constructor
  · rintro ⟨localized, hlanguage, hlines⟩
    rw [addsLines_iff.1 hlines, withLanguage_iff.1 hlanguage]
  · exact fun h => ⟨_, withLanguage_iff.2 rfl, addsLines_iff.2 h⟩

theorem completes_text {base brand locale : String} {lines : List String} :
    Completes locale lines (withBrand brand base.toList) (text base brand locale lines) := by
  rw [completes_iff, text, String.toList_ofList]

/-! ## Lines of one's own -/

/-- A text without the blanks around it. -/
structure Trims (s t : String) : Prop where
  around : ∃ lead tail, s.toList = lead ++ t.toList ++ tail ∧ (∀ c ∈ lead, isBlank c = true) ∧ ∀ c ∈ tail, isBlank c = true
  first : ∀ c ∈ t.toList.head?, isBlank c = false
  last : ∀ c ∈ t.toList.getLast?, isBlank c = false

theorem trims_trim (s : String) : Trims s (Text.trim s) where
  around := by
    rw [Text.trim, String.toList_ofList]
    exact Text.exists_trimChars s.toList
  first := by
    rw [Text.trim, String.toList_ofList]
    exact Text.head_trimChars s.toList
  last := by
    rw [Text.trim, String.toList_ofList]
    exact Text.getLast_trimChars s.toList

theorem Trims.eq_trim {s t : String} (h : Trims s t) : t = Text.trim s := by
  obtain ⟨lead, tail, hs, hlead, htail⟩ := h.around
  have htrim : Text.trimChars s.toList = t.toList := by
    unfold Text.trimChars Text.trimLeft Text.trimRight
    rw [hs, List.append_assoc, List.dropWhile_append_of_pos hlead]
    by_cases hnil : t.toList = []
    · rw [hnil, List.nil_append, List.dropWhile_eq_nil_iff.2 htail]
      rfl
    · have hfirst : ∀ c ∈ (t.toList ++ tail).head?, isBlank c = false := by
        rw [List.head?_append_of_ne_nil _ hnil]
        exact h.first
      rw [Text.dropWhile_eq_self hfirst, List.reverse_append, List.dropWhile_append_of_pos (by simpa using htail),
        Text.dropWhile_eq_self (by rw [List.head?_reverse]; exact h.last), List.reverse_reverse]
  rw [Text.trim, htrim, String.ofList_toList]

/-- What a specification adds to the configuration: nothing if it is blank, else its text without the blanks around it. -/
inductive OwnLines : Option String → List String → Prop
  | none : OwnLines none []
  | blank {s : String} : (∀ c ∈ s.toList, isBlank c = true) → OwnLines (some s) []
  | text {s t : String} : (¬ ∀ c ∈ s.toList, isBlank c = true) → Trims s t → OwnLines (some s) [t]

/-- The lines that a configuration gets besides that of the language. -/
def MoreLines (spec : ContentSpec) (settings : Settings) (lines : List String) : Prop :=
  ∃ own, OwnLines spec.publicanCfg own ∧ lines = own ++ ((if settings.showRemarks then ["show_remarks: 1"] else [])
    ++ (settings.cvsPackage.map ("cvs_pkg: " ++ ·)).toList)

theorem ownLines_iff {extra : Option String} {own : List String} :
    OwnLines extra own ↔ own = ((extra.filter fun s => !Text.allBlank s).map Text.trim).toList := by
  constructor
  · intro h
    cases h with
    | none => rfl
    | blank h => simp [Option.filter, Text.allBlank, List.all_eq_true.2 h]
    | @text s t h htrims =>
      have hnot : Text.allBlank s = false := by
        rw [← Bool.not_eq_true]
        exact fun hall => h (List.all_eq_true.1 hall)
      simp [Option.filter, hnot, htrims.eq_trim]
  · rintro rfl
    cases extra with
    | none => exact .none
    | some s =>
      by_cases hblank : Text.allBlank s = true
      · simp only [Option.filter, hblank]
        exact .blank (List.all_eq_true.1 hblank)
      · simp only [Option.filter, hblank]
        exact .text (fun h => hblank (List.all_eq_true.2 h)) (trims_trim s)

/-- **The further lines are not left open either.** -/
theorem moreLines_iff {spec : ContentSpec} {settings : Settings} {lines : List String} : MoreLines spec settings lines ↔
    lines = ((spec.publicanCfg.filter fun s => !Text.allBlank s).map Text.trim).toList
      ++ ((if settings.showRemarks then ["show_remarks: 1"] else [])
        ++ (settings.cvsPackage.map ("cvs_pkg: " ++ ·)).toList) := by
  simp only [MoreLines, ownLines_iff, exists_eq_left]

/-- **A configuration as it is meant to be**: the base text with the brand in all places for it, completed. -/
def IsConfig (brand locale : String) (lines : List String) (base text : String) : Prop :=
  ∃ branded, Replaced brandPlaceholder.toList brand.toList base.toList branded ∧ Completes locale lines branded text

theorem isConfig_iff {brand locale : String} {lines : List String} {base text : String} :
    IsConfig brand locale lines base text ↔ text.toList = lines.foldl addLine
      (withLanguage locale (Text.replaceAll brandPlaceholder.toList brand.toList base.toList)) := by
  have hplaceholder : brandPlaceholder.toList ≠ [] := by decide
  constructor
  · rintro ⟨branded, hbranded, htext⟩
    rw [completes_iff.1 htext, (Text.replaced_iff hplaceholder).1 hbranded]
  · exact fun h => ⟨_, (Text.replaced_iff hplaceholder).2 rfl, completes_iff.2 h⟩

end PublicanConfig

namespace Draft

variable {σ : Type} {b : Bindery σ} {d : Draft} {s s' : Session σ} {images : List Image} {fs : List File}

theorem count_publicanCfg (hrun : (d.files b images).Gives s fs s') :
    (fs.map (·.path)).count (d.name ++ "/publican.cfg") = 1 := by
  obtain ⟨topics, -, hpaths⟩ := paths_files hrun
  have hfolder : d.name ++ "/publican.cfg" ∉ (d.localFiles topics images).map d.localePath := fun hm => by
    obtain ⟨file, -, he⟩ := List.mem_map.1 hm
    exact d.publicanCfg_ne_localePath file he.symm
  rw [hpaths, List.count_cons_self, List.count_eq_zero.2 hfolder]

/-- The configuration is written from the base text that the store gives when the book is about to be printed. -/
theorem text?_publicanCfg (hrun : (d.files b images).Gives s fs s') : ∃ base,
    (b.store.text ConstantId.publicanCfg s.store).result = .ok base ∧
    (Archive.ofFiles fs).text? (d.name ++ "/publican.cfg")
      = some (PublicanConfig.text base (d.spec.brand.getD defaultBrand) d.locale d.configLines) := by
  have hcount := count_publicanCfg hrun
  obtain ⟨front, problems, chapters, topics, appendices, book, ⟨_, hfront⟩, -, -, -, -, -, rfl⟩ := exists_parts hrun
  obtain ⟨config, info, authors, preface, history, declarations, assets, ⟨_, hconfig⟩, -, -, -, -, -, -, rfl⟩ :=
    exists_frontParts hfront
  rw [publicanConfig] at hconfig
  obtain ⟨base, hbase, rfl⟩ := hconfig.map
  exact ⟨base, hbase.ask.1, text?_ofText (by simp) hcount⟩

end Draft

namespace Bindery

open PublicanConfig

variable {σ : Type} {b : Bindery σ} {spec : ContentSpec} {settings : Settings} {requester : Option String} {book : Book}
  {d : Draft} {images : List Image} {s s' t : Session σ}

theorem exists_publicanCfg (hbind : (b.bind spec settings requester).Gives s book s')
    (hprepare : (b.prepare spec settings requester).Gives s (d, images) t) : ∃ base lines,
    (b.store.text ConstantId.publicanCfg t.store).result = .ok base ∧ MoreLines spec settings lines ∧
    book.archive.text? (Slug.escape spec.title ++ "/publican.cfg")
      = some (PublicanConfig.text base (spec.brand.getD Draft.defaultBrand) (localeOf spec settings) lines) := by
  obtain ⟨d₀, s₀, hdraft, hfollows, -, -⟩ := exists_draft_of_prepare hprepare
  have hbegins := begins_draft hdraft
  obtain ⟨fs, t', hfiles, harchive⟩ := exists_files_of_bind hbind hprepare
  obtain ⟨base, hbase, htext⟩ := Draft.text?_publicanCfg hfiles
  have hlines : MoreLines d.spec d.settings d.configLines := moreLines_iff.2 (List.append_assoc _ _ _)
  rw [Draft.name, hfollows.spec, hbegins.spec, hfollows.locale, hbegins.locale] at htext
  rw [hfollows.spec, hbegins.spec, hfollows.settings, hbegins.settings] at hlines
  exact ⟨base, _, hbase, hlines, harchive ▸ htext⟩

/-- **What the publisher's configuration of a book is.**  The base text is what the store gives once the book has been
prepared.  In all places for the brand it gets what the brand stands for as a replacement text, and it is completed with
the language and the further lines.  The places get the brand itself if and only if it stands for itself, as every brand
without dollar signs does, or there is none. -/
theorem publicanCfg_reads (hbind : (b.bind spec settings requester).Gives s book s')
    (hprepare : (b.prepare spec settings requester).Gives s (d, images) t) : ∃ base branded lines text,
    (b.store.text ConstantId.publicanCfg t.store).result = .ok base ∧
    book.archive.text? (Slug.escape spec.title ++ "/publican.cfg") = some text ∧ MoreLines spec settings lines ∧
    Text.Replaced brandPlaceholder.toList (Replacement.expand brandPlaceholder.toList
      (spec.brand.getD Draft.defaultBrand).toList) base.toList branded ∧
    Completes (localeOf spec settings) lines branded text ∧
    (Text.Replaced brandPlaceholder.toList (spec.brand.getD Draft.defaultBrand).toList base.toList branded ↔
      Replacement.expand brandPlaceholder.toList (spec.brand.getD Draft.defaultBrand).toList
        = (spec.brand.getD Draft.defaultBrand).toList ∨ ¬ brandPlaceholder.toList <:+: base.toList) := by
  obtain ⟨base, lines, hbase, hlines, htext⟩ := exists_publicanCfg hbind hprepare
  have hplaceholder : brandPlaceholder.toList ≠ [] := by decide
  have hbranded := Text.replaced_replaceAll hplaceholder (Replacement.expand brandPlaceholder.toList
    (spec.brand.getD Draft.defaultBrand).toList) base.toList
  refine ⟨base, _, lines, _, hbase, htext, hlines, hbranded, completes_text, fun hliteral => ?_, ?_⟩
  · exact hbranded.eq_or_absent hplaceholder hliteral
  · rintro (hsame | hnone)
    · rw [hsame]
      exact Text.replaced_replaceAll hplaceholder _ _
    · rw [Text.replaceAll_of_absent hnone]
      exact .rest hnone

/-- A book of a brand, with lines of its own. -/
def brandedSpec (brand : String) : ContentSpec :=
  { titled "Book" with brand := some brand, publicanCfg := some " chunk_first: 1\n" }

/-- Settings by which the configuration gets all further lines. -/
def packagedSettings : Settings :=
  { sampleSettings with showRemarks := true, cvsPackage := some "docs" }

/-- A brand without dollar signs is what the places get. -/
theorem publicanCfg_reads_of_plain : ∃ book d images s' t,
    (sample.bind (brandedSpec "Red Hat") packagedSettings none).Gives (sampleSession "<section/>" "<section/>") book s' ∧
    (sample.prepare (brandedSpec "Red Hat") packagedSettings none).Gives (sampleSession "<section/>" "<section/>")
      (d, images) t ∧
    ∃ base text lines, (sample.store.text ConstantId.publicanCfg t.store).result = .ok base ∧
      book.archive.text? "Book/publican.cfg" = some text ∧ MoreLines (brandedSpec "Red Hat") packagedSettings lines ∧
      IsConfig "Red Hat" "en-US" lines base text := by
  have hruns : ∃ book d images s' t,
      (sample.bind (brandedSpec "Red Hat") packagedSettings none).Gives (sampleSession "<section/>" "<section/>") book s' ∧
      (sample.prepare (brandedSpec "Red Hat") packagedSettings none).Gives (sampleSession "<section/>" "<section/>")
        (d, images) t ∧ True ∧ True :=
    exists_bound (P := fun _ => True) (Q := fun _ _ => True) (by decide +kernel)
  obtain ⟨book, d, images, s', t, hbind, hprepare, -, -⟩ := hruns
  obtain ⟨base, branded, lines, text, hbase, htext, hlines, -, hcompletes, hliteral⟩ := publicanCfg_reads hbind hprepare
  refine ⟨book, d, images, s', t, hbind, hprepare, base, text, lines, hbase, htext, hlines, branded, ?_, hcompletes⟩
  exact hliteral.2 (.inl (Replacement.expand_of_notMem (by decide)))

/-- A dollar sign in a brand is taken for a reference to a group, and what follows it is lost. -/
theorem not_isConfig_of_dollar : ∃ book d images s' t base text,
    (sample.bind (brandedSpec "Red$Hat") packagedSettings none).Gives (sampleSession "<section/>" "<section/>") book s' ∧
    (sample.prepare (brandedSpec "Red$Hat") packagedSettings none).Gives (sampleSession "<section/>" "<section/>")
      (d, images) t ∧
    (sample.store.text ConstantId.publicanCfg t.store).result = .ok base ∧
    book.archive.text? "Book/publican.cfg" = some text ∧
    ∀ lines, MoreLines (brandedSpec "Red$Hat") packagedSettings lines → ¬ IsConfig "Red$Hat" "en-US" lines base text := by
  have hruns : ∃ book d images s' t,
      (sample.bind (brandedSpec "Red$Hat") packagedSettings none).Gives (sampleSession "<section/>" "<section/>") book s' ∧
      (sample.prepare (brandedSpec "Red$Hat") packagedSettings none).Gives (sampleSession "<section/>" "<section/>")
        (d, images) t ∧
      (sample.store.text ConstantId.publicanCfg t.store).result.toOption = some MemoryStore.sampleConfig ∧ True :=
    exists_bound_between (P := fun _ t =>
      (sample.store.text ConstantId.publicanCfg t.store).result.toOption = some MemoryStore.sampleConfig)
      (Q := fun _ _ => True) (by decide +kernel)
  obtain ⟨book, d, images, s', t, hbind, hprepare, hsample, -⟩ := hruns
  obtain ⟨base, lines, hbase, hlines, htext⟩ := exists_publicanCfg hbind hprepare
  obtain rfl : base = MemoryStore.sampleConfig := by
    rw [hbase] at hsample
    exact Option.some.inj hsample
  refine ⟨book, d, images, s', t, _, _, hbind, hprepare, hbase, htext, fun lines' hlines' hconfig => ?_⟩
  rw [moreLines_iff] at hlines hlines'
  rw [isConfig_iff, hlines', completes_iff.1 completes_text, hlines] at hconfig
  revert hconfig
  decide +kernel

end Bindery
end Bookbinder
