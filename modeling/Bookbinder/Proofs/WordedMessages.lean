import Bookbinder.Proofs.ElementContent
import Bookbinder.Proofs.ReportedProblems
/-!
# How problems are worded

Whatever the titles, image names and sources are that a message quotes, it is running text with at most some emphasis and
listings in between (`Draft.Chronicle.worded`).
-/
namespace Bookbinder

open Xml (CharacterData Worded)

namespace Xml

/-- Words without any markup. -/
def Phrase (s : String) : Prop :=
  CharacterData s.toList

namespace Phrase

variable {s t : String}

theorem append (hs : Phrase s) (ht : Phrase t) : Phrase (s ++ t) := by
  rw [Phrase, String.toList_append]
  exact CharacterData.append hs ht

theorem of_running (h : Template.Running s) : Phrase s := CharacterData.of_isText h

theorem escape (s : String) : Phrase (Text.escape s) := CharacterData.escape s

theorem int (i : Int) : Phrase (toString i) := of_running (Template.running_int i)

theorem intercalate (hs : Phrase s) : ∀ {ts : List String}, (∀ t ∈ ts, Phrase t) → Phrase (s.intercalate ts)
  | [], _ => by
    rw [String.intercalate_nil]
    exact .nil
  | [t], h => by
    rw [String.intercalate_singleton]
    exact h t List.mem_cons_self
  | t :: u :: ts, h => by
    rw [String.intercalate_cons_cons]
    exact ((h t List.mem_cons_self).append hs).append (intercalate hs fun v hv => h v (List.mem_cons_of_mem t hv))

theorem worded (h : Phrase s) : Worded s := .words h

end Phrase

/-! ## Emphasis and listings -/

theorem tagsAround_emphasis (e : String) : tagsAround "emphasis" [] e = "<emphasis>" ++ e ++ "</emphasis>" := by
  have hopen : startTag "emphasis" [] = "<emphasis>" := by decide
  have hclose : endTag "emphasis" = "</emphasis>" := by decide
  rw [tagsAround, hopen, hclose]

theorem tagsAround_listing (x : String) :
    tagsAround "programlisting" [] x = "<programlisting>" ++ x ++ "</programlisting>" := by
  have hopen : startTag "programlisting" [] = "<programlisting>" := by decide
  have hclose : endTag "programlisting" = "</programlisting>" := by decide
  rw [tagsAround, hopen, hclose]

end Xml

open Xml (Phrase)

/-! ## Sources and translations -/

theorem Manuscript.phrase_emptyMessage : Phrase emptyMessage := .of_running (by decide)

theorem Manuscript.worded_malformedMessage (cause : Xml.XmlError) : Worded (malformedMessage cause) := by
  have hopen : "This topic doesn't have well-formed xml. The error is <emphasis>"
      = "This topic doesn't have well-formed xml. The error is " ++ "<emphasis>" := by decide
  have hshape : malformedMessage cause = "This topic doesn't have well-formed xml. The error is "
      ++ (Xml.tagsAround "emphasis" [] (Text.escape cause.message) ++ "") := by
    rw [Xml.tagsAround_emphasis, String.append_empty, ← String.append_assoc, ← String.append_assoc]
    exact congrArg (· ++ Text.escape cause.message ++ "</emphasis>") hopen
  rw [hshape]
  exact .emphasis (Phrase.of_running (by decide)) (.escape _) (.words .nil)

theorem Draft.phrase_placeholderMessage (t : Topic) : Phrase (placeholderMessage t) := by
  unfold placeholderMessage
  refine (((((Phrase.append ?_ (.int _)).append ?_).append (.int _)).append ?_).append (.escape _)).append ?_
  all_goals exact .of_running (by decide)

theorem Draft.phrase_translationWarnings (d : Draft) (t : Topic) : ∀ m ∈ d.translationWarnings t, Phrase m := by
  intro m hm
  rcases List.mem_append.1 hm with hm | hm
  · obtain ⟨r, -, rfl⟩ := List.mem_map.1 hm
    exact phrase_placeholderMessage r
  · split at hm
    · rw [List.mem_singleton.1 hm]
      exact .of_running (by decide)
    · split at hm
      · rw [List.mem_singleton.1 hm]
        exact .of_running (by decide)
      · exact absurd hm List.not_mem_nil

/-! ## Injections -/

namespace Injection

theorem phrase_joinIds (ids : List MarkerId) : Phrase (joinIds ids) := by
  refine .intercalate (.of_running (by decide)) fun s hs => ?_
  obtain ⟨id, -, rfl⟩ := List.mem_map.1 hs
  exact .int id.topicId

theorem phrase_messages (u : Unresolved) (counts : MarkerId → Bool) : ∀ m ∈ u.messages counts, Phrase m := by
  have hlinks (ids : List MarkerId) : Phrase (linksMessage ids) := by
    unfold linksMessage
    refine ((Phrase.append ?_ (phrase_joinIds ids)).append ?_).append ?_
    all_goals exact .of_running (by decide)
  have htexts (ids : List MarkerId) : Phrase (textsMessage ids) := by
    unfold textsMessage
    refine (Phrase.append ?_ (phrase_joinIds ids)).append ?_
    all_goals exact .of_running (by decide)
  have htitles (ids : List MarkerId) : Phrase (titlesMessage ids) := by
    unfold titlesMessage
    refine (Phrase.append ?_ (phrase_joinIds ids)).append ?_
    all_goals exact .of_running (by decide)
  intro m hm
  obtain ⟨⟨ids, message⟩, hin, hmessage⟩ := List.mem_filterMap.1 hm
  have hphrase (ids : List MarkerId) : Phrase (message ids) := by
    simp only [List.mem_cons, Prod.mk.injEq, List.not_mem_nil, or_false] at hin
    rcases hin with ⟨-, rfl⟩ | ⟨-, rfl⟩ | ⟨-, rfl⟩
    · exact hlinks ids
    · exact htexts ids
    · exact htitles ids
  dsimp only at hmessage
  split at hmessage
  · cases hmessage
  · cases hmessage
    exact hphrase _

/-- A report in words. -/
def Report.Phrased (r : Report) : Prop :=
  (∀ m ∈ r.warnings, Phrase m) ∧ ∀ m ∈ r.errors, Phrase m

theorem phrased_report (t : Tally) (tolerant : Bool) : (t.report tolerant).Phrased := by
  unfold Tally.report
  split
  · exact ⟨phrase_messages _ _, fun _ h => absurd h List.not_mem_nil⟩
  · exact ⟨fun _ h => absurd h List.not_mem_nil, phrase_messages _ _⟩

end Injection

theorem RelatedTopics.phrase_message? (r : RelatedTopics) : ∀ m ∈ r.message?, Phrase m := by
  intro m hm
  unfold message? at hm
  split at hm
  · cases hm
  · cases hm
    refine (Phrase.append ?_ (.intercalate ?_ fun s hs => ?_)).append ?_
    · exact .of_running (by decide)
    · exact .of_running (by decide)
    · obtain ⟨id, -, rfl⟩ := List.mem_map.1 hs
      exact .int id
    · exact .of_running (by decide)

theorem Draft.phrased_inject (d : Draft) (step : Nat) (t : Topic) (root : Xml.Element) (c : Template.Context) :
    (d.inject step t root c).report.Phrased := by
  have hlinks {i : Injected} (h : i.report.Phrased) : (d.addLinks step t i).report.Phrased := by
    unfold addLinks
    split
    · refine ⟨h.1, List.forall_mem_append.2 ⟨h.2, fun m hm => ?_⟩⟩
      exact RelatedTopics.phrase_message? _ m (Option.mem_toList.1 hm)
    · exact h
  have hadded (p : Xml.Element × Injection.Report) (h : p.2.Phrased) :
      (if d.policy.allowed then d.addLinks step t ⟨p.1, p.2, c⟩ else ⟨p.1, p.2, c⟩).report.Phrased := by
    split
    · exact hlinks h
    · exact h
  have hprocessed : (if d.policy.allowedFor t then
      Injection.process (.book d.registry d.stable step) d.settings.ignoreMissingInjections t root
      else (root, {})).2.Phrased := by
    split
    · exact Injection.phrased_report _ _
    · exact ⟨fun _ h => absurd h List.not_mem_nil, fun _ h => absurd h List.not_mem_nil⟩
  exact hadded _ hprocessed

/-! ## Refused pages and images -/

theorem Draft.worded_injectionMessage (root : Xml.Element) : Worded (injectionMessage root) := by
  have hopen : "Topic has invalid Injection Points. The processed XML is <programlisting>"
      = "Topic has invalid Injection Points. The processed XML is " ++ "<programlisting>" := by decide
  have hshape : injectionMessage root = "Topic has invalid Injection Points. The processed XML is "
      ++ (Xml.tagsAround "programlisting" [] (Xml.wrapInCdata root.toXml) ++ "") := by
    rw [Xml.tagsAround_listing, String.append_empty, ← String.append_assoc, ← String.append_assoc]
    exact congrArg (· ++ Xml.wrapInCdata root.toXml ++ "</programlisting>") hopen
  rw [hshape]
  exact .listing (Phrase.of_running (by decide)) (.words .nil)

theorem Draft.worded_invalidMessage (failure page : String) : Worded (invalidMessage failure page) := by
  have hopen : "Topic has invalid Docbook XML. The error is <emphasis>"
      = "Topic has invalid Docbook XML. The error is " ++ "<emphasis>" := by decide
  have hnext : "</emphasis>. The processed XML is <programlisting>"
      = "</emphasis>" ++ (". The processed XML is " ++ "<programlisting>") := by decide
  have hshape : invalidMessage failure page = "Topic has invalid Docbook XML. The error is "
      ++ (Xml.tagsAround "emphasis" [] (Text.escape failure) ++ (". The processed XML is "
        ++ (Xml.tagsAround "programlisting" [] (Xml.wrapInCdata page) ++ ""))) := by
    have hmarked : invalidMessage failure page = "Topic has invalid Docbook XML. The error is " ++ "<emphasis>"
        ++ Text.escape failure ++ ("</emphasis>" ++ (". The processed XML is " ++ "<programlisting>"))
        ++ Xml.wrapInCdata page ++ "</programlisting>" :=
      congrArg₂ (fun a b => a ++ Text.escape failure ++ b ++ Xml.wrapInCdata page ++ "</programlisting>") hopen hnext
    rw [hmarked, Xml.tagsAround_emphasis, Xml.tagsAround_listing, String.append_empty]
    simp only [String.append_assoc]
  rw [hshape]
  exact .emphasis (Phrase.of_running (by decide)) (.escape _)
    (.listing (Phrase.of_running (by decide)) (.words .nil))

theorem ImageRef.phrase_notFoundMessage (id : Int) (fileref : String) : Phrase (notFoundMessage id fileref) := by
  unfold notFoundMessage
  refine (((Phrase.append ?_ (.int id)).append ?_).append (.escape fileref)).append ?_
  all_goals exact .of_running (by decide)

theorem ImageRef.phrase_badNameMessage (fileref : String) : Phrase (badNameMessage fileref) :=
  (Phrase.escape fileref).append (.of_running (by decide))

/-! ## The whole build -/

theorem Topic.worded_remarks {t : Topic} {s : Severity} {messages : List String} (h : ∀ m ∈ messages, Worded m) :
    ∀ r ∈ t.remarks s messages, Worded r.message := by
  intro r hr
  obtain ⟨m, hm, rfl⟩ := List.mem_map.1 hr
  exact h m hm

theorem ImageRef.Remarked.worded {i : ImageRef} {rs : List Remark} (h : i.Remarked rs) :
    ∀ r ∈ rs, Worded r.message := by
  cases h with
  | found id named => exact fun _ h => absurd h List.not_mem_nil
  | missing id named =>
    exact Topic.worded_remarks (List.forall_mem_singleton.2 (ImageRef.phrase_notFoundMessage id _).worded)
  | misnamed unnamed =>
    exact Topic.worded_remarks (List.forall_mem_singleton.2 (ImageRef.phrase_badNameMessage _).worded)

namespace Draft

variable {d : Draft} {rs : List Remark}

theorem worded_sourceRemarks (t : Topic) : ∀ r ∈ sourceRemarks t, Worded r.message := by
  unfold sourceRemarks
  split
  · exact Topic.worded_remarks (List.forall_mem_singleton.2 Manuscript.phrase_emptyMessage.worded)
  · exact Topic.worded_remarks (List.forall_mem_singleton.2 (Manuscript.worded_malformedMessage _))
  · exact fun _ h => absurd h List.not_mem_nil

theorem Remarked.worded {e : TopicEntry} (h : d.Remarked e rs) : ∀ r ∈ rs, Worded r.message := by
  cases h with
  | absent topic => exact fun _ h => absurd h List.not_mem_nil
  | bodiless t topic manuscript => exact Topic.worded_remarks fun m hm => (d.phrase_translationWarnings t m hm).worded
  | settled t doc rs topic manuscript judged =>
    obtain ⟨hwarnings, herrors⟩ : (d.injection e t doc).report.Phrased := d.phrased_inject _ _ _ _
    refine List.forall_mem_append.2 ⟨List.forall_mem_append.2 ⟨List.forall_mem_append.2 ⟨?_, ?_⟩, ?_⟩, ?_⟩
    · exact Topic.worded_remarks fun m hm => (d.phrase_translationWarnings t m hm).worded
    · exact Topic.worded_remarks fun m hm => (hwarnings m hm).worded
    · exact Topic.worded_remarks fun m hm => (herrors m hm).worded
    · generalize e.outcome = outcome at judged
      cases judged with
      | accepted => exact fun _ h => absurd h List.not_mem_nil
      | refused content message refusal =>
        refine Topic.worded_remarks (List.forall_mem_singleton.2 ?_)
        cases refusal with
        | injection invalid => exact worded_injectionMessage _
        | page page failure dtd validator validator' valid render judge => exact worded_invalidMessage failure page

/-- **All that is reported in the course of a build is worded.** -/
theorem Chronicle.worded (h : d.Chronicle rs) : ∀ r ∈ rs, Worded r.message := by
  cases h with
  | intro remarks refs images references topics shown =>
    refine List.forall_mem_append.2 ⟨List.forall_mem_append.2 ⟨fun r hr => ?_, fun r hr => ?_⟩, fun r hr => ?_⟩
    · obtain ⟨t, -, hr⟩ := List.mem_flatMap.1 hr
      exact worded_sourceRemarks t r hr
    · obtain ⟨rs, hrs, hr⟩ := List.mem_flatten.1 hr
      obtain ⟨e, -, he⟩ := exists_of_forall₂_right references hrs
      exact he.worded r hr
    · obtain ⟨rs, hrs, hr⟩ := List.mem_flatten.1 hr
      obtain ⟨i, -, hi⟩ := exists_of_forall₂_right shown hrs
      exact hi.worded r hr

end Draft
end Bookbinder
