import Bookbinder.ProblemLog
import Mathlib.Data.List.Induction
/-!
# Reports by their topics

What a log makes of the problems that are reported to it: the topics in the order of their first reports, each with its
problems once (`topics_addAll`).
-/
namespace Bookbinder

/-- A problem as it is reported. -/
structure Remark where
  topic : Topic
  severity : Severity
  message : String

namespace Remark

def problem (r : Remark) : Problem :=
  ⟨r.severity, r.message⟩

/-- The id under which a report is filed. -/
def topicId (r : Remark) : Int :=
  r.topic.sourceId

/-- The first report on each topic. -/
def firsts : List Remark → List Remark
  | [] => []
  | r :: rs => r :: (firsts rs).filter fun r' => r'.topicId != r.topicId

/-- What is reported on the topic of an id, once each. -/
def problemsOf (id : Int) (rs : List Remark) : List Problem :=
  ((rs.filter fun r => r.topicId == id).map problem).eraseDups

/-- Reports by their topics. -/
def collated (rs : List Remark) : List TopicProblems :=
  (firsts rs).map fun r => ⟨.of r.topic, problemsOf r.topicId rs⟩

/-! ## Collating -/

theorem firsts_subset (rs : List Remark) : firsts rs ⊆ rs := by
  induction rs with
  | nil => exact List.Subset.refl _
  | cons r rs ih => exact List.cons_subset_cons r (List.Subset.trans List.filter_sublist.subset ih)

theorem firsts_append_singleton (rs : List Remark) (r : Remark) :
    firsts (rs ++ [r]) = if r.topicId ∈ rs.map topicId then firsts rs else firsts rs ++ [r] := by
  induction rs with
  | nil => rfl
  | cons r₀ rs ih =>
    rw [List.cons_append, firsts, firsts, ih, List.map_cons]
    by_cases hmem : r.topicId ∈ rs.map topicId
    · rw [if_pos hmem, if_pos (List.mem_cons_of_mem _ hmem)]
    · rw [if_neg hmem, List.filter_append]
      by_cases hid : r.topicId = r₀.topicId
      · rw [if_pos (List.mem_cons.2 (.inl hid)), List.filter_cons_of_neg (by simpa using hid), List.filter_nil,
          List.append_nil]
      · rw [if_neg (List.mem_cons.not.2 (not_or.2 ⟨hid, hmem⟩)), List.filter_cons_of_pos (by simpa using hid),
          List.filter_nil, List.cons_append]

/-- Topics are listed in the order of their first reports. -/
theorem map_topicId_firsts (rs : List Remark) : (firsts rs).map topicId = (rs.map topicId).eraseDups := by
  induction rs using List.reverseRecOn with
  | nil => rfl
  | append_singleton rs r ih =>
    rw [firsts_append_singleton, List.map_append, List.eraseDups_append, ← ih]
    by_cases hmem : r.topicId ∈ rs.map topicId
    · rw [if_pos hmem, List.map_singleton, List.removeAll, List.filter_cons_of_neg (by simpa using hmem), List.filter_nil,
        List.eraseDups_nil, List.append_nil]
    · rw [if_neg hmem, List.map_append, List.map_singleton, List.removeAll,
        List.filter_cons_of_pos (by simpa using hmem), List.filter_nil]
      rfl

theorem nodup_firsts (rs : List Remark) : ((firsts rs).map topicId).Nodup := by
  induction rs with
  | nil => exact List.nodup_nil
  | cons r rs ih =>
    rw [firsts, List.map_cons, List.nodup_cons]
    refine ⟨fun hm => ?_, ih.sublist (List.filter_sublist.map _)⟩
    obtain ⟨f, hf, hid⟩ := List.mem_map.1 hm
    exact bne_iff_ne.1 (List.mem_filter.1 hf).2 hid

theorem problemsOf_append_of_ne {id : Int} {r : Remark} (h : r.topicId ≠ id) (rs : List Remark) :
    problemsOf id (rs ++ [r]) = problemsOf id rs := by
  rw [problemsOf, List.filter_append, List.filter_cons_of_neg (by simpa using h), List.filter_nil, List.append_nil]
  rfl

theorem problemsOf_append (rs : List Remark) (r : Remark) :
    problemsOf r.topicId (rs ++ [r]) = ProblemLog.addNew (problemsOf r.topicId rs) r.problem := by
  rw [problemsOf, List.filter_append, List.filter_cons_of_pos (by simp), List.filter_nil, List.map_append,
    List.map_singleton, List.eraseDups_append, ProblemLog.addNew, problemsOf, List.removeAll]
  generalize (rs.filter fun r' => r'.topicId == r.topicId).map problem = ps
  by_cases hmem : r.problem ∈ ps
  · rw [List.filter_cons_of_neg (by simpa using hmem), List.filter_nil, List.eraseDups_nil, List.append_nil,
      if_pos (by simpa using hmem)]
  · rw [List.filter_cons_of_pos (by simpa using hmem), List.filter_nil, if_neg (by simpa using hmem)]
    rfl

theorem problemsOf_of_notMem {id : Int} {rs : List Remark} (h : id ∉ rs.map topicId) : problemsOf id rs = [] := by
  rw [problemsOf, List.filter_eq_nil_iff.2 fun r hr he => h (List.mem_map.2 ⟨r, hr, beq_iff_eq.1 he⟩)]
  rfl

end Remark

/-! ## The log -/

namespace ProblemLog

open Remark

/-- The log with reports added one after the other. -/
def addAll (log : ProblemLog) (rs : List Remark) : ProblemLog :=
  rs.foldl (fun log r => log.add r.severity r.topic r.message) log

theorem addAll_append (log : ProblemLog) (rs rs' : List Remark) :
    log.addAll (rs ++ rs') = (log.addAll rs).addAll rs' :=
  List.foldl_append

theorem locale_addAll : ∀ (rs : List Remark) (log : ProblemLog), (log.addAll rs).locale = log.locale
  | [], _ => rfl
  | _ :: rs, log => locale_addAll rs (log.add _ _ _)

theorem file_of_mem {t : Topic} {p : Problem} {ds : List TopicProblems} (hnodup : (ds.map (·.topic.topicId)).Nodup)
    (h : t.sourceId ∈ ds.map (·.topic.topicId)) : file t p ds = ds.map fun d =>
      if d.topic.topicId = t.sourceId then { d with items := addNew d.items p } else d := by
  induction ds with
  | nil => exact absurd h List.not_mem_nil
  | cons d ds ih =>
    rw [List.map_cons, List.nodup_cons] at hnodup
    rw [file, List.map_cons]
    by_cases hd : d.topic.topicId = t.sourceId
    · rw [if_pos hd, if_pos hd]
      refine congrArg _ ((List.map_congr_left fun d' hd' => ?_).trans (List.map_id ds)).symm
      exact if_neg fun he => hnodup.1 (List.mem_map.2 ⟨d', hd', he.trans hd.symm⟩)
    · rw [if_neg hd, if_neg hd, ih hnodup.2 ((List.mem_cons.1 h).resolve_left (Ne.symm hd))]

theorem file_of_notMem {t : Topic} {p : Problem} {ds : List TopicProblems}
    (h : t.sourceId ∉ ds.map (·.topic.topicId)) : file t p ds = ds ++ [⟨.of t, [p]⟩] := by
  induction ds with
  | nil => rfl
  | cons d ds ih =>
    rw [List.map_cons, List.mem_cons, not_or] at h
    rw [file, if_neg (Ne.symm h.1), ih h.2, List.cons_append]

theorem topicIds_collated (rs : List Remark) :
    (collated rs).map (·.topic.topicId) = (firsts rs).map topicId := by
  rw [collated, List.map_map]
  rfl

theorem file_collated (rs : List Remark) (r : Remark) :
    file r.topic r.problem (collated rs) = collated (rs ++ [r]) := by
  have hids : r.topicId ∈ (collated rs).map (·.topic.topicId) ↔ r.topicId ∈ rs.map topicId := by
    rw [topicIds_collated, map_topicId_firsts, List.mem_eraseDups]
  have hother {f : Remark} (hf : f.topicId ≠ r.topicId) :
      problemsOf f.topicId (rs ++ [r]) = problemsOf f.topicId rs := problemsOf_append_of_ne hf.symm rs
  by_cases hmem : r.topicId ∈ rs.map topicId
  · rw [file_of_mem (by rw [topicIds_collated]; exact nodup_firsts rs) (hids.2 hmem), collated, collated,
      firsts_append_singleton, if_pos hmem, List.map_map]
    refine List.map_congr_left fun f _ => ?_
    by_cases hf : f.topicId = r.topicId
    · rw [hf, problemsOf_append, ← hf]
      exact if_pos hf
    · rw [hother hf]
      exact if_neg hf
  · rw [file_of_notMem (hids.not.2 hmem), collated, collated, firsts_append_singleton, if_neg hmem, List.map_append,
      List.map_singleton, problemsOf_append, problemsOf_of_notMem hmem]
    refine congrArg (· ++ _) (List.map_congr_left fun f hf => ?_)
    rw [hother fun he => hmem (he ▸ List.mem_map_of_mem (firsts_subset rs hf))]

/-- **The log holds the topics in the order of their first reports, each with its problems once.** -/
theorem topics_addAll (locale : String) (rs : List Remark) :
    (({ locale } : ProblemLog).addAll rs).topics = collated rs := by
  induction rs using List.reverseRecOn with
  | nil => rfl
  | append_singleton rs r ih => rw [addAll_append, ← file_collated, ← ih]; rfl

end ProblemLog

/-- Problems of a topic, all of one severity. -/
def Topic.remarks (t : Topic) (s : Severity) (messages : List String) : List Remark :=
  messages.map fun m => ⟨t, s, m⟩

end Bookbinder
