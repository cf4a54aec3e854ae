import TagWatch.Run.Check
import TagWatch.Text.Cut

/-!
# The summary of a run

One line for each container with its status, followed by a note if the scope keeps a newer tag
out, then an empty line and the totals.
-/

namespace TagWatch

/-- The status of a container in words. -/
def Decision.status (d : Decision) : String :=
  match d.trace.error with
  | some error => "error: " ++ error
  | none =>
    if d.hasUpdate then
      match d.latest with
      | some latest => "update available: " ++ latest
      | none => if d.digestChanged then "new digest available" else "update available"
    else if d.baselineNeeded then "digest recorded: " ++ d.newDigest.getD "-"
    else "up to date"

/-- The lines on one container. -/
def ContainerCheck.lines (c : ContainerCheck) : List String :=
  (c.containerName ++ "  " ++ c.decision.status) ::
    (c.decision.trace.block.map fun b => "    note: " ++ b.message).toList

/-- The line with the totals. -/
def Metrics.line (m : Metrics) : String :=
  toString m.checkedContainers ++ " checked, " ++ toString m.uniqueImages ++ " unique images, " ++
    toString m.totalApiCalls ++ " API calls, " ++ toString m.updatesFound ++ " updates, " ++
    toString m.errors ++ " errors"

namespace Report

/-- The lines of the summary. -/
def lines (r : Report) : List String :=
  r.checks.flatMap ContainerCheck.lines ++ ["", r.metrics.line]

/-- The text of the summary. -/
def summary (r : Report) : String := Text.unlines r.lines

end Report

end TagWatch
