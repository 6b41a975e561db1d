import LicenseHeader.Report.Json
import LicenseHeader.Scan.Traverse

/-!
# The report on a run

A report lists every file with what was found in it, under a header with the
action, its times, some counts and all errors.
-/

namespace LicenseHeader

/-- When a run took place. -/
structure RunTimes where
  /-- The start, as a timestamp. -/
  start : String
  /-- The end, as a timestamp. -/
  stop : String
  /-- How long it took, in nanoseconds. -/
  nanoseconds : Nat
deriving DecidableEq, Repr

namespace RunTimes

/-- The duration in seconds, with nine places. -/
def seconds (t : RunTimes) : String :=
  let fraction := toString (t.nanoseconds % 1000000000)
  let zeros := String.ofList (List.replicate (9 - fraction.length) '0')
  toString (t.nanoseconds / 1000000000) ++ "." ++ zeros ++ fraction

end RunTimes

namespace Report

/-- The version of the program. -/
def toolVersion : String := "0.1.0"

/-- The version of the form of the report. -/
def formatVersion : String := "1.0.0"

/-- A text. -/
def text (t : Text) : Json := .str (String.ofList t)

/-- A language, by its tag. -/
def language (l : Option Language) : Json := l.elim .null fun l => .str l.tag

/-- A deviation. -/
def deviation : Deviation → Json
  | .lineCount found expected =>
    .obj [("kind", .str "line_count"), ("found", .nat found), ("expected", .nat expected)]
  | .mismatch line => .obj [("kind", .str "mismatch"), ("line", .nat line)]
  | .leadingText line t =>
    .obj [("kind", .str "leading_text"), ("line", .nat line), ("text", text t)]
  | .trailingText line t =>
    .obj [("kind", .str "trailing_text"), ("line", .nat line), ("text", text t)]

/-- A finding. -/
def finding : Finding → Json
  | .fileType l => .obj [("type", .str "file_type"), ("language", language l)]
  | .noCommentBlock => .obj [("type", .str "no_comment_block")]
  | .noCopyright => .obj [("type", .str "no_copyright")]
  | .noLicense => .obj [("type", .str "no_license")]
  | .unknownLicense => .obj [("type", .str "unknown_license")]
  | .licensed id => .obj [("type", .str "licensed"), ("license_id", .str id)]
  | .deviation d => .obj [("type", .str "deviation"), ("deviation", deviation d)]
  | .licenseAdded => .obj [("type", .str "license_added")]
  | .licenseReplaced => .obj [("type", .str "license_replaced")]
  | .reformatted => .obj [("type", .str "reformatted")]

/-- The report on one file. -/
def file (r : FileReport) : Json := .obj [
  ("path", text r.path), ("language", language r.language),
  ("findings", .arr (r.findings.map finding)), ("modified", .bool r.modified),
  ("scan_errors", .arr (r.errors.map fun e => .str e.message))]

/-- The errors of a file, each with its path. -/
def errorLines (r : FileReport) : List String :=
  r.errors.map fun e => s!"{String.ofList r.path}: {e.message}"

/-- **The report on a run**, which went through `directories` directories. -/
def ofScan (action : Action) (times : RunTimes) (directories : Nat) (s : Scan) : Json :=
  let counts := .obj [
    ("files_count", .nat s.reports.length), ("directories_count", .nat directories),
    ("excluded_count", .nat s.excluded),
    ("modified_count", .nat (s.reports.countP FileReport.modified)),
    ("system_environment", .obj [("tool_version", .str toolVersion)])]
  let header := .obj [
    ("action", .str action.name), ("start_timestamp", .str times.start),
    ("end_timestamp", .str times.stop), ("duration", .decimal times.seconds),
    ("extra_data", counts), ("errors", .arr ((s.reports.flatMap errorLines).map .str)),
    ("output_format_version", .str formatVersion)]
  .obj [("headers", .arr [header]), ("files", .arr (s.reports.map file))]

end Report

end LicenseHeader
