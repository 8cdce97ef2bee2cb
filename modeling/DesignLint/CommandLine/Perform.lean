import DesignLint.CommandLine.Read
import DesignLint.Diff.Unified
import DesignLint.Report.Markdown
import DesignLint.Report.Document
import DesignLint.Report.Summary
import DesignLint.Run.Execute

/-!
# Performing commands

`perform` carries out a command line on a file tree: what it prints, how it ends and the tree that
it leaves behind.
-/

namespace DesignLint

/-- What carrying out a command line comes to. -/
structure Performance where
  code : ExitCode
  output : String
  errors : String
  tree : FileTree

/-- The version of the program. -/
def programVersion : String := "0.1.0"

/-- What is printed for help. -/
def helpText : String :=
  "Design-system compliance scanner and codemod\n\n" ++
    "Usage: dslint [-v|--verbose] <COMMAND>\n\n" ++
    "Commands:\n" ++
    "  version  Show version\n" ++
    "  scan     Scan for violations\n" ++
    "  fix      Apply safe fixes; with --dry-run, show them only\n" ++
    "  rules    List rules\n" ++
    "  help     Print this message\n\n" ++
    "Options of scan and fix: --repo-root --config --paths --exclude --report-format " ++
    "--json-out\n" ++
    "--jobs.  Options of rules: --repo-root --config --report-format.\n"

/-- The style of a line of a diff. -/
def diffLineStyle (line : Text) : Styled :=
  let s := String.ofList line
  match line with
  | '-' :: '-' :: '-' :: _ => .bold s
  | '+' :: '+' :: '+' :: _ => .bold s
  | '@' :: '@' :: _ => .ink .cyan s
  | '-' :: _ => .ink .red s
  | '+' :: _ => .ink .green s
  | _ => .plain s

/-- The lines of a text, without their line breaks. -/
def linesOf (cs : Text) : List Text :=
  let parts := cs.splitOn '\n'
  let ended := parts.dropLast.map fun l => if l.getLast? == some '\r' then l.dropLast else l
  ended ++ (parts.getLast?.toList.filter (· != []))

/-- A planned rewrite as it is printed. -/
def Preview.write (color : Bool) (p : Preview) : String :=
  let diff := unifiedDiff p.path p.before p.after
  if color then
    String.join ((linesOf diff.toList).map fun l => (diffLineStyle l).write true ++ "\n")
  else diff

/-- A report as it is printed. -/
def Report.write (format : ReportFormat) (color : Bool) (g : Registry) (r : Report)
    (vs : List Violation) : String :=
  match format with
  | .human => (r.summary vs).write color
  | .json => (r.withGate vs).toPrettyJson ++ "\n"
  | .markdown => r.markdown vs g

/-- The rules as they are printed. -/
def Registry.write (format : ReportFormat) (color : Bool) (g : Registry) : String :=
  match format with
  | .json => g.toDocument.toPrettyJson
  | .human => g.listing.write color
  | .markdown => g.listing.write false

/-- A command line that ends with an error, after some output. -/
def Performance.failed (color : Bool) (t : FileTree) (output : String) (e : RunError) :
    Performance :=
  ⟨e.exitCode, output, (Styled.boldInk .red "error:").write color ++ " " ++ e.message ++ "\n", t⟩

/-- Carries out a run, prints its report, and writes it to a file if one is named. -/
def performRun (color : Bool) (t : FileTree) (o : Overrides) (mode : RunMode)
    (jsonOut : Option String) : Performance :=
  match prepare t o with
  | .error e => .failed color t "" (.config e)
  | .ok (settings, g) =>
    match execute settings g mode false t with
    | (after, .error e) => .failed color after "" e
    | (after, .ok out) =>
      let vs := evaluate settings.config.thresholds out.report
      let format := settings.reportFormat
      let inColor := color && format == .human
      let previews := String.join (out.previews.map (Preview.write inColor))
      let output := previews ++ out.report.write format inColor g vs
      let code := if vs.isEmpty then ExitCode.passed else .gateFailed
      match jsonOut with
      | none => ⟨code, output, "", after⟩
      | some path =>
        match after.write path (out.report.withGate vs).toPrettyJson.toUTF8 with
        | .ok written => ⟨code, output, "", written⟩
        | .error e => .failed color after output (.io path e)

/-- Prints the rules. -/
def performRules (color : Bool) (t : FileTree) (o : Overrides) (reportFormat : Option String) :
    Performance :=
  let listing : Except ConfigError String := do
    let (settings, g) ← prepare t o
    let format ←
      match reportFormat with
      | some s => ReportFormat.ofText s
      | none => .ok settings.reportFormat
    return g.write format color
  match listing with
  | .ok s => ⟨.passed, s, "", t⟩
  | .error e => .failed color t "" (.config e)

/-- Carries out a command. -/
def Command.perform (color : Bool) (t : FileTree) : Command → Performance
  | .version => ⟨.passed, programVersion ++ "\n", "", t⟩
  | .scan o jsonOut => performRun color t o .scan jsonOut
  | .fix o jsonOut dryRun => performRun color t o (if dryRun then .dryRun else .fix) jsonOut
  | .rules repoRoot config reportFormat =>
    performRules color t { Overrides.none with repoRoot := repoRoot, config := config } reportFormat

/-- Says why a command line is not carried out. -/
def Rejection.perform (color : Bool) (t : FileTree) : Rejection → Performance
  | .help => ⟨.passed, helpText, "", t⟩
  | .version => ⟨.passed, "dslint " ++ programVersion ++ "\n", "", t⟩
  | .usage .nothingGiven => ⟨.usage, "", helpText, t⟩
  | .usage e =>
    ⟨.usage, "", (Styled.boldInk .red "error:").write color ++ " " ++ e.message ++ "\n", t⟩

/-- Carries out a command line, without the name of the program. -/
def perform (color : Bool) (t : FileTree) (arguments : List String) : Performance :=
  match Invocation.ofArguments arguments with
  | .ok i => i.command.perform color t
  | .error r => r.perform color t

end DesignLint
