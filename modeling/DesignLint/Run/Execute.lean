import DesignLint.Run.Basic
import DesignLint.Walk.Candidates

/-!
# Carrying out a run

A run reviews every candidate and, if fixes are to be written, writes those that change.  `visit`
deals with one candidate and leaves all other files alone; `Selection.run` visits them one after
the other and reports.
-/

namespace DesignLint

/-- What a visit to a candidate comes to. -/
inductive Visit
  | skipped (s : Skipped)
  | done (result : FileResult) (preview : Option Preview)
deriving DecidableEq, Repr

namespace FileTree

/-- Writes the fixed text of a file to the file that a path leads to; a link on the way stays. -/
def writeFixed (t : FileTree) (path : String) (text : Text) : FileTree × WriteOutcome :=
  match t.resolve path with
  | .error e => (t, .failed (RunError.io path e).message)
  | .ok target =>
    match t.replace target (String.ofList text).toUTF8 with
    | .ok t => (t, .written)
    | .error e => (t, .failed (RunError.io target.path e).message)

end FileTree

/-- Reviews a file that has been read and writes it if that is wanted. -/
def visitSource (g : Registry) (mode : RunMode) (t : FileTree) (path : String) (file : Source) :
    FileTree × Visit :=
  let r := review g file
  let preview := (r.preview? mode).map (Preview.mk file.path file.text)
  if r.wantsWrite mode then
    let (t, write) := t.writeFixed path r.text
    (t, .done (r.result mode write) preview)
  else (t, .done (r.result mode .written) preview)

namespace Selection

/-- Deals with a candidate. -/
def visit (s : Selection) (g : Registry) (mode : RunMode) (t : FileTree) (path : String) :
    FileTree × Visit :=
  match s.load t path with
  | .error e => (t, .skipped e)
  | .ok file => visitSource g mode t path file

/-- Deals with some candidates, one after the other. -/
def visitAll (s : Selection) (g : Registry) (mode : RunMode) (t : FileTree) :
    List String → FileTree × List Visit
  | [] => (t, [])
  | path :: paths =>
    let (t, v) := s.visit g mode t path
    let (t, vs) := s.visitAll g mode t paths
    (t, v :: vs)

end Selection

namespace Visit

/-- The result of a visit, if the file could be read. -/
def result? : Visit → Option FileResult
  | .skipped _ => none
  | .done r _ => some r

/-- The rewrite that a visit plans. -/
def preview? : Visit → Option Preview
  | .skipped _ => none
  | .done _ p => p

/-- The file that a visit leaves out. -/
def skipped? : Visit → Option Skipped
  | .skipped s => some s
  | .done .. => none

end Visit

/-- What a run comes to, given what could not be walked and what the visits came to. -/
def RunOutput.ofVisits (mode : RunMode) (walkSkips : List Skipped) (visits : List Visit) :
    Except RunError RunOutput :=
  let results := visits.filterMap Visit.result?
  let previews := (visits.filterMap Visit.preview?).mergeSort fun a b => a.path ≤ b.path
  let skipped := walkSkips ++ visits.filterMap Visit.skipped?
  match Report.aggregate mode results.length results skipped with
  | .ok report => .ok ⟨report, previews⟩
  | .error e => .error (.integrity e)

/-- Carries out a run; gives the tree that it leaves behind. -/
def Selection.run (s : Selection) (g : Registry) (mode : RunMode) (t : FileTree) :
    FileTree × Except RunError RunOutput :=
  let (after, visits) := s.visitAll g mode t (s.candidates t)
  (after, RunOutput.ofVisits mode (s.walkSkips t) visits)

/-- Carries out a run with some settings.  A run that is cancelled before it starts does
nothing. -/
def execute (settings : Settings) (g : Registry) (mode : RunMode) (cancelled : Bool)
    (t : FileTree) : FileTree × Except RunError RunOutput :=
  match Selection.ofSettings settings with
  | .error e => (t, .error (.config e))
  | .ok s => if cancelled then (t, .error .cancelled) else s.run g mode t

end DesignLint
