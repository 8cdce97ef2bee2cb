import DesignLint.Ignore.Pattern
import DesignLint.Path
import DesignLint.Text.Blank

/-!
# Rules of ignore files

Each line of an ignore file is a rule.  A rule that starts with `!` keeps what earlier rules
ignore, a rule with a slash at the end is about directories only, and a rule with any other slash
is about paths below the directory of the file, not about names.  The last rule that matches a path
decides.
-/

namespace DesignLint

/-- What rules say about a path. -/
inductive Verdict
  | ignored
  | kept
deriving DecidableEq, Repr

/-- A rule of an ignore file. -/
structure IgnoreRule where
  pattern : List IgnoreToken
  verdict : Verdict
  onlyDirectories : Bool

/-- A line that is no rule. -/
structure IgnoreError where
  path : String
  line : Nat
  source : String
  flaw : IgnoreFlaw
deriving DecidableEq, Repr

/-- How an error is reported. -/
def IgnoreError.message (e : IgnoreError) : String :=
  let what :=
    match e.flaw with
    | .notText => e.flaw.message
    | flaw => "error parsing glob '" ++ e.source ++ "': " ++ flaw.message
  e.path ++ ": line " ++ toString e.line ++ ": " ++ what

/-- The rules of a file, in order. -/
abbrev IgnoreRules := List IgnoreRule

namespace IgnoreRule

/-- A line without blanks at its end, unless a backslash keeps one. -/
def trimLine (cs : Text) : Text :=
  if ['\\', ' '].isSuffixOf cs then cs else Text.trimEnd cs

/-- Whether a pattern starts with any number of components. -/
def startsAnywhere (cs : Text) : Bool := ['*', '*', '/'].isPrefixOf cs || cs == ['*', '*']

/-- A line without a slash at its end, and without a backslash before that slash. -/
def withoutSlash (cs : Text) : Bool × Text :=
  match cs.reverse with
  | '/' :: '\\' :: rest => (true, rest.reverse)
  | '/' :: rest => (true, rest.reverse)
  | _ => (false, cs)

/-- The pattern that a rule stands for.  One without a slash may match in any directory, and one
for everything inside a directory does not match the directory. -/
def fullPattern (anchored : Bool) (cs : Text) : Text :=
  let anywhere := !anchored && !cs.contains '/' && !startsAnywhere cs
  let cs := if anywhere then ['*', '*', '/'] ++ cs else cs
  if ['/', '*', '*'].isSuffixOf cs then cs ++ ['/', '*'] else cs

/-- What a line starts with: whether it keeps, whether it is anchored, and what follows. -/
def front (cs : Text) : Bool × Bool × Text :=
  match cs with
  | '\\' :: '!' :: rest => (false, false, '!' :: rest)
  | '\\' :: '#' :: rest => (false, false, '#' :: rest)
  | '!' :: '/' :: rest => (true, true, rest)
  | '!' :: rest => (true, false, rest)
  | '/' :: rest => (false, true, rest)
  | cs => (false, false, cs)

/-- Reads a line; remarks and empty lines are no rules. -/
def ofLine? (line : Text) : Except IgnoreFlaw (Option IgnoreRule) := do
  let cs := trimLine line
  if line.head? == some '#' || cs.isEmpty then return none
  let (keeps, anchored, cs) := front cs
  let (onlyDirectories, cs) := withoutSlash cs
  let pattern ← IgnorePattern.ofText (fullPattern anchored cs)
  return some ⟨pattern, if keeps then .kept else .ignored, onlyDirectories⟩

/-- Whether a rule is about a path, relative to the directory of the file. -/
def applies (r : IgnoreRule) (path : Bytes) (isDirectory : Bool) : Bool :=
  (!r.onlyDirectories || isDirectory) && IgnorePattern.tokensMatch r.pattern path

end IgnoreRule

namespace IgnoreRules

/-- What the last rule about a path says. -/
def verdict? (rules : IgnoreRules) (path : Bytes) (isDirectory : Bool) : Option Verdict :=
  (rules.reverse.find? (·.applies path isDirectory)).map (·.verdict)

/-- The lines of a file, without their line breaks; a line that is not text is absent and the last
one. -/
def lines (content : ByteArray) : List (Option String) :=
  let parts := content.data.toList.splitOn 10
  let parts := if parts.getLast? == some [] then parts.dropLast else parts
  let texts := parts.map fun bs =>
    let bs := if bs.getLast? == some 13 then bs.dropLast else bs
    String.fromUTF8? ⟨bs.toArray⟩
  let (good, bad) := texts.span (·.isSome)
  good ++ bad.take 1

/-- Adds a line to rules, or to errors. -/
def addLine (path : String) (read : IgnoreRules × List IgnoreError) (line : Nat × Option String) :
    IgnoreRules × List IgnoreError :=
  match line.2 with
  | none => (read.1, read.2 ++ [⟨path, line.1, "", .notText⟩])
  | some s =>
    let cs := if line.1 == 1 then s.toList.dropWhile (· == '\ufeff') else s.toList
    match IgnoreRule.ofLine? cs with
    | .ok (some rule) => (read.1 ++ [rule], read.2)
    | .ok none => read
    | .error flaw =>
      (read.1, read.2 ++ [⟨path, line.1, String.ofList (IgnoreRule.trimLine cs), flaw⟩])

/-- Reads the ignore file at a path: its rules and its errors.  That the file is not text is no
error by itself. -/
def ofContent (path : String) (content : ByteArray) : IgnoreRules × List IgnoreError :=
  let numbered := (lines content).zipIdx.map fun l => (l.2 + 1, l.1)
  let (rules, errors) := numbered.foldl (addLine path) ([], [])
  (rules, if errors.map (·.flaw) == [.notText] then [] else errors)

end IgnoreRules

end DesignLint
