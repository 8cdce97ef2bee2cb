import DesignLint.CommandLine.Basic

/-!
# Reading command lines

Arguments are read from left to right.  Each command has switches, which stand alone, and settings,
which take a value: the next argument, or what follows `=`.  A setting is `pending` until its value
is complete; it takes effect when the next option is read, or at the end.
-/

namespace DesignLint

namespace CommandLine

/-- Options that stand alone. -/
inductive Switch
  | verbose
  | help
  | version
  | dryRun
deriving DecidableEq, Repr

/-- Options that take a value. -/
inductive Setting
  | repoRoot
  | config
  | paths
  | exclude
  | reportFormat
  | jsonOut
  | jobs
deriving DecidableEq, Repr

/-- The names of the commands. -/
inductive CommandName
  | version
  | scan
  | fix
  | rules
deriving DecidableEq, Repr

/-- The name of a switch, which follows two dashes. -/
def Switch.name : Switch → String
  | .verbose => "verbose"
  | .help => "help"
  | .version => "version"
  | .dryRun => "dry-run"

/-- The letter of a switch, which follows one dash. -/
def Switch.letter? : Switch → Option Char
  | .verbose => some 'v'
  | .help => some 'h'
  | .version => some 'V'
  | .dryRun => none

/-- The name of a setting. -/
def Setting.name : Setting → String
  | .repoRoot => "repo-root"
  | .config => "config"
  | .paths => "paths"
  | .exclude => "exclude"
  | .reportFormat => "report-format"
  | .jsonOut => "json-out"
  | .jobs => "jobs"

/-- Whether a setting may be given several times and takes values between commas. -/
def Setting.isList : Setting → Bool
  | .paths => true
  | .exclude => true
  | _ => false

/-- The command with a name. -/
def CommandName.ofText? (s : String) : Option CommandName :=
  if s == "version" then some .version
  else if s == "scan" then some .scan
  else if s == "fix" then some .fix
  else if s == "rules" then some .rules
  else none

/-- The options that are understood at some point. -/
structure Options where
  switches : List Switch
  settings : List Setting
deriving DecidableEq, Repr

/-- The options in front of a command. -/
def Options.leading : Options := ⟨[.verbose, .help, .version], []⟩

/-- The options behind a command. -/
def CommandName.options : CommandName → Options
  | .version => ⟨[.verbose, .help], []⟩
  | .scan =>
    ⟨[.verbose, .help], [.repoRoot, .config, .paths, .exclude, .reportFormat, .jsonOut, .jobs]⟩
  | .fix =>
    ⟨[.verbose, .help, .dryRun],
      [.repoRoot, .config, .paths, .exclude, .reportFormat, .jsonOut, .jobs]⟩
  | .rules => ⟨[.verbose, .help], [.repoRoot, .config, .reportFormat]⟩

/-- An argument by its form. -/
inductive Argument
  /-- `--`, behind which there are no options. -/
  | separator
  /-- A name behind two dashes, with what follows `=`. -/
  | named (name : String) (value : Option String)
  /-- Letters behind one dash. -/
  | letters (cs : Text)
  | word (s : String)
deriving DecidableEq, Repr

/-- The form of an argument; a single dash is a word. -/
def Argument.ofText (s : String) : Argument :=
  match s.toList with
  | ['-', '-'] => .separator
  | '-' :: '-' :: cs =>
    match cs.span (· != '=') with
    | (name, _ :: value) => .named (String.ofList name) (some (String.ofList value))
    | (name, []) => .named (String.ofList name) none
  | '-' :: c :: cs => .letters (c :: cs)
  | _ => .word s

/-- What has been read. -/
structure Given where
  switches : List Switch
  /-- Every setting with its values, in the order in which they took effect. -/
  values : List (Setting × List String)
  /-- A setting that has not taken effect, with its value if there is one. -/
  pending : Option (Setting × Option String)
  /-- Whether `--` has been read. -/
  separated : Bool
deriving DecidableEq, Repr

/-- Nothing has been read. -/
def Given.nothing : Given := ⟨[], [], none, false⟩

/-- A count: digits, perhaps behind a plus sign, that fit into 64 bits. -/
def count? (s : String) : Option Nat :=
  let digits :=
    match s.toList with
    | '+' :: cs => cs
    | cs => cs
  if digits.isEmpty || !digits.all Char.isDigit then none
  else
    let n := digits.foldl (fun n c => n * 10 + (c.toNat - '0'.toNat)) 0
    if n < Nat.pow 2 64 then some n else none

/-- Whether a setting takes a value. -/
def Setting.accepts (s : Setting) (value : String) : Bool :=
  match s with
  | .jobs => (count? value).isSome
  | _ => true

/-- The values between the commas of a text. -/
def between (value : String) : List String := (value.toList.splitOn ',').map String.ofList

namespace Given

/-- Lets a setting take effect. -/
def set (g : Given) (s : Setting) (value : String) : Except Rejection Given :=
  if s.isList then .ok { g with values := g.values ++ [(s, between value)] }
  else if g.values.any (·.1 == s) then .error (.usage (.repeated s.name))
  else if s.accepts value then .ok { g with values := g.values ++ [(s, [value])] }
  else .error (.usage (.invalidValue s.name value))

/-- Lets the pending setting take effect. -/
def settle (g : Given) : Except Rejection Given :=
  match g.pending with
  | none => .ok g
  | some (s, none) => .error (.usage (.missingValue s.name))
  | some (s, some value) => { g with pending := none }.set s value

/-- Turns on a switch. -/
def turnOn (g : Given) (s : Switch) : Except Rejection Given := do
  let g ← g.settle
  match s with
  | .help => .error .help
  | .version => .error .version
  | s =>
    if g.switches.contains s then .error (.usage (.repeated s.name))
    else return { g with switches := g.switches ++ [s] }

/-- Reads a named option. -/
def readNamed (o : Options) (g : Given) (name : String) (value : Option String) :
    Except Rejection Given :=
  match o.settings.find? (·.name == name), o.switches.find? (·.name == name) with
  | some s, _ => do
    let g ← g.settle
    match value with
    | some v => g.set s v
    | none => return { g with pending := some (s, none) }
  | none, some s =>
    match value with
    | some v => .error (.usage (.unwantedValue name v))
    | none => g.turnOn s
  | none, none => .error (.usage (.unknownArgument ("--" ++ name)))

/-- Reads the letter of a switch. -/
def readLetter (o : Options) (g : Given) (c : Char) : Except Rejection Given :=
  match o.switches.find? (·.letter? == some c) with
  | some s => g.turnOn s
  | none => .error (.usage (.unknownArgument (String.ofList ['-', c])))

/-- Reads an argument; `misplaced` tells what is wrong with a word that is no value. -/
def read (o : Options) (misplaced : String → UsageError) (g : Given) (argument : String) :
    Except Rejection Given :=
  if g.separated then .error (.usage (misplaced argument))
  else
    match Argument.ofText argument with
    | .separator => .ok { g with separated := true }
    | .named name value => g.readNamed o name value
    | .letters cs => cs.foldlM (readLetter o) g
    | .word s =>
      match g.pending with
      | some (setting, none) => .ok { g with pending := some (setting, some s) }
      | _ => .error (.usage (misplaced s))

/-- The value of a setting that is given once. -/
def value? (g : Given) (s : Setting) : Option String :=
  (g.values.find? (·.1 == s)).bind (·.2.head?)

/-- The values of a setting that may be given several times. -/
def valuesOf (g : Given) (s : Setting) : List String :=
  (g.values.filter (·.1 == s)).flatMap (·.2)

/-- What has been set for a run. -/
def overrides (g : Given) : Overrides :=
  ⟨g.value? .repoRoot, g.value? .config, g.valuesOf .paths, g.valuesOf .exclude,
    g.value? .reportFormat, (g.value? .jobs).bind count?⟩

/-- The command with a name and what has been set for it. -/
def command (g : Given) : CommandName → Command
  | .version => .version
  | .scan => .scan g.overrides (g.value? .jsonOut)
  | .fix => .fix g.overrides (g.value? .jsonOut) (g.switches.contains .dryRun)
  | .rules => .rules (g.value? .repoRoot) (g.value? .config) (g.value? .reportFormat)

end Given

/-- Reads what follows the name of a command. -/
def readCommand (leading : Given) (name : CommandName) (arguments : List String) :
    Except Rejection Invocation := do
  let g ← arguments.foldlM (Given.read name.options .unknownArgument) .nothing
  let g ← g.settle
  return ⟨leading.switches.contains .verbose || g.switches.contains .verbose, g.command name⟩

/-- What is wrong with a word in front of a command, where a command is expected. -/
def misplacedCommand (separated : Bool) (s : String) : UsageError :=
  if separated && ((CommandName.ofText? s).isSome || s == "help") then .unknownArgument s
  else .unknownCommand s

/-- Whether help can be given on what follows the word `help`. -/
def readHelp (arguments : List String) : Rejection :=
  match arguments with
  | [] => .help
  | topic :: rest =>
    if (CommandName.ofText? topic).isSome || topic == "help" then
      match rest with
      | [] => .help
      | further :: _ => .usage (.unknownCommand further)
    else .usage (.unknownCommand topic)

/-- Reads arguments in front of a command and then the command. -/
def readFrom (g : Given) : List String → Except Rejection Invocation
  | [] => .error (.usage (if g.switches.isEmpty then .nothingGiven else .missingCommand))
  | argument :: arguments =>
    match g.separated, CommandName.ofText? argument with
    | false, some name => readCommand g name arguments
    | separated, _ =>
      if !separated && argument == "help" then .error (readHelp arguments)
      else do
        let g ← g.read .leading (misplacedCommand separated) argument
        readFrom g arguments

end CommandLine

/-- Reads a command line, without the name of the program. -/
def Invocation.ofArguments (arguments : List String) : Except Rejection Invocation :=
  CommandLine.readFrom .nothing arguments

end DesignLint
