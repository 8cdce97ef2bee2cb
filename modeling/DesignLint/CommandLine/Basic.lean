import DesignLint.Settings.Basic

/-!
# Commands

A `Command` is what a user asks for.  A `Rejection` says why a command line is not carried out:
because it asks for help or for the version, or because of a `UsageError`.
-/

namespace DesignLint

/-- What a user asks for. -/
inductive Command
  | version
  | scan (overrides : Overrides) (jsonOut : Option String)
  | fix (overrides : Overrides) (jsonOut : Option String) (dryRun : Bool)
  | rules (repoRoot config reportFormat : Option String)
deriving DecidableEq, Repr

/-- A command line that has been read. -/
structure Invocation where
  verbose : Bool
  command : Command
deriving DecidableEq, Repr

/-- What can be wrong with a command line. -/
inductive UsageError
  | unknownArgument (given : String)
  | unknownCommand (given : String)
  | missingCommand
  /-- There is no argument at all. -/
  | nothingGiven
  | repeated (option : String)
  | missingValue (option : String)
  | invalidValue (option given : String)
  /-- An option that takes no value has one. -/
  | unwantedValue (option given : String)
deriving DecidableEq, Repr

/-- How an error is reported. -/
def UsageError.message : UsageError → String
  | .unknownArgument given => "unexpected argument '" ++ given ++ "' found"
  | .unknownCommand given => "unrecognized subcommand '" ++ given ++ "'"
  | .missingCommand => "'dslint' requires a subcommand but one was not provided"
  | .nothingGiven => "no arguments were provided"
  | .repeated option => "the argument '" ++ option ++ "' cannot be used multiple times"
  | .missingValue option => "a value is required for '" ++ option ++ "' but none was supplied"
  | .invalidValue option given => "invalid value '" ++ given ++ "' for '" ++ option ++ "'"
  | .unwantedValue option given => "unexpected value '" ++ given ++ "' for '" ++ option ++ "'"

/-- Why a command line is not carried out. -/
inductive Rejection
  | help
  | version
  | usage (error : UsageError)
deriving DecidableEq, Repr

end DesignLint
