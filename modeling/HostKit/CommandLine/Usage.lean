import HostKit.Text.Basic

/-!
# Usage errors

Why the words of a command line do not make up a command. Asking for help or for the version
ends the reading of the words in the same way.
-/

namespace HostKit.CommandLine

/-- Why there is no command to run. -/
inductive UsageError where
  /-- A flag stands without its value, or with one that is none of those it may have. -/
  | invalidValue
  /-- A value cannot be read as what it should be. -/
  | valueValidation
  /-- A flag without a value is given one. -/
  | tooManyValues
  /-- A flag or an operand that the command does not have. -/
  | unknownArgument
  /-- A word that names no command where one is expected. -/
  | invalidSubcommand
  /-- A command is missing. -/
  | missingSubcommand
  /-- Nothing at all is given where a command is expected. -/
  | nothingGiven
  /-- An operand or flag that the command needs is missing. -/
  | missingRequiredArgument
  /-- A flag is given twice, or two arguments that exclude each other. -/
  | argumentConflict
  /-- Help is asked for. -/
  | help
  /-- The version is asked for. -/
  | version
  deriving Repr, DecidableEq

/-- The wording of an error. -/
def UsageError.message : UsageError → Text
  | .invalidValue => "a value is missing or is none of the possible ones"
  | .valueValidation => "a value cannot be read"
  | .tooManyValues => "a flag that takes no value is given one"
  | .unknownArgument => "an argument is not expected"
  | .invalidSubcommand => "a command is not known"
  | .missingSubcommand => "a command is missing"
  | .nothingGiven => "a command is required"
  | .missingRequiredArgument => "a required argument is missing"
  | .argumentConflict => "arguments cannot be used together"
  | .help => "help is asked for"
  | .version => "the version is asked for"

end HostKit.CommandLine
