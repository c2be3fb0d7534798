import HostKit.Text.Basic

/-!
# The environment

The variables that a command can ask for, with their values. Of two entries for one name the
first counts. Apart from the variables, the user database may name a home directory.
-/

namespace HostKit

/-- The environment variables, as names and values, and the home directory that the user database
names, if it names one. -/
structure Environment where
  assignments : List (Text × Text) := []
  userHome : Option Text := none
  deriving Repr, DecidableEq

namespace Environment

/-- The value of a variable, if it is set. -/
def value? (environment : Environment) (name : Text) : Option Text :=
  (environment.assignments.find? fun entry => entry.1 = name).map Prod.snd

end Environment
end HostKit
