/-!
# Logging

Every logger stands below the program's own, which takes one handler and passes nothing on.  A
level is a number; five of them have names of their own.
-/

namespace EnumHelpers

/-- The state of the program's logger. -/
structure Logging where
  level : Int
  handlers : Nat
  passesOn : Bool
  deriving DecidableEq, Repr

namespace Logging

/-- The name of the program's logger. -/
def rootName : String := "enumer"

/-- The level that is set unless another is asked for. -/
def warningLevel : Int := 30

/-- The level of the finest messages. -/
def debugLevel : Int := 10

/-- The name of a level. -/
def levelName (level : Int) : String :=
  if level = 0 then "NOTSET"
  else if level = 10 then "DEBUG"
  else if level = 20 then "INFO"
  else if level = 30 then "WARNING"
  else if level = 40 then "ERROR"
  else if level = 50 then "CRITICAL"
  else "Level " ++ toString level

/-- The logger after it is set up. -/
def setUp (level : Int) (verbose : Bool) : Logging :=
  ⟨if verbose then debugLevel else level, 1, false⟩

/-- The full name of a logger: below the program's own, unless it begins with its name. -/
def loggerName (name : String) : String :=
  if rootName.toList.isPrefixOf name.toList then name else rootName ++ "." ++ name

end Logging
end EnumHelpers
