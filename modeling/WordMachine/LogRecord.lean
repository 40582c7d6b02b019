-- Log records.

namespace WordMachine

/-- How grave a log record is. -/
inductive LogLevel
  | debug | error
  deriving DecidableEq, Repr

/-- What a stage notes about its work: a message and named values. -/
structure LogRecord where
  level : LogLevel
  stage : String
  message : String
  fields : List (String × String)
  deriving DecidableEq, Repr

/-- The short name of a level. -/
def LogLevel.name : LogLevel → String
  | debug => "DEBG"
  | error => "ERRO"

end WordMachine
