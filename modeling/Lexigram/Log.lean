/-!
Log records. The library writes none: what would be logged is returned beside
the result, or computed from it.
-/

namespace Lexigram

/-- How grave a record is, gravest first. -/
inductive Level where
  | error
  | warn
  | info
  | debug
  | trace
  deriving Repr, DecidableEq

namespace Level

/-- The grades from 1, gravest, to 5. -/
def rank : Level → Nat
  | error => 1
  | warn => 2
  | info => 3
  | debug => 4
  | trace => 5

/-- The name in capitals. -/
def name : Level → String
  | error => "ERROR"
  | warn => "WARN"
  | info => "INFO"
  | debug => "DEBUG"
  | trace => "TRACE"

end Level

/-- One line of a log. -/
structure LogRecord where
  level : Level
  message : String
  deriving Repr, DecidableEq

end Lexigram
