/-!
The arguments of the command line: a command, its files and its flags.

    print GRAMMAR [--bnf] [--left-recursion] [--tree]
    regex GRAMMAR [--fallback]
    lex GRAMMAR [INPUT] [--buffer-size N] [--threaded] [--fallback]
      [--skip-invalid]

Flags may stand anywhere behind the command, each once; `-v` or `--verbose`,
which makes the log more detailed, may be repeated and also stand in front of
the command. Behind `--` all arguments are files.
-/

namespace Lexigram

/-- What the command line asks for. -/
inductive Command where
  /-- Prints a grammar or its outline, made plain if `plain`. -/
  | print (grammar : String) (plain leftRecursion outline : Bool)
  /-- Prints the patterns of a grammar's lexicon. -/
  | patterns (grammar : String) (fallback : Bool)
  /-- Prints the tokens of a file or of the standard input. -/
  | lex (grammar : String) (input : Option String) (bufferSize : Nat)
      (threaded fallback skipInvalid : Bool)
  deriving Repr, DecidableEq

namespace Command

/-- A command and how often the log was asked to be more detailed. -/
structure Invocation where
  verbosity : Nat
  command : Command
  deriving Repr, DecidableEq

/-- The flags that a command has; `bufferSize` says whether it has that
option. -/
structure Signature where
  flags : List String
  bufferSize : Bool
  deriving Repr, DecidableEq

/-- Arguments sorted by their kind. -/
structure Sorted where
  verbosity : Nat
  flags : List String
  bufferSize : Option String
  files : List String
  deriving Repr, DecidableEq

namespace Sorted

/-- No arguments. -/
def empty : Sorted := ⟨0, [], none, []⟩

/-- Whether a flag was given. -/
def has (s : Sorted) (flag : String) : Bool :=
  s.flags.contains flag

end Sorted

/-- Whether an argument is a flag and cannot be the value of an option. -/
def looksLikeFlag (argument : String) : Bool :=
  match argument.toList with
  | '-' :: _ :: _ => true
  | _ => false

/-- How many steps of detail a cluster of short flags asks for: it has nothing
but the letter `v`. -/
def shortVerbosity? (letters : List Char) : Option Nat :=
  if letters.all (· = 'v') then some letters.length else none

/-- Adds a flag, which may not have been given before and has to be one of the
command's. -/
def addFlag? (signature : Signature) (s : Sorted) (flag : String) :
    Option Sorted :=
  if flag = "verbose" then some { s with verbosity := s.verbosity + 1 }
  else if signature.flags.contains flag ∧ !s.has flag then
    some { s with flags := flag :: s.flags }
  else none

/-- Adds the value of an option. -/
def addOption? (signature : Signature) (s : Sorted) (option value : String) :
    Option Sorted :=
  if option = "buffer-size" ∧ signature.bufferSize ∧ s.bufferSize.isNone then
    some { s with bufferSize := some value }
  else none

/-- Sorts the arguments of a command with the given signature. -/
def sort? (signature : Signature) (s : Sorted) : List String → Option Sorted
  | [] => some s
  | argument :: rest =>
    match argument.toList with
    | ['-', '-'] => some { s with files := s.files ++ rest }
    | '-' :: '-' :: name =>
      match name.dropWhile (· != '='), rest with
      | _ :: value, rest =>
        (addOption? signature s (String.ofList (name.takeWhile (· != '=')))
          (String.ofList value)).bind (sort? signature · rest)
      | [], rest =>
        if name = "buffer-size".toList then
          match rest with
          | value :: rest =>
            if looksLikeFlag value then none
            else (addOption? signature s "buffer-size" value).bind
              (sort? signature · rest)
          | [] => none
        else (addFlag? signature s (String.ofList name)).bind
          (sort? signature · rest)
    | '-' :: letter :: letters =>
      (shortVerbosity? (letter :: letters)).bind fun n =>
        sort? signature { s with verbosity := s.verbosity + n } rest
    | _ => sort? signature { s with files := s.files ++ [argument] } rest

/-- Reads a number of 64 bits, with a plus sign if need be. -/
def number? (text : String) : Option Nat :=
  let digits := match text.toList with
    | '+' :: digits => digits
    | digits => digits
  if digits.isEmpty || digits.any fun c => c < '0' || '9' < c then none
  else
    let n := digits.foldl (fun n c => 10 * n + (c.toNat - 48)) 0
    if n < 0x10000000000000000 then some n else none

/-- The size of the buffer unless another is given. -/
def defaultBufferSize : Nat := 2048

/-- The command with a name and the arguments behind it, and the steps of detail
among these. -/
def command? (name : String) (arguments : List String) :
    Option (Command × Nat) := do
  let signature ← match name with
    | "print" => some ⟨["bnf", "left-recursion", "tree"], false⟩
    | "regex" => some ⟨["fallback"], false⟩
    | "lex" => some ⟨["threaded", "fallback", "skip-invalid"], true⟩
    | _ => none
  let s ← sort? signature .empty arguments
  if s.files.contains "" then none
  match name, s.files with
  | "print", [grammar] =>
    return (.print grammar (s.has "bnf") (s.has "left-recursion")
      (s.has "tree"), s.verbosity)
  | "regex", [grammar] =>
    return (.patterns grammar (s.has "fallback"), s.verbosity)
  | "lex", grammar :: input =>
    if input.length > 1 then none
    let size ← match s.bufferSize with
      | none => some defaultBufferSize
      | some text => number? text
    return (.lex grammar input.head? size (s.has "threaded") (s.has "fallback")
      (s.has "skip-invalid"), s.verbosity)
  | _, _ => none

/-- Reads the arguments, of which `verbosity` were flags for more detail in
front of the command. Those behind the command, if there are any, count
instead. -/
def invocationFrom? (verbosity : Nat) : List String → Option Invocation
  | [] => none
  | argument :: rest =>
    match argument.toList with
    | '-' :: '-' :: name =>
      if name = "verbose".toList then invocationFrom? (verbosity + 1) rest
      else none
    | '-' :: letter :: letters =>
      (shortVerbosity? (letter :: letters)).bind fun n =>
        invocationFrom? (verbosity + n) rest
    | _ => (command? argument rest).map fun (command, inner) =>
      ⟨if inner = 0 then verbosity else inner, command⟩

/-- Reads the arguments of the command line. -/
def invocation? (arguments : List String) : Option Invocation :=
  invocationFrom? 0 arguments

end Command

end Lexigram
