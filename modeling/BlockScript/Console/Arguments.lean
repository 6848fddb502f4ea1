/-!
# Command-line arguments

The program is called with an expression to evaluate, or without one to read programs from
the input, or with the word `batch` and a file.  `batch` counts as this word only if nothing
but arguments of its own follow, that is, as the first argument.

Options start with a dash.  They may stand before or after the expression, each at most
once, and `--` ends them.  A number is given as the next argument or after a `=`.
-/

set_option autoImplicit false

namespace BlockScript

/-- What the program is asked to do. -/
inductive Task where
  /-- Evaluate an expression. -/
  | expression (text : String)
  /-- Evaluate what is typed or piped in. -/
  | input
  /-- Evaluate the table in a file with a number of workers. -/
  | batch (file : String) (threads : Nat)
  deriving DecidableEq, Repr

/-- How the program is asked to do it. -/
structure Options where
  /-- Whether to show each program before it is evaluated. -/
  debugParse : Bool
  /-- The limit of active block calls. -/
  maxDepth : Nat
  deriving DecidableEq, Repr

/-- What command-line arguments ask for. -/
inductive Request where
  | run (task : Task) (options : Options)
  /-- Show how the program is called, or its command `batch`. -/
  | help (batch : Bool)
  /-- The arguments make no sense. -/
  | refuse
  deriving DecidableEq, Repr

namespace Arguments

/-- The arguments read so far. -/
structure Draft where
  /-- Whether the arguments belong to the command `batch`. -/
  batch : Bool
  debugParse : Bool
  maxDepth : Option Nat
  threads : Option Nat
  /-- The argument that is not an option. -/
  operand : Option String
  deriving Repr

/-- No argument has been read. -/
def Draft.blank (batch : Bool) : Draft := ⟨batch, false, none, none, none⟩

/-- A number of at most 64 bits: digits, with a plus sign before them or not. -/
def number? (text : String) : Option Nat :=
  let digits := match text.toList with
    | '+' :: rest => rest
    | chars => chars
  if digits.isEmpty || !digits.all Char.isDigit then none
  else
    let n := digits.foldl (fun total c => 10 * total + (c.toNat - '0'.toNat)) 0
    if n < Nat.pow 2 64 then some n else none

/-- Take an argument that is not an option.  The file of a table has a name. -/
def operand (p : Draft) (text : String) : Option Draft :=
  if p.operand.isSome || (p.batch && text.isEmpty) then none
  else some { p with operand := some text }

/-- Give an option its number. -/
def setNumber (p : Draft) (option : String) (value : String) : Option Draft :=
  match option, number? value with
  | "--max-depth", some n =>
      if p.maxDepth.isSome then none else some { p with maxDepth := some n }
  | "--threads", some n =>
      if p.threads.isSome || !p.batch then none else some { p with threads := some n }
  | _, _ => none

/-- Whether an option takes a number. -/
def takesNumber (p : Draft) (option : String) : Bool :=
  option = "--max-depth" || (p.batch && option = "--threads")

/-- Cut an argument at its first `=`. -/
def cutAtEquals (argument : String) : String × Option String :=
  let chars := argument.toList
  match chars.dropWhile (· ≠ '=') with
  | _ :: value => (String.ofList (chars.takeWhile (· ≠ '=')), some (String.ofList value))
  | [] => (argument, none)

/-- Whether an argument is an option: it starts with a dash and is not a single dash. -/
def isOption (argument : String) : Bool :=
  argument.startsWith "-" && argument ≠ "-"

/-- The request that arguments amount to. -/
def finish (p : Draft) : Request :=
  let options : Options := ⟨p.debugParse, p.maxDepth.getD 256⟩
  match p.batch, p.operand with
  | false, some text => .run (.expression text) options
  | false, none => .run .input options
  | true, some file => .run (.batch file (p.threads.getD 4)) options
  | true, none => .refuse

/-- Read the arguments that are left. -/
def read (p : Draft) : List String → Request
  | [] => finish p
  | "--" :: rest =>
      match rest.foldlM operand p with
      | some p => finish p
      | none => .refuse
  | argument :: rest =>
      if argument = "--help" || argument.startsWith "-h" then .help p.batch
      else if isOption argument then
        match cutAtEquals argument with
        | ("--debug-parse", none) =>
            if p.debugParse then .refuse else read { p with debugParse := true } rest
        | (option, some value) =>
            match setNumber p option value with
            | some p => read p rest
            | none => .refuse
        | (option, none) =>
            if takesNumber p option then
              match rest with
              | value :: rest =>
                  if isOption value then .refuse
                  else
                    match setNumber p option value with
                    | some p => read p rest
                    | none => .refuse
              | [] => .refuse
            else .refuse
      else
        match operand p argument with
        | some p => read p rest
        | none => .refuse

/-- Read command-line arguments. -/
def parse : List String → Request
  | "batch" :: rest => read (.blank true) rest
  | ["help"] => .help false
  | ["help", "batch"] => .help true
  | "help" :: _ => .refuse
  | arguments => read (.blank false) arguments

/-- How the program is called. -/
def helpText : (batch : Bool) → String
  | false => "Evaluate Paxl programs

Usage: paxl [OPTIONS] [EXPRESSION]
       paxl <COMMAND>

Commands:
  batch  Evaluate a tab-separated file, one program per cell
  help   Print this message or the help of the given subcommand(s)

Arguments:
  [EXPRESSION]  Program to evaluate (if not provided, reads from stdin)

Options:
      --debug-parse            Print the parsed node graph (for debugging)
      --max-depth <MAX_DEPTH>  Maximum number of nested block calls [default: 256]
  -h, --help                   Print help
"
  | true => "Evaluate a tab-separated file, one program per cell

Usage: paxl batch [OPTIONS] <FILE>

Arguments:
  <FILE>  Input file, one row per line

Options:
      --debug-parse            Print the parsed node graph (for debugging)
      --threads <THREADS>      Number of worker threads [default: 4]
      --max-depth <MAX_DEPTH>  Maximum number of nested block calls [default: 256]
  -h, --help                   Print help
"

end Arguments

end BlockScript
