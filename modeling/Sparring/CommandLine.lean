import Sparring.Config
import Sparring.Number.Decimal

/-!
# The command line

What the arguments of the program ask for: its help, its version, or a service with a configuration
file and overrides. Arguments are read from left to right, and the first that cannot be meant ends
the reading, as does an option that asks for something else than a service.

An option stands behind two dashes with its name, or behind one dash with its letter. Its value is
the next argument, unless it is attached: behind an equals sign, or right behind the letter. An
argument that starts with a dash is never a value, except for the dash alone. No option but the
one for engine arguments may be given twice, and there is nothing to be said besides options.
-/

namespace Sparring

/-- What the arguments say about a service. -/
structure CommandLine where
  /-- The configuration file. -/
  config : Option String
  overrides : Overrides
deriving DecidableEq, Repr

namespace CommandLine

/-- A command line without arguments. -/
def blank : CommandLine := ⟨none, .none⟩

/-- The options. -/
inductive Switch where
  | config
  | bind
  | engine
  | engineArg
  | weightsDir
  | cacheSize
  | abortOnViolation
  | noPreload
  | help
  | version
deriving DecidableEq, Repr

namespace Switch

/-- All options. -/
def all : List Switch :=
  [config, bind, engine, engineArg, weightsDir, cacheSize, abortOnViolation, noPreload, help,
    version]

/-- The name of an option. -/
def name : Switch → String
  | config => "config"
  | bind => "bind"
  | engine => "engine"
  | engineArg => "engine-arg"
  | weightsDir => "weights-dir"
  | cacheSize => "cache-size"
  | abortOnViolation => "abort-on-violation"
  | noPreload => "no-preload"
  | help => "help"
  | version => "version"

/-- The letter of an option, if it has one. -/
def letter? : Switch → Option Char
  | config => some 'c'
  | bind => some 'b'
  | engine => some 'e'
  | weightsDir => some 'w'
  | help => some 'h'
  | version => some 'V'
  | engineArg | cacheSize | abortOnViolation | noPreload => none

/-- Whether an option has a value. -/
def takesValue : Switch → Bool
  | config | bind | engine | engineArg | weightsDir | cacheSize => true
  | abortOnViolation | noPreload | help | version => false

end Switch

/-- What is wrong with the arguments. -/
inductive Misuse where
  /-- There is no such option. -/
  | unknown (arg : String)
  /-- Something that is no option. -/
  | unexpected (arg : String)
  | missingValue (s : Switch)
  | unwantedValue (s : Switch)
  | badValue (s : Switch) (value : String)
  | repeated (s : Switch)
deriving DecidableEq, Repr

/-- The wording of what is wrong. -/
def Misuse.message : Misuse → String
  | unknown arg => "unknown option " ++ arg
  | unexpected arg => "unexpected argument " ++ arg
  | missingValue s => "--" ++ s.name ++ " needs a value"
  | unwantedValue s => "--" ++ s.name ++ " takes no value"
  | badValue s value => "--" ++ s.name ++ " cannot be " ++ value
  | repeated s => "--" ++ s.name ++ " is given twice"

/-- What ends the reading of the arguments early. -/
inductive Early where
  | help
  | version
  | misuse (m : Misuse)
deriving DecidableEq, Repr

/-! ## Values -/

/-- Reads a whole number with an optional sign. -/
def readWhole? (text : String) : Option Int :=
  let (negative, digits) := splitSign text.toList
  if digits.isEmpty ∨ ¬ digits.all Char.isDigit then none
  else
    let n : Int := natOfDigits digits
    some (if negative then -n else n)

/-- Reads a whole number of 32 bits. -/
def readUInt32? (text : String) : Option UInt32 :=
  (readWhole? text).bind fun n =>
    if 0 ≤ n ∧ n < UInt32.size then some (UInt32.ofNat n.toNat) else none

/-- Puts a value where there is none yet. -/
def once {α : Type} (s : Switch) (old : Option α) (new : α) : Except Early (Option α) :=
  match old with
  | none => .ok (some new)
  | some _ => .error (.misuse (.repeated s))

/-- Puts a path where there is none yet. A path has a character at least. -/
def oncePath (s : Switch) (old : Option String) (new : String) : Except Early (Option String) :=
  if new = "" then .error (.misuse (.missingValue s)) else once s old new

/-- Takes up an option with its value. -/
def withValue (c : CommandLine) (s : Switch) (value : String) : Except Early CommandLine := do
  let o := c.overrides
  match s with
  | .config => return { c with config := ← oncePath s c.config value }
  | .bind => return { c with overrides := { o with address := ← once s o.address value } }
  | .engine => return { c with overrides := { o with program := ← oncePath s o.program value } }
  | .engineArg => return { c with overrides := { o with args := o.args ++ [value] } }
  | .weightsDir =>
    return { c with overrides := { o with weightsDir := ← oncePath s o.weightsDir value } }
  | .cacheSize =>
    match readUInt32? value with
    | some n => return { c with overrides := { o with cacheSize := ← once s o.cacheSize n } }
    | none => throw (.misuse (.badValue s value))
  | .abortOnViolation | .noPreload | .help | .version => throw (.misuse (.unwantedValue s))

/-- Takes up an option without a value. -/
def withoutValue (c : CommandLine) (s : Switch) : Except Early CommandLine :=
  let o := c.overrides
  match s with
  | .abortOnViolation =>
    if o.abortOnViolation then .error (.misuse (.repeated s))
    else .ok { c with overrides := { o with abortOnViolation := true } }
  | .noPreload =>
    if o.noPreload then .error (.misuse (.repeated s))
    else .ok { c with overrides := { o with noPreload := true } }
  | .help => .error .help
  | .version => .error .version
  | .config | .bind | .engine | .engineArg | .weightsDir | .cacheSize =>
    .error (.misuse (.missingValue s))

/-! ## Arguments -/

/-- An argument, by its form. -/
inductive Argument where
  /-- `--name` or `--name=value` -/
  | named (name : String) (value : Option String)
  /-- `-l`, `-lvalue` or `-l=value` -/
  | lettered (letter : Char) (value : Option String)
  /-- `--` -/
  | separator
  | plain (text : String)

/-- The form of an argument. -/
def Argument.ofText (text : String) : Argument :=
  match text.toList with
  | ['-', '-'] => .separator
  | '-' :: '-' :: cs =>
    let name := String.ofList (cs.takeWhile (· ≠ '='))
    match cs.dropWhile (· ≠ '=') with
    | [] => .named name none
    | _ :: value => .named name (some (String.ofList value))
  | ['-'] => .plain text
  | '-' :: l :: [] => .lettered l none
  | '-' :: l :: '=' :: value => .lettered l (some (String.ofList value))
  | '-' :: l :: value => .lettered l (some (String.ofList value))
  | _ => .plain text

/-- Takes up an option: the option that waits for its value in the next argument, if one does. -/
def withSwitch (c : CommandLine) (s : Switch) :
    Option String → Except Early (Option Switch × CommandLine)
  | some value => do return (none, ← c.withValue s value)
  | none =>
    if s.takesValue then return (some s, c) else do return (none, ← c.withoutValue s)

/-- Takes up a letter. Behind the letter of an option without a value only further letters could
follow, and those that have one and no value all end the reading. -/
def withLetter (c : CommandLine) (arg : String) (l : Char) (value : Option String) :
    Except Early (Option Switch × CommandLine) :=
  match Switch.all.find? (·.letter? = some l) with
  | none => .error (.misuse (.unknown arg))
  | some s => c.withSwitch s (if s.takesValue then value else none)

/-- Takes up an argument. -/
def withArgument (c : CommandLine) (arg : String) :
    Argument → Except Early (Option Switch × CommandLine)
  | .named name value =>
    match Switch.all.find? (·.name = name) with
    | none => .error (.misuse (.unknown arg))
    | some s => c.withSwitch s value
  | .lettered l value => c.withLetter arg l value
  | .separator | .plain _ => .error (.misuse (.unexpected arg))

/-- Reads arguments, where an option may wait for its value. -/
def readFrom (c : CommandLine) : Option Switch → List String → Except Early CommandLine
  | none, [] => .ok c
  | some s, [] => .error (.misuse (.missingValue s))
  | some s, arg :: rest =>
    match Argument.ofText arg with
    | .plain value => do readFrom (← c.withValue s value) none rest
    | _ => .error (.misuse (.missingValue s))
  | none, arg :: rest =>
    match Argument.ofText arg, rest with
    | .separator, [] => .ok c
    | .separator, next :: _ => .error (.misuse (.unexpected next))
    | argument, rest => do
      let (waiting, c) ← c.withArgument arg argument
      readFrom c waiting rest

/-- Reads arguments. -/
def read (args : List String) : Except Early CommandLine := blank.readFrom none args

/-! ## Texts -/

/-- The name and the version of the program. -/
def versionText : String := "levelbot 0.1.0"

/-- The help. -/
def helpText : String :=
  "Chess moves at a chosen strength, over HTTP.\n\n" ++
  "Usage: levelbot [OPTIONS]\n\n" ++
  "Options:\n" ++
  "  -c, --config <CONFIG>            " ++
  "TOML config file (default: ~/.levelbot/config.toml if it exists)\n" ++
  "  -b, --bind <BIND>                Address to listen on\n" ++
  "  -e, --engine <ENGINE>            UCI engine executable\n" ++
  "      --engine-arg <ENGINE_ARGS>   Extra argument passed to the engine (repeatable)\n" ++
  "  -w, --weights-dir <WEIGHTS_DIR>  Directory containing the network weight files\n" ++
  "      --cache-size <CACHE_SIZE>    Neural-net cache entries per engine instance\n" ++
  "      --abort-on-violation         " ++
  "Abort the process if a search result reaches the wrong request\n" ++
  "      --no-preload                 Create engines on first use instead of at startup\n" ++
  "  -h, --help                       Print help\n" ++
  "  -V, --version                    Print version\n"

end CommandLine

end Sparring
