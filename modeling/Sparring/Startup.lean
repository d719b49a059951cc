import Sparring.CommandLine
import Sparring.Config.Discovery
import Sparring.Session
import Sparring.Uci.Launch

/-!
# Starting the program

From the arguments to a service that listens, or to the end of the program. First the arguments
are read, then the configuration is found and overridden, then the engines are created if that is
to be done in advance, and last the address is looked at; the first of these that fails ends the
program.
-/

namespace Sparring

/-- Why a text is no address to listen on. -/
inductive AddressFault where
  | noColon
  | badNumber
deriving DecidableEq, Repr

namespace AddressFault

/-- The wording of a fault. -/
def message : AddressFault → String
  | noColon => "invalid socket address"
  | badNumber => "invalid port value"

/-- Whether a text is a number of 16 bits, which may have a plus in front. -/
def isSocketNumber (text : List Char) : Bool :=
  let digits := if text.head? = some '+' then text.tail else text
  !digits.isEmpty && digits.all Char.isDigit && natOfDigits digits < UInt16.size

/-- Why a text is no address, if so. A host and a number stand around the last colon. -/
def of? (address : String) : Option AddressFault :=
  let reversed := address.toList.reverse
  if ¬ reversed.contains ':' then some noColon
  else if isSocketNumber (reversed.takeWhile (· ≠ ':')).reverse then none
  else some badNumber

end AddressFault

/-- Why the program cannot start. -/
inductive StartError where
  | config (e : ConfigError)
  /-- Not all engines could be created in advance. -/
  | preload (causes : Causes)
  | address (text : String) (fault : AddressFault)
deriving DecidableEq

/-- The causes of an error. -/
def StartError.causes : StartError → Causes
  | config e => e.causes
  | preload causes => "failed to preload engines" :: causes
  | address text fault => ["failed to bind " ++ text, fault.message]

/-- What becomes of a start. -/
inductive StartOutcome where
  /-- The arguments asked for something else, or could not be meant. -/
  | early (e : CommandLine.Early)
  | failed (e : StartError)
  /-- A violation ended the process. -/
  | aborted
  /-- An engine call crashed. -/
  | crashed (message : String)
  /-- An engine never gets ready. -/
  | stuck
  /-- The service listens. -/
  | serving

/-- The exit code, if the program ends by itself. -/
def StartOutcome.exitCode? : StartOutcome → Option Nat
  | early .help => some 0
  | early .version => some 0
  | early (.misuse _) => some 2
  | failed _ => some 1
  | crashed _ => some 101
  | aborted | stuck | serving => none

/-- What is printed where the arguments asked for a text. -/
def StartOutcome.output : StartOutcome → String
  | early .help => CommandLine.helpText
  | early .version => CommandLine.versionText ++ "\n"
  | _ => ""

namespace Startup

/-- Where the configuration file usually is, seen from the home directory. -/
def usualConfig (home : String) : String := joinPath (joinPath home ".levelbot") "config.toml"

/-- The configuration that a command line asks for. -/
def configure (files : Files) (home : Option String) (c : CommandLine) :
    Except ConfigError Config :=
  (Config.discover files c.config (home.map usualConfig)).map (·.override c.overrides)

variable {ω σ ε : Type} [World ω σ ε] [Recorded ω σ]

/-- A session of a service with a configuration. -/
def session (world : ω) (engines : σ) (config : Config) : Session ω σ :=
  .new world engines (.new config.engine config.table config.policy)

/-- What becomes of a start when all engines are there that are to be there. -/
def listen (config : Config) : StartOutcome :=
  match AddressFault.of? config.address with
  | some fault => .failed (.address config.address fault)
  | none => .serving

/-- Creates the engines in advance, if that is to be done, and listens. -/
def launch (config : Config) (s : Session ω σ) : StartOutcome × Session ω σ :=
  if config.preload then
    let (r, s) := s.perform .preload
    if s.service.aborted then (.aborted, s)
    else
      match r with
      | some (.preloaded (.ok ())) => (listen config, s)
      | some (.preloaded (.error causes)) => (.failed (.preload causes), s)
      | some (.crashed message) => (.crashed message, s)
      | _ => (.stuck, s)
  else (listen config, s)

/-- Starts the program among puppet engines that follow the given rules, and lets these read what
they were sent. -/
def rehearse (rules : List Uci.PuppetRule) (files : Files) (home : Option String)
    (args : List String) : StartOutcome × Option (Session Uci.PuppetWorld Uci.Fleet) :=
  match CommandLine.read args with
  | .error e => (.early e, none)
  | .ok c =>
    match configure files home c with
    | .error e => (.failed (.config e), none)
    | .ok config =>
      let world := Uci.PuppetWorld.new rules files config.engine
      let (outcome, s) := launch config (session world Uci.Fleet.empty config)
      (outcome, some { s with world := s.world.readAll s.system.engines })

end Startup

end Sparring
