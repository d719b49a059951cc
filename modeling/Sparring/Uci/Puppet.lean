import Sparring.Engine.Schedule
import Sparring.Text.Json
import Sparring.Uci.Fleet
import Sparring.Uci.Launch

/-!
# Puppet engines

A puppet is an engine process that follows rules. It reads its input a line at a time and obeys
the first rule for the line: it prints what the rule says, and may exit. It does so only while
time passes, as somebody waits. What all puppets of one world are started with and what they read
goes into one log.
-/

namespace Sparring.Uci

/-- A rule of a puppet. -/
structure PuppetRule where
  /-- The rule is for lines that start with this. -/
  start : String
  /-- The weights file the engine must have been given, or any. -/
  model : Option String
  /-- How often one process obeys the rule, or always. -/
  times : Option Nat
  /-- What is printed, exactly. -/
  output : List UInt8
  exits : Bool

/-- A puppet: the rules it still obeys, and how far it has read. -/
structure Puppet where
  rules : List PuppetRule
  /-- The weights file it was given last. -/
  weights : Option String
  /-- How many writes it has taken in. -/
  taken : Nat
  /-- Complete lines it has not read, and then the line begun. -/
  lines : List String
  begun : String
  alive : Bool

/-- The puppets, one for each process of a fleet, and their common surroundings. -/
structure PuppetWorld where
  rules : List PuppetRule
  /-- The arguments every puppet is started with. -/
  args : List String
  /-- Why no puppet can be started, if so. -/
  unlaunchable : Option Causes
  puppets : List Puppet
  log : List String
  /-- What the puppets are about to do. -/
  coming : List Fleet.Event

namespace Puppet

/-- What is in front of the weights file in an option line. -/
def weightsStart : List Char := "setoption name WeightsFile value ".toList

/-- Whether a rule is for a line. -/
def obeys (weights : Option String) (line : String) (r : PuppetRule) : Bool :=
  r.start.toList.isPrefixOf line.toList && r.times != some 0 &&
    (r.model.isNone || r.model = weights)

/-- The first rule for a line, and the rules with that one used. -/
def useRule (weights : Option String) (line : String) :
    List PuppetRule → Option PuppetRule × List PuppetRule
  | [] => (none, [])
  | r :: rest =>
    if obeys weights line r then (some r, { r with times := r.times.map (· - 1) } :: rest)
    else
      let (found, rest') := useRule weights line rest
      (found, r :: rest')

/-- Cuts text at the line feeds: the complete lines, and the rest. -/
def cutLines (begun : String) (text : String) : List String × String :=
  match ((begun ++ text).splitOn "\n").reverse with
  | [] => ([], "")
  | last :: lines => (lines.reverse, last)

/-- The puppet takes in what was written to it. -/
def takeIn (p : Puppet) (text : String) : Puppet :=
  let (lines, begun) := cutLines p.begun text
  { p with taken := p.taken + 1, lines := p.lines ++ lines, begun }

/-- The puppet reads a line: what it prints, and whether it exits. -/
def readLine (p : Puppet) (line : String) (rest : List String) :
    Puppet × List UInt8 × Bool :=
  let weights :=
    if weightsStart.isPrefixOf line.toList then
      some (String.ofList (line.toList.drop weightsStart.length))
    else p.weights
  let (rule, rules) := useRule weights line p.rules
  let p := { p with rules, weights, lines := rest }
  match rule with
  | none => (p, [], false)
  | some r => (p, r.output, r.exits)

end Puppet

namespace PuppetWorld

/-- A world without puppets, where engines are launched by the given settings. -/
def new (rules : List PuppetRule) (files : Files) (settings : EngineSettings) : PuppetWorld :=
  ⟨rules, settings.args, launchFailure? files settings, [], [], []⟩

/-- Changes one puppet. -/
def set (w : PuppetWorld) (i : Nat) (p : Puppet) : PuppetWorld :=
  { w with puppets := w.puppets.set i p }

/-- What a puppet is started with, in the log. -/
def startLine (w : PuppetWorld) : String := "start " ++ (Json.arr (w.args.map .str)).render

/-- A launch that a call waits for. -/
def launch? (w : PuppetWorld) (f : Fleet) : Option (Fleet.Event × PuppetWorld) :=
  (f.calls.find? (·.progress = .launching)).map fun c =>
    match w.unlaunchable with
    | some causes => (.launched c.task (some causes), w)
    | none =>
      (.launched c.task none,
        { w with
          puppets := w.puppets ++ [⟨w.rules, none, 0, [], "", true⟩]
          log := w.log ++ [w.startLine] })

/-- What a puppet does that prints, and maybe goes. -/
def eventsOf (i : Nat) (bytes : List UInt8) (goes : Bool) : List Fleet.Event :=
  (if bytes.isEmpty then [] else [.print i bytes]) ++
    if goes then [.closeInput i, .closeOutput i] else []

/-- Something that one of the puppets does, from the given one on: a line is read, or what was
written is taken in. -/
def work? (w : PuppetWorld) (i : Nat) : List (Instance × Puppet) → Option PuppetWorld
  | [] => none
  | (process, p) :: rest =>
    if p.alive && process.inputOpen then
      match p.lines with
      | line :: lines =>
        let (p, bytes, exits) := p.readLine line lines
        -- A puppet that prints when nobody reads any more dies of it.
        let goes := exits || (process.reader = .ended && !bytes.isEmpty)
        some { w.set i { p with alive := !goes } with
          log := w.log ++ [line]
          coming := w.coming ++ eventsOf i bytes goes }
      | [] =>
        match process.written[p.taken]? with
        | some text => some (w.set i (p.takeIn text))
        | none => w.work? (i + 1) rest
    else w.work? (i + 1) rest

/-- Lets the puppets work until one of them does something that its process shows, for at most
`fuel` steps. -/
def workOn : Nat → PuppetWorld → Fleet → PuppetWorld
  | 0, w, _ => w
  | fuel + 1, w, f =>
    if w.coming.isEmpty then
      match w.work? 0 (f.instances.zip w.puppets) with
      | some w' => workOn fuel w' f
      | none => w
    else w

/-- Lets the puppets read on for at most `fuel` steps, whatever their processes show. -/
def readOut : Nat → PuppetWorld → Fleet → PuppetWorld
  | 0, w, _ => w
  | fuel + 1, w, f =>
    match w.work? 0 (f.instances.zip w.puppets) with
    | some w' => readOut fuel w' f
    | none => w

/-- How many steps the puppets are given. -/
def stamina : Nat := 100000

/-- The next step of the processes: launches first, then what puppets have begun to show, then the
readers, then the calls. -/
def next? (w : PuppetWorld) (f : Fleet) : Option Fleet.Event × PuppetWorld :=
  match w.launch? f with
  | some (e, w) => (some e, w)
  | none =>
    match w.coming with
    | e :: rest => (some e, { w with coming := rest })
    | [] =>
      match f.instances.zipIdx.find? (·.1.canRead) with
      | some (_, i) => (some (.read i), w)
      | none => ((f.calls.find? f.canProceed).map fun c => .proceed c.task, w)

/-- What the passing of time brings: the puppets go on until one of them shows something. -/
def wake? (w : PuppetWorld) (f : Fleet) : Option Fleet.Event × PuppetWorld :=
  let w := w.workOn stamina f
  match w.coming with
  | e :: rest => (some e, { w with coming := rest })
  | [] => (none, w)

/-- The world once the puppets have had the time to read all that was written to them. -/
def readAll (w : PuppetWorld) (f : Fleet) : PuppetWorld := w.readOut stamina f

instance : World PuppetWorld Fleet Fleet.Event where
  next? := next?
  wake? := wake?

end PuppetWorld

end Sparring.Uci
