import Sparring.Engine.Completion

/-!
# The handoff

The handoff is the one place where a completion meets the request that waits for it. A request
*arms* it and gets a fresh search number with a mailbox of its own; the next completion empties
the slot, whatever it says. If it carries the armed number its outcome goes into the mailbox,
otherwise both sides get the mismatch. Completions therefore cannot reach a request they were
not meant for: the numbers tell, and a wrong one is an error and not an answer.
-/

namespace Sparring

/-- A breach of the handoff's rules, or a search given up. -/
inductive HandoffError where
  /-- A search was to be armed while another was armed. -/
  | alreadyArmed (armed : SearchId)
  /-- A completion arrived and no search was armed. -/
  | notArmed (got : Option SearchId)
  /-- A completion arrived for something other than the armed search. -/
  | mismatch (expected : SearchId) (got : Option SearchId)
  /-- The search was disarmed before its completion. -/
  | abandoned (search : SearchId)
deriving DecidableEq, Repr

namespace HandoffError

/-- What a completion says about its search, in a message. -/
def describe : Option SearchId → String
  | none => "None"
  | some s => "Some(SearchId(" ++ toString s.number ++ "))"

/-- The wording of an error. -/
def message : HandoffError → String
  | alreadyArmed armed =>
    "search " ++ armed.text ++ " is still pending; cannot arm another"
  | notArmed got =>
    "completion for " ++ describe got ++ " arrived with no request pending"
  | mismatch expected got =>
    "completion for " ++ describe got ++ " arrived while " ++ expected.text ++ " was pending"
  | abandoned search =>
    "search " ++ search.text ++ " was abandoned before completing"

/-- Every error but an abandoned search means that a rule was broken. -/
def isViolation : HandoffError → Bool
  | abandoned _ => false
  | _ => true

end HandoffError

/-- What is done about a violation. -/
inductive FailurePolicy where
  /-- It is reported and the service goes on. -/
  | respond
  /-- It ends the process. -/
  | abort
deriving DecidableEq, Repr, Inhabited

/-- Whether an error that is escalated ends the process. -/
def FailurePolicy.aborts : FailurePolicy → HandoffError → Bool
  | respond, _ => false
  | abort, e => e.isViolation

/-- What a waiter gets in the end. -/
abbrev Reply := Except HandoffError Outcome

/-- The slot, the count of numbers issued, and the mailbox of every waiter that has neither
collected its reply nor left. -/
structure Handoff where
  armed : Option SearchId
  issued : Nat
  mailboxes : List (SearchId × Option Reply)
deriving Inhabited

/-- What a waiter sees when it looks into its mailbox. -/
inductive Collected where
  /-- There is no such waiter. -/
  | unknown
  | pending
  | reply (r : Reply)

namespace Handoff

/-- A handoff that has issued no number. -/
def new : Handoff := ⟨none, 0, []⟩

/-- Puts a reply into the mailbox of a search, if its waiter is still there. -/
def post (search : SearchId) (r : Reply) (boxes : List (SearchId × Option Reply)) :
    List (SearchId × Option Reply) :=
  boxes.map fun (s, content) => if s = search then (s, some r) else (s, content)

/-- Arms the next search. A refusal uses up no number. -/
def arm (h : Handoff) : Except HandoffError SearchId × Handoff :=
  match h.armed with
  | some armed => (.error (.alreadyArmed armed), h)
  | none =>
    let search : SearchId := ⟨h.issued + 1⟩
    (.ok search,
      { armed := some search
        issued := h.issued + 1
        mailboxes := h.mailboxes ++ [(search, none)] })

/-- Takes a completion. The slot is empty afterwards. -/
def fulfill (h : Handoff) (c : Completion) : Except HandoffError Unit × Handoff :=
  match h.armed with
  | none => (.error (.notArmed c.search), h)
  | some armed =>
    if some armed = c.search then
      (.ok (), { h with armed := none, mailboxes := post armed (.ok c.outcome) h.mailboxes })
    else
      -- Both sides are told: the engine that delivered, and the waiter.
      let e := HandoffError.mismatch armed c.search
      (.error e, { h with armed := none, mailboxes := post armed (.error e) h.mailboxes })

/-- Empties the slot if it holds the given search, whose waiter is told so. -/
def disarm (h : Handoff) (search : SearchId) : Handoff :=
  if h.armed = some search then
    { h with
      armed := none
      mailboxes := post search (.error (.abandoned search)) h.mailboxes }
  else h

/-- The waiter of a search leaves. Says whether there was one. -/
def leave (h : Handoff) (search : SearchId) : Bool × Handoff :=
  ((h.mailboxes.lookup search).isSome,
    { h with mailboxes := h.mailboxes.filter (·.1 ≠ search) })

/-- The waiter of a search looks into its mailbox, and leaves with the reply if there is one. -/
def collect (h : Handoff) (search : SearchId) : Collected × Handoff :=
  match h.mailboxes.lookup search with
  | none => (.unknown, h)
  | some none => (.pending, h)
  | some (some r) => (.reply r, (h.leave search).2)

/-! ## Steps -/

/-- One thing done to a handoff. -/
inductive Step where
  | arm
  /-- A completion put straight into the slot. -/
  | fulfill (c : Completion)
  /-- A completion delivered by an engine, whose failure is escalated. -/
  | deliver (c : Completion)
  | disarm (search : SearchId)
  | collect (search : SearchId)
  | leave (search : SearchId)
  | escalate (e : HandoffError)

/-- What a step reports. -/
inductive Report where
  | done
  | armed (search : SearchId)
  | failed (e : HandoffError)
  | collected (c : Collected)
  | left (was : Bool)

/-- The report of an operation that may be refused. -/
def Report.ofExcept : Except HandoffError Unit → Report
  | .ok () => .done
  | .error e => .failed e

/-- Performs a step: the report, the error that was escalated on the way, and the handoff
afterwards. -/
def perform (h : Handoff) : Step → Report × Option HandoffError × Handoff
  | .arm =>
    match h.arm with
    | (.ok search, h') => (.armed search, none, h')
    | (.error e, h') => (.failed e, none, h')
  | .fulfill c =>
    let (result, h') := h.fulfill c
    (.ofExcept result, none, h')
  | .deliver c =>
    let (result, h') := h.fulfill c
    (.ofExcept result, match result with | .ok () => none | .error e => some e, h')
  | .disarm search => (.done, none, h.disarm search)
  | .collect search =>
    let (c, h') := h.collect search
    (.collected c, none, h')
  | .leave search =>
    let (was, h') := h.leave search
    (.left was, none, h')
  | .escalate e => (.failed e, some e, h)

/-- What a run of steps shows: the reports with the slot after each step, and whether the
process ended early. -/
structure Transcript where
  entries : List (Report × Option SearchId)
  aborted : Bool

/-- Performs steps until they are done or an escalated error ends the process. -/
def transcript (policy : FailurePolicy) (h : Handoff) : List Step → Transcript
  | [] => ⟨[], false⟩
  | step :: rest =>
    let (report, escalated, h') := h.perform step
    if escalated.any policy.aborts then ⟨[], true⟩
    else
      let t := transcript policy h' rest
      { t with entries := (report, h'.armed) :: t.entries }

end Handoff

end Sparring
