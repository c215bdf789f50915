import ReleaseAudit.Server.Workspace

/-!
# Sessions

A session starts with the request `initialize` and the notification
`initialized`, serves notifications about documents, and ends with `shutdown`
and `exit`. How messages are read is left to a decoder.
-/

namespace ReleaseAudit.Server

set_option autoImplicit false

open Rules (Ruleset)
open Source (Parser)

inductive RequestId where
  | number (value : Int)
  | text (value : String)
deriving DecidableEq, Repr

inductive Message where
  | request (id : RequestId) (method : String) (params : Json)
  | response
  | notification (method : String) (params : Json)

inductive Incoming where
  | event (event : Event)
  | ignored
  | malformed

/-- How the messages of an editor are read. -/
structure Decoder where
  message? : Json → Option Message
  notification : (method : String) → (params : Json) → Incoming
  initializes : (params : Json) → Bool

inductive Reply where
  | initialized (id : RequestId)
  /-- The refusal of a request that comes before `initialize`. -/
  | early (id : RequestId) (method : String) (params : Json)
  | unsupported (id : RequestId) (method : String)
  | stopped (id : RequestId)
  | published (publication : Publication)

inductive Phase where
  | starting
  | introduced (params : Json)
  | serving (workspace : Workspace)
  /-- Busy with an audit that never ends. -/
  | stuck
  | stopping
  | ended (exitCode : Nat)

namespace Phase

def broken : Phase := ended 1

/-- Exit code when no more messages come. A server that is stuck does not exit. -/
def exitCode? : Phase → Option Nat
  | starting | introduced _ | stopping => some 1
  | serving _ => some 0
  | stuck => none
  | ended code => some code

def start : Message → Phase × List Reply
  | .request id "initialize" params => (introduced params, [.initialized id])
  | .request id method params => (starting, [.early id method params])
  | .notification "exit" _ | .response => (broken, [])
  | .notification _ _ => (starting, [])

def stop : Message → Phase
  | .notification "exit" _ => ended 0
  | _ => broken

variable (decoder : Decoder)

def introduce (params : Json) : Message → Phase
  | .notification "initialized" _ => if decoder.initializes params then serving .empty else broken
  | _ => broken

variable (parser : Parser) (rules : Ruleset)

/-- All open documents are audited before anything is sent. -/
def serveEvent (listing : Listing) (workspace : Workspace) (event : Event) : Phase × List Reply :=
  match workspace.publish? parser rules listing event with
  | some publications => (serving (workspace.after event), publications.map .published)
  | none => (stuck, [])

def serve (listing : Listing) (workspace : Workspace) : Message → Phase × List Reply
  | .request id "shutdown" _ => (stopping, [.stopped id])
  | .request id method _ => (serving workspace, [.unsupported id method])
  | .response => (serving workspace, [])
  | .notification "exit" _ => (ended 0, [])
  | .notification method params =>
      match decoder.notification method params with
      | .event event => serveEvent parser rules listing workspace event
      | .ignored => (serving workspace, [])
      | .malformed => (broken, [])

/-- The next phase, and what is sent. A message that cannot be read breaks the session. -/
def receive (listing : Listing) (phase : Phase) (content : Json) : Phase × List Reply :=
  match phase, decoder.message? content with
  | ended code, _ => (ended code, [])
  | stuck, _ => (stuck, [])
  | _, none => (broken, [])
  | starting, some message => start message
  | introduced params, some message => (introduce decoder params message, [])
  | serving workspace, some message => serve decoder parser rules listing workspace message
  | stopping, some message => (stop message, [])

end Phase

structure Transcript where
  exitCode? : Option Nat
  sent : List Reply

/-- A message, and the order in which the open documents are listed when it comes. -/
structure Arrival where
  listing : Listing
  content : Json

section Converse

variable (decoder : Decoder) (parser : Parser) (rules : Ruleset)

def converse : (phase : Phase) → List Arrival → Transcript
  | phase, [] => ⟨phase.exitCode?, []⟩
  | phase, arrival :: rest =>
      let (next, sent) := phase.receive decoder parser rules arrival.listing arrival.content
      let later := converse next rest
      ⟨later.exitCode?, sent ++ later.sent⟩

def run (arrivals : List Arrival) : Transcript :=
  converse decoder parser rules .starting arrivals

end Converse

end ReleaseAudit.Server
