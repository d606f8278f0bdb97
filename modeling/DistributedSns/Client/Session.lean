import DistributedSns.Client.Model
import DistributedSns.Server.Streams

/-!
# A client at its server

The surroundings of a client whose server nobody else uses meanwhile. A server which crashes is not available from
then on.
-/

namespace DistributedSns.Client

open Coordinator (Status)
open Server (SNSServer SNSStatus TimeZone Reply ListReply)
open Server.Streams (State)

/-! ## The server on what a client sends -/

/-- A client writes to the stream which was opened last. -/
def serve (tz : TimeZone) (c : State) : Event → Except Fault State
  | .call .Login request => c.step tz (.request .LOGIN request)
  | .call .Follow request => c.step tz (.request .FOLLOW request)
  | .call .UnFollow request => c.step tz (.request .UNFOLLOW request)
  | .call .List request => do
    let _ ← c.server.list request
    return c
  | .Timeline => c.step tz .enter
  | .write message => c.step tz (.message (c.opened - 1) message)

def serveAll (tz : TimeZone) (c : State) (es : List Event) : Except Fault State := es.foldlM (serve tz) c

/-! ## The surroundings -/

def UNREACHABLE : Status := { code := .unavailable }

/-- What the server, after all events but the last, makes of the last one. -/
def answer {α : Type} (tz : TimeZone) (c : State) (onLast : SNSServer → Event → Except Fault α) (default : α)
    (es : List Event) : Status × α :=
  match es.getLast?, serveAll tz c es.dropLast with
  | some e, .ok c =>
    match onLast c.server e with
    | .ok reply => (.OK, reply)
    | .error _ => (UNREACHABLE, default)
  | _, _ => (UNREACHABLE, default)

end DistributedSns.Client
