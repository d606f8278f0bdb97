import DistributedSns.Server.Lemmas.Outcomes

/-!
# Timeline streams

A server together with the `Timeline` calls which have not returned. A call reads messages from its stream until the
client leaves; then it returns, and the stream is gone. A pointer to it which is still stored dangles. The streams are
numbered in the order in which they are opened, so a number is never used again.
-/

namespace DistributedSns.Server.Streams

open Lib (Machine)

/-- `live` lists the streams whose call has not returned. -/
structure State where
  server : SNSServer := {}
  opened : Nat := 0
  live : List StreamId := []

inductive Event where
  /-- `Login`, `Follow`, `UnFollow` or `AddPost` -/
  | request (method : SNSServer.Method) (request : Request)
  /-- a client calls `Timeline` -/
  | enter
  /-- `stream->Read` returns a message -/
  | message (stream : StreamId) (message : Message)
  /-- `stream->Read` returns false and the call returns -/
  | leave (stream : StreamId)

namespace State

/-- A handler leaves this server. What it writes to a stream whose call has returned goes through a dangling pointer. -/
def handled (c : State) (server : SNSServer) : Except Fault State :=
  if ∀ w ∈ server.written.drop c.server.written.length, w.1 ∈ c.live then .ok { c with server }
  else .error .danglingPointer

/-- A message is read or a call returns only on a stream which is live. -/
def step (tz : TimeZone) (c : State) : Event → Except Fault State
  | .request method request => do
    let r ← c.server.handle tz method request
    c.handled r.1
  | .enter => .ok { c with opened := c.opened + 1, live := c.live ++ [c.opened] }
  | .message stream message => do
    if stream ∈ c.live then
      let r ← c.server.timeline tz stream message
      c.handled r.1
    else .error .exception
  | .leave stream =>
    if stream ∈ c.live then .ok { c with live := c.live.erase stream } else .error .exception

/-- The server has its clients and posts, but nobody has entered the timeline yet. -/
structure Start (c : State) : Prop where
  wellFormed : WellFormed c.server
  streams : ∀ ref, c.server.streamOf ref = none
  written : c.server.written = []
  opened : c.opened = 0
  live : c.live = []

end State

def machine (tz : TimeZone) : Machine State Event := .ofFun State.Start (State.step tz)

end DistributedSns.Server.Streams
