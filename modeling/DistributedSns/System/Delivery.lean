import DistributedSns.Server.Graph
import DistributedSns.System.Lemmas.Propagation

/-!
# Propagation by messages in flight

Masters accept account requests independently of each other, and what they propagate is delivered in any
order. A handler is one step: it changes its server and puts the messages it propagates in flight. The
coordinator's view is fixed.
-/

namespace DistributedSns.System

open Lib (Machine)
open Coordinator (SNSCoordinator)
open Server
open Server.SNSServer (Method)

/-- A copy of a request as `propogate` sends it. -/
def forwarded (request : Request) : Request := { request with from_server := true }

/-- A request on its way to the process at an address. -/
structure Packet where
  addr : Str
  method : Method
  request : Request
  deriving DecidableEq

structure Config where
  network : Network
  inFlight : List Packet

/-- The addresses to which a server propagates a request. -/
def recipients (c : SNSCoordinator) (s : SNSServer) (request : Request) : Except Fault (List Str) :=
  if s.master then do
    let counterparts ← serverList c s.serverInfo .COUNTERPARTS
    if !request.from_server then do
      let others ← serverList c s.serverInfo .OTHER_MASTERS
      return (counterparts ++ others).map address
    else return counterparts.map address
  else .ok []

/-- The process a packet is for handles it; a fault ends the process. -/
def Config.handle (c : Config) (tz : TimeZone) (p : Packet) : Except Fault Config :=
  match c.network.servers p.addr with
  | none => .ok c
  | some s =>
    match s.handle tz p.method p.request with
    | .error _ => .ok { c with network := c.network.setServer p.addr none }
    | .ok (s', _) => do
      let addrs ← recipients c.network.coordinator s' p.request
      return {
        network := c.network.setServer p.addr s'
        inFlight := c.inFlight ++ addrs.map fun addr => ⟨addr, p.method, forwarded p.request⟩ }

inductive Event where
  | accept (p : Packet)
  | deliver (i : Nat)

/-- A client's account request to a process which is master. -/
structure Accepts (c : Config) (p : Packet) : Prop where
  account : p.method ≠ .ADD_POST
  client : p.request.from_server = false
  master : ∃ s, c.network.servers p.addr = some s ∧ s.master = true

instance (c : Config) (p : Packet) : Decidable (Accepts c p) :=
  decidable_of_iff (p.method ≠ .ADD_POST ∧ p.request.from_server = false ∧
      (c.network.servers p.addr).any (·.master) = true)
    ⟨fun h => ⟨h.1, h.2.1, (Option.any_eq_true ..).mp h.2.2⟩,
      fun h => ⟨h.account, h.client, (Option.any_eq_true ..).mpr h.master⟩⟩

/-- The packet handled in a step, if the step is possible. -/
def handled (c : Config) : Event → Option Packet
  | .accept p => if Accepts c p then some p else none
  | .deliver i => c.inFlight[i]?

/-- The configuration when the packet has been taken out of the network. -/
def Config.taken (c : Config) : Event → Config
  | .accept _ => c
  | .deliver i => { c with inFlight := c.inFlight.eraseIdx i }

def Config.step (tz : TimeZone) (c : Config) (e : Event) : Except Fault Config :=
  match handled c e with
  | some p => (c.taken e).handle tz p
  | none => .error .outOfRange

/-- The servers of clusters with masters, all with the same social graph, and no packet in flight. -/
structure Start (c : Config) (g : Graph) : Prop where
  topology : Topology c.network
  target : ∀ (addr : Str) (s : SNSServer), c.network.servers addr = some s → Target c.network.coordinator addr
  wellFormed : ∀ (addr : Str) (s : SNSServer), c.network.servers addr = some s → WellFormed s
  graph : ∀ (addr : Str) (s : SNSServer), c.network.servers addr = some s → s.graph = g
  quiet : c.inFlight = []

def deliveryMachine (tz : TimeZone) : Machine Config Event :=
  .ofFun (fun c => ∃ g, Start c g) (Config.step tz)

/-! ## What a run has handled -/

/-- The requests a server has handled, as they are propagated. -/
def handledAt (addr : Str) (tr : List (Config × Event)) : List (Method × Request) :=
  tr.filterMap fun x => (handled x.1 x.2).bind fun p =>
    if p.addr = addr then some (p.method, forwarded p.request) else none

/-- The requests the masters have accepted from clients, as they are propagated. -/
def accepted (tr : List (Config × Event)) : List (Method × Request) :=
  tr.filterMap fun x =>
    match x.2 with
    | .accept p => some (p.method, forwarded p.request)
    | .deliver _ => none

/-- The requests come to each server in an order in which it can answer them: it has learned of the users whom a request
names before, and the times of new follows can be written. -/
def DeliveredInOrder (tz : TimeZone) (c₀ : Config) (tr : List (Config × Event)) : Prop :=
  ∀ (addr : Str) (s : SNSServer), c₀.network.servers addr = some s → AnswerableInTurn tz s.graph (handledAt addr tr)

end DistributedSns.System
