import DistributedSns.System.Lemmas.Delivery
import DistributedSns.System.PropagationTheorems

/-!
# Convergence of the replicas

When every propagated request has been delivered, all servers have the same users. They have the same follow
edges only if they have seen the last request for each edge in the same way.
-/

namespace DistributedSns.System

open Lib (Machine lastWrite lastWrite_isSome_perm exists_of_lastWrite foldl_update foldl_update_eq_iff)
open Coordinator (SNSCoordinator)
open Server
open Server.SNSServer (Method)

section

variable {tz : TimeZone} {c₀ c : Config} {tr : List (Config × Event)}

/-- Nobody is ever logged out. -/
theorem lastWrite_user {u : Str} {l : List (Method × Request)} {v : Bool}
    (h : lastWrite write (.user u) l = some v) : v = true := by
  obtain ⟨⟨method, request⟩, -, hw⟩ := exists_of_lastWrite write h
  have hedge (b : Bool) : request.edgeWrite b ≠ some (.user u, v) := by
    rw [Request.edgeWrite]
    split
    · split_ifs <;> simp
    · simp
  obtain ⟨⟨k, v'⟩, hk, hv⟩ := Option.bind_eq_some_iff.mp hw
  split_ifs at hv with hku
  subst hku
  cases hv
  cases method with
  | LOGIN => cases hk; rfl
  | FOLLOW => exact absurd hk (hedge true)
  | UNFOLLOW => exact absurd hk (hedge false)
  | ADD_POST => cases hk

/-- After the same requests in any two orders the users are the same. -/
theorem users_of_perm {g : Graph} {l l' : List (Method × Request)} (h : l.Perm l') (u : Str) :
    l.foldl (Lib.update write) g (.user u) = l'.foldl (Lib.update write) g (.user u) := by
  rw [foldl_update_eq_iff write g h]
  have hsome := lastWrite_isSome_perm write (k := .user u) h
  cases hl : lastWrite write (.user u) l with
  | none =>
      rw [hl] at hsome
      cases hl' : lastWrite write (.user u) l' with
      | none => rfl
      | some v' => rw [hl'] at hsome; cases hsome
  | some v =>
      rw [hl] at hsome
      cases hl' : lastWrite write (.user u) l' with
      | none => rw [hl'] at hsome; cases hsome
      | some v' => rw [lastWrite_user hl, lastWrite_user hl']

/-- When every request has come to every server in an order in which it can be answered, and nothing is in flight, every
server runs and all have the same users; they have the same follow edges if and only if, for every two users, the last
request about the edge between them was of the same kind at all servers. -/
theorem replicas_converge_iff (hc₀ : (deliveryMachine tz).init c₀) (hrun : (deliveryMachine tz).Run c₀ tr c)
    (horder : DeliveredInOrder tz c₀ tr) (hquiet : c.inFlight = []) :
    (∀ addr s, c₀.network.servers addr = some s → ∃ s', c.network.servers addr = some s') ∧
    (∀ addr addr' s s', c.network.servers addr = some s → c.network.servers addr' = some s' →
      ∀ u, s.hasUser u = s'.hasUser u) ∧
    ((∀ addr addr' s s', c.network.servers addr = some s → c.network.servers addr' = some s' →
        ∀ a b, s.follows a b = s'.follows a b) ↔
      ∀ addr addr' s s', c.network.servers addr = some s → c.network.servers addr' = some s' →
        ∀ a b, lastWrite write (.follows a b) (handledAt addr tr) =
          lastWrite write (.follows a b) (handledAt addr' tr)) := by
  obtain ⟨g, h₀⟩ := hc₀
  have h := deliveryInv_of_run h₀ hrun horder
  have hperm (addr addr' : Str) (s s' : SNSServer) (hs : c.network.servers addr = some s)
      (hs' : c.network.servers addr' = some s') : (handledAt addr tr).Perm (handledAt addr' tr) :=
    (h.perm hquiet (h.target _ s hs)).trans (h.perm hquiet (h.target _ s' hs')).symm
  have hgraph (addr : Str) (s : SNSServer) (hs : c.network.servers addr = some s) (k : Fact) :
      s.graph k = (handledAt addr tr).foldl (Lib.update write) g k :=
    congrFun (h.graph _ s hs) k
  refine ⟨?_, ?_, ?_⟩
  · intro addr s hs
    have ht := h₀.target _ s hs
    rw [← coordinator_of_run hrun] at ht
    exact ht.running h.topology
  · intro addr addr' s s' hs hs' u
    have hu := users_of_perm (g := g) (hperm addr addr' s s' hs hs') u
    rwa [← hgraph _ s hs, ← hgraph _ s' hs'] at hu
  · have hiff (addr addr' : Str) (s s' : SNSServer) (hs : c.network.servers addr = some s)
        (hs' : c.network.servers addr' = some s') (a b : Str) : s.follows a b = s'.follows a b ↔
          lastWrite write (.follows a b) (handledAt addr tr) =
            lastWrite write (.follows a b) (handledAt addr' tr) := by
      rw [← foldl_update_eq_iff write g (hperm addr addr' s s' hs hs'), ← hgraph _ s hs, ← hgraph _ s' hs']
      rfl
    constructor
    · intro hedges addr addr' s s' hs hs' a b
      exact (hiff addr addr' s s' hs hs' a b).mp (hedges addr addr' s s' hs hs' a b)
    · intro hlast addr addr' s s' hs hs' a b
      exact (hiff addr addr' s s' hs hs' a b).mpr (hlast addr addr' s s' hs hs' a b)

end

/-! ## Two masters -/

/-- One server of each of two clusters registers. -/
def twoRegistrations : List SNSCoordinator.Event :=
  [.heartbeat 0 { clusterid := 1, serverid := 1, hostname := ['a'], port := ['1'] },
    .heartbeat 0 { clusterid := 2, serverid := 1, hostname := ['b'], port := ['1'] }]

def twoMasters (addr : Str) : Option SNSServer :=
  if addr = ['a', ':', '1'] then some (replica 1 1 true none)
  else if addr = ['b', ':', '1'] then some (replica 2 1 true none)
  else none

def Config.twoMasters (c : SNSCoordinator) : Config :=
  { network := { coordinator := c, servers := System.twoMasters }, inFlight := [] }

theorem twoMasters_start {c : SNSCoordinator}
    (hc : twoRegistrations.foldlM SNSCoordinator.handle (.init 2) = .ok c)
    (hagree : agreeing c System.twoMasters = true)
    (ha : ∃ z, c.zNode? 0 1 = some z ∧ z.master = true ∧ z.getAddress = ['a', ':', '1'])
    (hb : ∃ z, c.zNode? 1 1 = some z ∧ z.master = true ∧ z.getAddress = ['b', ':', '1']) :
    Start (.twoMasters c) (replica 1 1 true none).graph := by
  obtain ⟨za, hza, hma, haddra⟩ := ha
  obtain ⟨zb, hzb, hmb, haddrb⟩ := hb
  have ht : Topology (Config.twoMasters c).network :=
    .of_agreeing (.of_reachable (Machine.reachable_of_foldlM rfl hc)) hagree
  have hcases (addr : Str) (s : SNSServer) (hs : System.twoMasters addr = some s) :
      (addr = ['a', ':', '1'] ∧ s = replica 1 1 true none) ∨
        (addr = ['b', ':', '1'] ∧ s = replica 2 1 true none) := by
    rw [System.twoMasters] at hs
    split_ifs at hs with h₁ h₂
    · cases hs
      exact Or.inl ⟨h₁, rfl⟩
    · cases hs
      exact Or.inr ⟨h₂, rfl⟩
  constructor
  · exact ht
  · intro addr s hs
    rcases hcases addr s hs with ⟨rfl, -⟩ | ⟨rfl, -⟩
    · exact ⟨0, 1, za, hza, ht.active 0 1 za hza hma, ⟨1, za, hza, hma⟩, haddra⟩
    · exact ⟨1, 1, zb, hzb, ht.active 1 1 zb hzb hmb, ⟨1, zb, hzb, hmb⟩, haddrb⟩
  · intro addr s hs
    rcases hcases addr s hs with ⟨-, rfl⟩ | ⟨-, rfl⟩
    · exact wellFormed_replica 1 1 true none
    · exact wellFormed_replica 2 1 true none
  · intro addr s hs
    rcases hcases addr s hs with ⟨-, rfl⟩ | ⟨-, rfl⟩
    · rfl
    · exact graph_congr rfl rfl
  · rfl

def followPacket (addr a b : Str) : Packet :=
  { addr, method := .FOLLOW, request := { username := a, arguments := [b] } }

def unfollowPacket (addr a b : Str) : Packet :=
  { addr, method := .UNFOLLOW, request := { username := a, arguments := [b] } }

def loginPacket (addr u : Str) : Packet := { addr, method := .LOGIN, request := { username := u } }

/-- The events are a run of the two masters. -/
theorem exists_run {l : List Event} {P : List (Config × Event) → Config → Prop}
    (h : ∃ c, twoRegistrations.foldlM SNSCoordinator.handle (.init 2) = .ok c ∧
      agreeing c System.twoMasters = true ∧
      (∃ z, c.zNode? 0 1 = some z ∧ z.master = true ∧ z.getAddress = ['a', ':', '1']) ∧
      (∃ z, c.zNode? 1 1 = some z ∧ z.master = true ∧ z.getAddress = ['b', ':', '1']) ∧
      ∃ c', l.foldlM (Config.step .utc) (.twoMasters c) = .ok c' ∧
        P (Machine.history (Config.step .utc) (.twoMasters c) l) c') :
    ∃ c₀ tr c, (deliveryMachine .utc).init c₀ ∧ c₀.network.servers = System.twoMasters ∧
      (deliveryMachine .utc).Run c₀ tr c ∧ P tr c := by
  obtain ⟨c, hc, hagree, ha, hb, c', hrun, hP⟩ := h
  exact ⟨_, _, c', ⟨_, twoMasters_start hc hagree ha hb⟩, rfl, Machine.run_of_foldlM hrun, hP⟩

/-- The requests of the two masters, each of whom has got these. -/
theorem deliveredInOrder_twoMasters {c₀ : Config} {tr : List (Config × Event)} {l : List (Method × Request)}
    (hservers : c₀.network.servers = twoMasters) (ha : handledAt ['a', ':', '1'] tr = l)
    (hb : handledAt ['b', ':', '1'] tr = l) (hl : AnswerableInTurn .utc (replica 1 1 true none).graph l) :
    DeliveredInOrder .utc c₀ tr := by
  intro addr s hs
  rw [hservers, twoMasters] at hs
  split_ifs at hs with h₁ h₂
  · cases hs
    rw [h₁, ha]
    exact hl
  · cases hs
    rw [h₂, hb]
    exact hl

def loginAndFollow : List (Method × Request) :=
  [(.LOGIN, { username := ['c'], from_server := true }),
    (.FOLLOW, { username := ['a'], arguments := [['c']], from_server := true })]

/-- The login of a user and a follow of him reach the other master in their order. -/
theorem replicas_converge_iff_login : ∃ c₀ tr c, (deliveryMachine .utc).init c₀ ∧
    (deliveryMachine .utc).Run c₀ tr c ∧ c.inFlight = [] ∧ ∃ s s',
      c.network.servers ['a', ':', '1'] = some s ∧ c.network.servers ['b', ':', '1'] = some s' ∧
        s.hasUser ['c'] = true ∧ s'.hasUser ['c'] = true := by
  obtain ⟨c₀, tr, c, hc₀, hservers, hrun, ⟨ha, hb⟩, hquiet, ⟨s, hs, huser⟩, s', hs'⟩ := exists_run
    (l := [.accept (loginPacket ['a', ':', '1'] ['c']),
      .accept (followPacket ['a', ':', '1'] ['a'] ['c']), .deliver 0, .deliver 0])
    (P := fun tr c => (handledAt ['a', ':', '1'] tr = loginAndFollow ∧ handledAt ['b', ':', '1'] tr = loginAndFollow) ∧
      c.inFlight = [] ∧
      (∃ s, c.network.servers ['a', ':', '1'] = some s ∧ s.hasUser ['c'] = true) ∧
      ∃ s, c.network.servers ['b', ':', '1'] = some s)
    ⟨_, rfl, by decide +kernel, ⟨_, rfl, by decide +kernel, by decide +kernel⟩,
      ⟨_, rfl, by decide +kernel, by decide +kernel⟩, _, rfl, ⟨by decide +kernel, by decide +kernel⟩, rfl,
      ⟨_, rfl, by decide +kernel⟩, _, rfl⟩
  have hanswerable : AnswerableInTurn .utc (replica 1 1 true none).graph loginAndFollow := by
    refine ⟨⟨rfl, nofun, nofun⟩, ⟨by decide +kernel, fun _ => ⟨_, rfl⟩, nofun⟩, trivial⟩
  have horder := deliveredInOrder_twoMasters hservers ha hb hanswerable
  obtain ⟨-, husers, -⟩ := replicas_converge_iff hc₀ hrun horder hquiet
  exact ⟨c₀, tr, c, hc₀, hrun, hquiet, s, s', hs, hs', huser, (husers _ _ s s' hs hs' ['c']).symm.trans huser⟩

/-- A follow and an unfollow accepted by two masters at the same time leave them with different edges, and a
follow which overtakes the login of its target ends the process it is delivered to. -/
theorem replicas_diverge :
    (∃ c₀ tr c, (deliveryMachine .utc).init c₀ ∧ (deliveryMachine .utc).Run c₀ tr c ∧ c.inFlight = [] ∧
      ∃ s s', c.network.servers ['a', ':', '1'] = some s ∧ c.network.servers ['b', ':', '1'] = some s' ∧
        s.follows ['a'] ['b'] ≠ s'.follows ['a'] ['b']) ∧
    ∃ c₀ tr c, (deliveryMachine .utc).init c₀ ∧ (deliveryMachine .utc).Run c₀ tr c ∧ c.inFlight = [] ∧
      c.network.servers ['b', ':', '1'] = none := by
  constructor
  · obtain ⟨c₀, tr, c, hc₀, -, hrun, hdiffer⟩ := exists_run
      (l := [.accept (followPacket ['a', ':', '1'] ['a'] ['b']),
        .accept (unfollowPacket ['b', ':', '1'] ['a'] ['b']), .deliver 0, .deliver 0])
      (P := fun _ c => c.inFlight = [] ∧ ∃ s s', c.network.servers ['a', ':', '1'] = some s ∧
        c.network.servers ['b', ':', '1'] = some s' ∧ s.follows ['a'] ['b'] ≠ s'.follows ['a'] ['b'])
      ⟨_, rfl, by decide +kernel, ⟨_, rfl, by decide +kernel, by decide +kernel⟩,
        ⟨_, rfl, by decide +kernel, by decide +kernel⟩, _, rfl, rfl, _, _, rfl, rfl, by decide +kernel⟩
    exact ⟨c₀, tr, c, hc₀, hrun, hdiffer⟩
  · obtain ⟨c₀, tr, c, hc₀, -, hrun, hended⟩ := exists_run
      (l := [.accept (loginPacket ['a', ':', '1'] ['c']),
        .accept (followPacket ['a', ':', '1'] ['a'] ['c']), .deliver 1, .deliver 0])
      (P := fun _ c => c.inFlight = [] ∧ c.network.servers ['b', ':', '1'] = none)
      ⟨_, rfl, by decide +kernel, ⟨_, rfl, by decide +kernel, by decide +kernel⟩,
        ⟨_, rfl, by decide +kernel, by decide +kernel⟩, _, rfl, rfl, rfl⟩
    exact ⟨c₀, tr, c, hc₀, hrun, hended⟩

end DistributedSns.System
