import DistributedSns.System.Lemmas.Heartbeats

/-!
# The invariant of the roles

The role of a process comes from the last reply it has received, and a reply from the last heartbeat which was
handled. Two registered processes with the same ids exist only if one of them has replaced an inactive server.
-/

namespace DistributedSns.System.Heartbeats

open Lib (Machine)
open Coordinator
open Server (SNSServer)

/-- The process is registered, or the reply which registers it is on its way. -/
def Enrolled (c : State) (p : Str) (s : SNSServer) : Prop :=
  s.serverInfo.registered = true ∨ ∃ status path, c.inFlight p = .reply status path ∧ status.code = .ok

/-- The server with these ids is master, or it was and `Q` holds of what has happened since it expired. -/
def MasterUntil (tr : List (State × Event)) (c : State) (info : ServerInfo) (Q : List Event → Prop) : Prop :=
  ∃ i : Nat, info.clusterid = i + 1 ∧ (c.IsMaster i info.serverid ∨ ExpiredSince tr i info.serverid Q)

structure ProcessOk (tr : List (State × Event)) (c : State) (p : Str) (s : SNSServer) : Prop where
  request : ∀ info, c.inFlight p = .request info → info = s.serverInfo
  flag : s.master = true → MasterUntil tr c s.serverInfo fun l => ¬ Heard p l
  reply : ∀ status path, c.inFlight p = .reply status path → path.master = true →
    MasterUntil tr c s.serverInfo fun l => ∀ now, .handle now p ∉ l
  unregistered : s.serverInfo.registered = false → s.master = false
  enrolled : Enrolled c p s →
    ∃ i : Nat, s.serverInfo.clusterid = i + 1 ∧ (c.zNode? i s.serverInfo.serverid).isSome = true

structure RoleInv (tr : List (State × Event)) (c : State) : Prop where
  inv : Inv c.network.coordinator
  process : ∀ (p : Str) (s : SNSServer), c.network.servers p = some s → ProcessOk tr c p s
  replaced : ∀ (p q : Str) (s t : SNSServer), p ≠ q → c.network.servers p = some s →
    c.network.servers q = some t → Enrolled c p s → Enrolled c q t →
    s.serverInfo.clusterid = t.serverInfo.clusterid → s.serverInfo.serverid = t.serverInfo.serverid →
    Replaced tr p q s.serverInfo

theorem RoleInv.init (numClusters : Int) : RoleInv [] (.init numClusters) where
  inv := .init numClusters
  process := by
    intro p s hs
    cases hs
  replaced := by
    intro p q s t _ hs
    cases hs

/-! ## One process -/

section

variable {tr : List (State × Event)} {c c' : State} {e : Event} {p : Str} {s : SNSServer}

theorem MasterUntil.step {info : ServerInfo} {Q Q' : List Event → Prop} (h : MasterUntil tr c info Q)
    (hk : Kept c e c') (hnil : Q' []) (hQ : ∀ l, Q l → Q' (l ++ [e])) :
    MasterUntil (tr ++ [(c, e)]) c' info Q' := by
  obtain ⟨i, hi, h⟩ := h
  refine ⟨i, hi, ?_⟩
  rcases h with hm | hexp
  · rcases hk.master i _ hm with hm | he
    · exact Or.inl hm
    · exact Or.inr (.of_expires he hnil)
  · exact Or.inr (hexp.concat hQ)

theorem not_heard_nil : ¬ Heard p [] := by
  rintro ⟨now, l₁, l₂, l₃, h⟩
  simp at h

theorem MasterUntil.flag_step {info : ServerInfo} (h : MasterUntil tr c info fun l => ¬ Heard p l)
    (hk : Kept c e c') (hne : e ≠ .receive p) :
    MasterUntil (tr ++ [(c, e)]) c' info fun l => ¬ Heard p l := by
  apply h.step hk not_heard_nil
  intro l hl hheard
  rcases heard_concat hheard with hheard | ⟨rfl, -⟩
  · exact hl hheard
  · exact hne rfl

theorem MasterUntil.reply_step {info : ServerInfo} (h : MasterUntil tr c info fun l => ∀ now, .handle now p ∉ l)
    (hk : Kept c e c') (hne : ∀ now, e ≠ .handle now p) :
    MasterUntil (tr ++ [(c, e)]) c' info fun l => ∀ now, .handle now p ∉ l := by
  apply h.step hk
  · simp
  · intro l hl now hmem
    rcases List.mem_append.mp hmem with hmem | hmem
    · exact hl now hmem
    · exact hne now (List.mem_singleton.mp hmem).symm

theorem ProcessOk.known (h : ProcessOk tr c p s) (hk : Kept c e c') (he : Enrolled c p s) :
    ∃ i : Nat, s.serverInfo.clusterid = i + 1 ∧ (c'.zNode? i s.serverInfo.serverid).isSome = true := by
  obtain ⟨i, hi, hz⟩ := h.enrolled he
  exact ⟨i, hi, hk.known i _ hz⟩

/-- A step in which neither the process nor a message of it takes part. -/
theorem ProcessOk.frame (h : ProcessOk tr c p s) (hk : Kept c e c') (hm : c'.inFlight p = c.inFlight p)
    (hreceive : e ≠ .receive p) (hhandle : ∀ now, e ≠ .handle now p) : ProcessOk (tr ++ [(c, e)]) c' p s where
  request := by
    rw [hm]
    exact h.request
  flag hf := (h.flag hf).flag_step hk hreceive
  reply := by
    rw [hm]
    intro status path hr hp
    exact (h.reply status path hr hp).reply_step hk hhandle
  unregistered := h.unregistered
  enrolled := by
    rw [Enrolled, hm]
    exact h.known hk

theorem processOk_start {hostname port : Str} {clusterId serverId : Int}
    (hm : c'.inFlight p = .request (unregistered hostname port clusterId serverId)) :
    ProcessOk tr c' p { serverInfo := unregistered hostname port clusterId serverId } where
  request := by
    intro info hr
    rw [hm] at hr
    cases hr
    rfl
  flag hf := by cases hf
  reply := by
    intro status path hr
    rw [hm] at hr
    cases hr
  unregistered _ := rfl
  enrolled := by
    rintro (hr | ⟨status, path, hr, -⟩)
    · cases hr
    · rw [hm] at hr
      cases hr

theorem ProcessOk.sendHeartbeat (h : ProcessOk tr c p s) (hk : Kept c (.sendHeartbeat p) c')
    (hm : c'.inFlight p = .request s.serverInfo) : ProcessOk (tr ++ [(c, .sendHeartbeat p)]) c' p s where
  request := by
    intro info hr
    rw [hm] at hr
    cases hr
    rfl
  flag hf := (h.flag hf).flag_step hk (by simp)
  reply := by
    intro status path hr
    rw [hm] at hr
    cases hr
  unregistered := h.unregistered
  enrolled := by
    rintro (hr | ⟨status, path, hr, -⟩)
    · exact h.known hk (Or.inl hr)
    · rw [hm] at hr
      cases hr

/-- The coordinator's handler tells a process that it is master only if it is. -/
theorem ProcessOk.handle (h : ProcessOk tr c p s) (hinv : Inv c.network.coordinator) {now : Int}
    {info : ServerInfo} {coordinator : SNSCoordinator} {status : Status} {path : Path}
    (hm : c.inFlight p = .request info)
    (hr : c.network.coordinator.heartbeat now info = .ok (coordinator, status, path)) :
    ProcessOk (tr ++ [(c, .handle now p)])
      ((c.setCoordinator coordinator).setInFlight p (.reply status path)) p s := by
  have hk := kept_handle hinv (p := p) (.reply status path) hr
  have hinfo := h.request info hm
  have hentry := heartbeat_entry (heartbeat_outcome hinv.service hr)
  constructor
  · intro info' hr'
    simp at hr'
  · intro hf
    exact (h.flag hf).flag_step hk (by simp)
  · intro status' path' hr' hmaster
    simp only [inFlight_setInFlight, Function.update_self, InFlight.reply.injEq] at hr'
    obtain ⟨rfl, rfl⟩ := hr'
    rcases hentry with ⟨-, -, hp⟩ | ⟨i, z, he⟩
    · rw [hmaster] at hp
      cases hp
    · refine ⟨i, hinfo ▸ he.accepts.clusterid, Or.inl ⟨z, ?_, he.master.trans hmaster⟩⟩
      have hz : coordinator.zNode? i s.serverInfo.serverid = _ := he.zNode? i _
      rw [State.zNode?, network_setInFlight, coordinator_setCoordinator, hz, hinfo, if_pos ⟨rfl, rfl⟩]
  · exact h.unregistered
  · rintro (hreg | ⟨status', path', hr', hok⟩)
    · exact h.known hk (Or.inl hreg)
    · simp only [inFlight_setInFlight, Function.update_self, InFlight.reply.injEq] at hr'
      obtain ⟨rfl, rfl⟩ := hr'
      rcases hentry with ⟨-, hno, -⟩ | ⟨i, z, he⟩
      · exact absurd hok hno
      · refine ⟨i, hinfo ▸ he.accepts.clusterid, ?_⟩
        have hz : coordinator.zNode? i s.serverInfo.serverid = _ := he.zNode? i _
        rw [State.zNode?, network_setInFlight, coordinator_setCoordinator, hz, hinfo, if_pos ⟨rfl, rfl⟩]
        rfl

theorem ProcessOk.receive (h : ProcessOk tr c p s) {status : Status} {path : Path} {s' : SNSServer}
    (hm : c.inFlight p = .reply status path) (hs' : received s status path = some s')
    (hk : Kept c (.receive p) c') (hm' : c'.inFlight p = .nothing) :
    ProcessOk (tr ++ [(c, .receive p)]) c' p s' := by
  rw [received] at hs'
  split_ifs at hs' with hok
  cases hs'
  constructor
  · intro info hr
    rw [hm'] at hr
    cases hr
  · intro hmaster
    apply (h.reply status path hm hmaster).step hk not_heard_nil
    intro l hl hheard
    rcases heard_concat hheard with ⟨now, l₁, l₂, l₃, rfl⟩ | ⟨-, now, hmem⟩
    · exact hl now (by simp)
    · exact hl now hmem
  · intro status' path' hr
    rw [hm'] at hr
    cases hr
  · intro hr
    cases hr
  · intro _
    exact h.known hk (Or.inr ⟨status, path, hm, hok⟩)

end

/-! ## All processes -/

section

variable {tr : List (State × Event)} {c c' : State} {e : Event} {p : Str}

theorem RoleInv.processOk (h : RoleInv tr c) (ho : Outcome c e c') {s : SNSServer}
    (hs : c'.network.servers p = some s) : ProcessOk (tr ++ [(c, e)]) c' p s := by
  have hk := ho.kept h.inv
  cases ho with
  | @start q hostname port clusterId serverId hdead hidle =>
      by_cases hp : p = q
      · subst hp
        simp only [network_setInFlight, servers_setServer, Function.update_self, Option.some.injEq] at hs
        subst hs
        apply processOk_start
        simp
      · simp only [network_setInFlight, servers_setServer, Function.update_of_ne hp] at hs
        apply (h.process p s hs).frame hk
        · simp [hp]
        · simp
        · simp
  | @sendHeartbeat q t ht hidle =>
      have hold := h.process p s hs
      by_cases hp : p = q
      · subst hp
        obtain rfl : t = s := Option.some.inj (ht.symm.trans hs)
        apply hold.sendHeartbeat hk
        simp
      · apply hold.frame hk
        · simp [hp]
        · simp
        · simp
  | @handle now q info coordinator status path hm hr =>
      have hold := h.process p s hs
      by_cases hp : p = q
      · subst hp
        exact hold.handle h.inv hm hr
      · apply hold.frame hk
        · simp [hp]
        · simp
        · intro now' he
          cases he
          exact hp rfl
  | @receive q status path hm =>
      by_cases hp : p = q
      · subst hp
        simp only [network_setInFlight, servers_setServer, Function.update_self,
          Option.bind_eq_some_iff] at hs
        obtain ⟨s₀, hs₀, hs⟩ := hs
        apply (h.process p s₀ hs₀).receive hm hs hk
        simp
      · simp only [network_setInFlight, servers_setServer, Function.update_of_ne hp] at hs
        apply (h.process p s hs).frame hk
        · simp [hp]
        · intro he
          cases he
          exact hp rfl
        · simp
  | check hr =>
      apply (h.process p s hs).frame hk
      · simp
      · simp
      · simp
  | @exit q =>
      by_cases hp : p = q
      · subst hp
        simp at hs
      · simp only [servers_setServer, Function.update_of_ne hp] at hs
        apply (h.process p s hs).frame hk
        · simp
        · simp
        · simp

/-- This step registers the process with these ids. -/
def Registers (c : State) (e : Event) (p : Str) (s : SNSServer) : Prop :=
  ∃ now, e = .handle now p ∧ c.inFlight p = .request s.serverInfo ∧ s.serverInfo.registered = false ∧
    ∃ i, Accepts c.network.coordinator s.serverInfo i

/-- A registered process was registered before or is registered in this step. -/
theorem RoleInv.enrolled (h : RoleInv tr c) (ho : Outcome c e c') {s' : SNSServer}
    (hs' : c'.network.servers p = some s') (he : Enrolled c' p s') :
    ∃ s, c.network.servers p = some s ∧ s'.serverInfo.clusterid = s.serverInfo.clusterid ∧
      s'.serverInfo.serverid = s.serverInfo.serverid ∧ (Enrolled c p s ∨ Registers c e p s) := by
  cases ho with
  | @start q hostname port clusterId serverId hdead hidle =>
      by_cases hp : p = q
      · subst hp
        simp only [network_setInFlight, servers_setServer, Function.update_self, Option.some.injEq] at hs'
        subst hs'
        rcases he with hr | ⟨status, path, hm, -⟩
        · cases hr
        · simp at hm
      · simp only [network_setInFlight, servers_setServer, Function.update_of_ne hp] at hs'
        simp only [Enrolled, inFlight_setInFlight, inFlight_setServer, Function.update_of_ne hp] at he
        exact ⟨s', hs', rfl, rfl, Or.inl he⟩
  | @sendHeartbeat q t ht hidle =>
      refine ⟨s', hs', rfl, rfl, Or.inl ?_⟩
      by_cases hp : p = q
      · subst hp
        rcases he with hr | ⟨status, path, hm, -⟩
        · exact Or.inl hr
        · simp at hm
      · simpa only [Enrolled, inFlight_setInFlight, Function.update_of_ne hp] using he
  | @handle now q info coordinator status path hm hr =>
      refine ⟨s', hs', rfl, rfl, ?_⟩
      by_cases hp : p = q
      · subst hp
        cases hreg : s'.serverInfo.registered with
        | true => exact Or.inl (Or.inl hreg)
        | false =>
            right
            have hinfo := (h.process p s' hs').request info hm
            rcases he with he | ⟨status', path', hm', hok⟩
            · rw [hreg] at he
              cases he
            · simp only [inFlight_setInFlight, Function.update_self, InFlight.reply.injEq] at hm'
              obtain ⟨rfl, rfl⟩ := hm'
              rcases heartbeat_entry (heartbeat_outcome h.inv.service hr) with ⟨-, hno, -⟩ | ⟨i, z, hentry⟩
              · exact absurd hok hno
              · exact ⟨now, rfl, hinfo ▸ hm, hreg, i, hinfo ▸ hentry.accepts⟩
      · left
        simpa only [Enrolled, inFlight_setInFlight, inFlight_setCoordinator, Function.update_of_ne hp] using he
  | @receive q status path hm =>
      by_cases hp : p = q
      · subst hp
        simp only [network_setInFlight, servers_setServer, Function.update_self,
          Option.bind_eq_some_iff] at hs'
        obtain ⟨s, hs, hs'⟩ := hs'
        rw [received] at hs'
        split_ifs at hs' with hok
        cases hs'
        exact ⟨s, hs, rfl, rfl, Or.inl (Or.inr ⟨status, path, hm, hok⟩)⟩
      · simp only [network_setInFlight, servers_setServer, Function.update_of_ne hp] at hs'
        simp only [Enrolled, inFlight_setInFlight, inFlight_setServer, Function.update_of_ne hp] at he
        exact ⟨s', hs', rfl, rfl, Or.inl he⟩
  | check hr => exact ⟨s', hs', rfl, rfl, Or.inl he⟩
  | @exit q =>
      by_cases hp : p = q
      · subst hp
        simp at hs'
      · simp only [servers_setServer, Function.update_of_ne hp] at hs'
        exact ⟨s', hs', rfl, rfl, Or.inl he⟩

/-- Nobody is registered with the ids of a registered process unless that server is inactive. -/
theorem Registers.replaces {q : Str} {s t : SNSServer} (hr : Registers c e p s) (hq : ProcessOk tr c q t)
    (he : Enrolled c q t) (hcluster : s.serverInfo.clusterid = t.serverInfo.clusterid)
    (hserver : s.serverInfo.serverid = t.serverInfo.serverid) :
    ∃ i : Nat, s.serverInfo.clusterid = i + 1 ∧ Replaces c e p i s.serverInfo.serverid := by
  obtain ⟨now, rfl, hm, hreg, j, ha⟩ := hr
  obtain ⟨i, hi, hz⟩ := hq.enrolled he
  obtain ⟨z, hz⟩ := Option.isSome_iff_exists.mp hz
  have hij : j = i := by
    have := ha.clusterid
    omega
  subst hij
  rw [← hserver] at hz
  have hclash := ha.clash
  rw [State.zNode?] at hz
  simp only [SNSCoordinator.registrationClash, hz, hreg, Bool.not_false, Bool.true_and] at hclash
  exact ⟨j, ha.clusterid, now, _, z, rfl, hm, hreg, hz, hclash⟩

theorem RoleInv.step (h : RoleInv tr c) (ho : Outcome c e c') : RoleInv (tr ++ [(c, e)]) c' := by
  constructor
  · exact (ho.kept h.inv).inv
  · intro p s hs
    exact h.processOk ho hs
  · intro p q s' t' hpq hs' ht' hes' het' hcluster hserver
    obtain ⟨s, hs, hsc, hsi, hes⟩ := h.enrolled ho hs' hes'
    obtain ⟨t, ht, htc, hti, het⟩ := h.enrolled ho ht' het'
    rw [hsc, htc] at hcluster
    rw [hsi, hti] at hserver
    rw [Replaced, hsc, hsi]
    rcases hes with hes | hes
    · rcases het with het | het
      · obtain ⟨i, hi, x, hx, hrep⟩ := h.replaced p q s t hpq hs ht hes het hcluster hserver
        exact ⟨i, hi, x, List.mem_append_left _ hx, hrep⟩
      · obtain ⟨i, hi, hrep⟩ := het.replaces (h.process p s hs) hes hcluster.symm hserver.symm
        refine ⟨i, hcluster.trans hi, (c, e), by simp, Or.inr ?_⟩
        rwa [hserver]
    · rcases het with het | het
      · obtain ⟨i, hi, hrep⟩ := hes.replaces (h.process q t ht) het hcluster hserver
        exact ⟨i, hi, (c, e), by simp, Or.inl hrep⟩
      · obtain ⟨now, rfl, -⟩ := hes
        obtain ⟨now', he, -⟩ := het
        cases he
        exact absurd rfl hpq

theorem roleInv_of_run {numClusters : Int} {c₀ : State} (h₀ : (machine numClusters).init c₀)
    (hrun : (machine numClusters).Run c₀ tr c) : RoleInv tr c := by
  induction hrun with
  | nil =>
      obtain rfl : c₀ = .init numClusters := h₀
      exact .init numClusters
  | snoc _ hstep ih => exact ih.step (step_outcome hstep)

end

end DistributedSns.System.Heartbeats
