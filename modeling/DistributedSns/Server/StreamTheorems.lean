import DistributedSns.Server.Lemmas.Streams

/-!
# What reaches the streams

`Timeline` stores its stream in the client of the first message, and the stream stays there when the call returns. So
the stored streams are live as long as no call returns whose stream is stored.
-/

namespace DistributedSns.Server.Streams

open Lib (Machine)
open SNSServer

variable {tz : TimeZone} {s c c' : State} {e : Event} {tr : List (State × Event)}

theorem wellFormed_of_run (h : WellFormed s.server) (hrun : (machine tz).Run s tr c) : WellFormed c.server := by
  apply hrun.invariant h
  intro c e c' hc hstep
  exact (step_outcome hc hstep).wellFormed hc

/-! ## Stored streams -/

/-- Each stored stream belongs to a call which has not returned. -/
def StoredLive (c : State) : Prop :=
  ∀ (ref : Nat) (stream : StreamId), c.server.streamOf ref = some stream → stream ∈ c.live

/-- A call returns while its stream is stored in a client. -/
def ReturnsStored (c : State) : Event → Prop
  | .leave stream => ∃ client ∈ c.server.heap, client.stream = some stream
  | _ => False

instance (c : State) (e : Event) : Decidable (ReturnsStored c e) :=
  match e with
  | .leave stream => inferInstanceAs (Decidable (∃ client ∈ c.server.heap, client.stream = some stream))
  | .request _ _ => .isFalse id
  | .enter => .isFalse id
  | .message _ _ => .isFalse id

theorem returnsStored_leave {stream : StreamId} :
    ReturnsStored c (.leave stream) ↔ ∃ ref, c.server.streamOf ref = some stream := by
  constructor
  · rintro ⟨client, hclient, hstream⟩
    obtain ⟨ref, href⟩ := List.getElem?_of_mem hclient
    exact ⟨ref, (streamOf_eq href).trans hstream⟩
  · rintro ⟨ref, hstream⟩
    obtain ⟨client, href, hstream⟩ := Option.bind_eq_some_iff.mp hstream
    exact ⟨client, List.mem_of_getElem? href, hstream⟩

/-- No stream is opened twice. -/
structure Numbered (c : State) : Prop where
  wellFormed : WellFormed c.server
  nodup : c.live.Nodup
  live : ∀ stream ∈ c.live, stream < c.opened
  stored : ∀ (ref : Nat) (stream : StreamId), c.server.streamOf ref = some stream → stream < c.opened

theorem Numbered.of_start (hs : s.Start) : Numbered s := by
  constructor
  · exact hs.wellFormed
  · simp [hs.live]
  · simp [hs.live]
  · simp [hs.streams]

theorem Numbered.step (h : Numbered c) (ho : Outcome tz c e c') : Numbered c' := by
  have hwf := ho.wellFormed h.wellFormed
  have hstored := ho.streamOf
  cases ho with
  | enter =>
      constructor
      · exact hwf
      · apply List.nodup_append.mpr
        refine ⟨h.nodup, List.nodup_singleton _, ?_⟩
        intro stream hstream stream' hstream'
        rw [List.mem_singleton] at hstream'
        rw [hstream']
        exact Nat.ne_of_lt (h.live stream hstream)
      · intro stream hstream
        rcases List.mem_append.mp hstream with hold | hnew
        · exact Nat.lt_succ_of_lt (h.live stream hold)
        · rw [List.mem_singleton] at hnew
          rw [hnew]
          exact Nat.lt_succ_self c.opened
      · intro ref stream href
        exact Nat.lt_succ_of_lt (h.stored ref stream href)
  | leave hlive =>
      constructor
      · exact hwf
      · exact h.nodup.erase _
      · intro stream hstream
        exact h.live stream (List.mem_of_mem_erase hstream)
      · exact h.stored
  | account | addPost | joined | posted | ignored =>
      constructor
      · exact hwf
      · exact h.nodup
      · exact h.live
      · intro ref stream href
        rcases hstored with hsame | ⟨stream', message, i, -, hlive, -, -, -, hupdate⟩
        · rw [hsame] at href
          exact h.stored ref stream href
        · rw [hupdate, Function.update_apply] at href
          split_ifs at href with hi
          · cases href
            exact h.live _ hlive
          · exact h.stored ref stream href

theorem numbered_of_run (h : Numbered s) (hrun : (machine tz).Run s tr c) : Numbered c := by
  apply hrun.invariant h
  intro c e c' hc hstep
  exact hc.step (step_outcome hc.wellFormed hstep)

theorem storedLive_of_live (ho : Outcome tz c e c') (hlive : c'.live = c.live) : StoredLive c' ↔ StoredLive c := by
  unfold StoredLive
  rw [hlive]
  constructor
  · intro h ref stream href
    exact h ref stream (ho.streamOf_some href)
  · intro h ref stream href
    rcases ho.streamOf with hsame | ⟨stream', message, i, -, hlive', -, -, -, hupdate⟩
    · rw [hsame] at href
      exact h ref stream href
    · rw [hupdate, Function.update_apply] at href
      split_ifs at href with hi
      · cases href
        exact hlive'
      · exact h ref stream href

theorem storedLive_step (h : Numbered c) (ho : Outcome tz c e c') :
    StoredLive c' ↔ StoredLive c ∧ ¬ ReturnsStored c e := by
  have hother := storedLive_of_live ho
  cases ho with
  | enter =>
      constructor
      · intro hlive
        refine ⟨fun ref stream href => ?_, id⟩
        rcases List.mem_append.mp (hlive ref stream href) with hold | hnew
        · exact hold
        · rw [List.mem_singleton] at hnew
          exact absurd hnew (Nat.ne_of_lt (h.stored ref stream href))
      · intro hlive ref stream href
        exact List.mem_append_left _ (hlive.1 ref stream href)
  | @leave stream₀ hlive₀ =>
      constructor
      · intro hlive
        refine ⟨fun ref stream href => List.mem_of_mem_erase (hlive ref stream href), fun hreturns => ?_⟩
        obtain ⟨ref, href⟩ := returnsStored_leave.mp hreturns
        exact h.nodup.not_mem_erase (hlive ref stream₀ href)
      · rintro ⟨hlive, hreturns⟩ ref stream href
        have hne : stream ≠ stream₀ := by
          rintro rfl
          exact hreturns (returnsStored_leave.mpr ⟨ref, href⟩)
        exact (List.mem_erase_of_ne hne).mpr (hlive ref stream href)
  | account | addPost | joined | posted | ignored =>
      rw [hother rfl, iff_self_and]
      exact fun _ => id

theorem storedLive_of_run (h : Numbered s) (hs : StoredLive s) (hrun : (machine tz).Run s tr c) :
    StoredLive c ↔ ∀ x ∈ tr, ¬ ReturnsStored x.1 x.2 := by
  induction hrun with
  | nil => simp [hs]
  | snoc hrun hstep ih =>
      have hc := numbered_of_run h hrun
      rw [storedLive_step hc (step_outcome hc.wellFormed hstep), ih, List.forall_mem_append]
      simp

/-! ## Writes to live streams -/

/-- What clients may rely on: stored streams are live, so no handler writes to a stream whose call has returned,
and a client who has left and enters again gets the later posts on the new stream. -/
structure Sound (tz : TimeZone) (c : State) : Prop where
  stored : StoredLive c
  writes : ∀ (e : Event) (server : SNSServer), Handles tz c e server →
    ∀ w ∈ newWrites c { c with server }, w.1 ∈ c.live
  reenters : ∀ (stream : StreamId) (message : Message) (i : Nat) (c' : State),
    c.server.getClient message.username = some i →
    (∀ stream' ∈ c.live, c.server.streamOf i ≠ some stream') →
    c.step tz (.message stream message) = .ok c' →
    ∀ (tr : List (State × Event)) (c₁ c₂ : State) (e : Event), (machine tz).Run c' tr c₁ →
      c₁.step tz e = .ok c₂ → ∀ post ∈ newPosts c₁ c₂, c₁.server.follows message.username post.username = true →
        (stream, Post.toMessage post) ∈ newWrites c₁ c₂

theorem Effect.writes_live (heff : Effect c e c') (hlive : StoredLive c) : ∀ w ∈ newWrites c c', w.1 ∈ c.live := by
  cases heff with
  | quiet hposts hwritten => simp [newWrites, hwritten]
  | posted hi ha hposts hwritten =>
      rw [newWrites_of_append hwritten]
      intro w hw
      obtain ⟨stream, hstream, rfl⟩ := List.mem_map.mp hw
      obtain ⟨ref, -, href⟩ := List.mem_filterMap.mp hstream
      exact hlive ref stream href
  | joined he hlive' hi ha hnone hbacklog hposts hwritten =>
      rw [newWrites_of_append hwritten]
      intro w hw
      obtain ⟨post, -, rfl⟩ := List.mem_map.mp hw
      exact hlive'

/-- A post is written to the stream of each follower of its author. -/
theorem Effect.written_of_follows (heff : Effect c e c') (h : WellFormed c.server) {post : Post}
    (hpost : post ∈ newPosts c c') {u : Str} (hu : c.server.follows u post.username = true) {i : Nat}
    (hi : c.server.getClient u = some i) {stream : StreamId} (hstream : c.server.streamOf i = some stream) :
    (stream, Post.toMessage post) ∈ newWrites c c' := by
  cases heff with
  | quiet hposts hwritten => simp [hposts] at hpost
  | @posted message j a hj ha hposts hwritten =>
      rw [hposts, List.mem_singleton] at hpost
      subst hpost
      obtain ⟨i', j', b, hi', hj', hb, hm⟩ := follows_eq_true.mp hu
      rw [hi, Option.some.injEq] at hi'
      subst hi'
      rw [Post.ofMessage, hj, Option.some.injEq] at hj'
      subst hj'
      rw [newWrites_of_append hwritten]
      apply List.mem_map.mpr
      refine ⟨stream, List.mem_filterMap.mpr ⟨i, (h.mirror i j b a hb ha).mp hm, hstream⟩, rfl⟩
  | joined he hlive hi ha hnone hbacklog hposts hwritten => simp [hposts] at hpost

theorem streamOf_some_of_run {i : Nat} {stream : StreamId} (h : WellFormed s.server)
    (hi : s.server.streamOf i = some stream) (hrun : (machine tz).Run s tr c) :
    c.server.streamOf i = some stream := by
  induction hrun with
  | nil => exact hi
  | snoc hrun hstep ih => exact (step_outcome (wellFormed_of_run h hrun) hstep).streamOf_some ih

theorem getClient_of_run {u : Str} {i : Nat} (h : WellFormed s.server) (hi : s.server.getClient u = some i)
    (hrun : (machine tz).Run s tr c) : c.server.getClient u = some i := by
  induction hrun with
  | nil => exact hi
  | snoc hrun hstep ih =>
      have hc := wellFormed_of_run h hrun
      exact (step_outcome hc hstep).getClient hc ih

/-- Who has no stream and sends a message gets its stream. -/
theorem streamOf_of_message (h : WellFormed c.server) {stream : StreamId} {message : Message} {i : Nat}
    (hi : c.server.getClient message.username = some i) (hnone : c.server.streamOf i = none)
    (hs : c.step tz (.message stream message) = .ok c') : c'.server.streamOf i = some stream := by
  cases step_outcome h hs with
  | joined hlive hj ha hnone' hposts =>
      rw [hi, Option.some.injEq] at hj
      subst hj
      rw [streamOf_joinOf ha, Function.update_self]
  | posted hlive hj ha hsome hdata =>
      rw [hi, Option.some.injEq] at hj
      subst hj
      exact absurd ((streamOf_eq ha).symm.trans hnone) hsome
  | ignored hlive hj ha hsome =>
      rw [hi, Option.some.injEq] at hj
      subst hj
      exact absurd ((streamOf_eq ha).symm.trans hnone) hsome

theorem sound_of_storedLive (h : WellFormed c.server) (hlive : StoredLive c) : Sound tz c := by
  constructor
  · exact hlive
  · intro e server hhandles
    exact (hhandles.outcome h).effect.writes_live hlive
  · intro stream message i c' hi hleft hstep tr c₁ c₂ e hrun hstep' post hpost hfollows
    have hnone : c.server.streamOf i = none := by
      cases hstream : c.server.streamOf i with
      | none => rfl
      | some stream' => exact absurd hstream (hleft stream' (hlive i stream' hstream))
    have hjoined := streamOf_of_message h hi hnone hstep
    have ho := step_outcome h hstep
    have h' := ho.wellFormed h
    have h₁ := wellFormed_of_run h' hrun
    have hi₁ := getClient_of_run h' (ho.getClient h hi) hrun
    exact (step_outcome h₁ hstep').effect.written_of_follows h₁ hpost hfollows hi₁
      (streamOf_some_of_run h' hjoined hrun)

theorem StoredLive.of_start (hs : s.Start) : StoredLive s := by
  intro ref stream href
  rw [hs.streams] at href
  cases href

/-! ## First messages -/

/-- A message of the user has been read. -/
def Wrote (es : List Event) (u : Str) : Prop :=
  ∃ stream message, Event.message stream message ∈ es ∧ message.username = u

/-- The first message of a user was read on this stream. -/
def FirstOn (es : List Event) (stream : StreamId) : Prop :=
  ∃ before message after, es = before ++ .message stream message :: after ∧ ¬ Wrote before message.username

/-- No call returns on whose stream the first message of a user was read. -/
def KeepsFirst (es : List Event) : Prop :=
  ∀ before stream after, es = before ++ .leave stream :: after → ¬ FirstOn before stream

section

variable {es before after : List Event} {x : Event} {u : Str} {stream : StreamId}

theorem wrote_concat : Wrote (es ++ [e]) u ↔
    Wrote es u ∨ ∃ stream message, e = .message stream message ∧ message.username = u := by
  constructor
  · rintro ⟨stream, message, hmem, hu⟩
    rcases List.mem_append.mp hmem with hold | hnew
    · exact Or.inl ⟨stream, message, hold, hu⟩
    · exact Or.inr ⟨stream, message, (List.mem_singleton.mp hnew).symm, hu⟩
  · rintro (⟨stream, message, hmem, hu⟩ | ⟨stream, message, rfl, hu⟩)
    · exact ⟨stream, message, List.mem_append_left _ hmem, hu⟩
    · exact ⟨stream, message, List.mem_append_right _ List.mem_cons_self, hu⟩

/-- What stands in a sequence stands before its last event or is the last one. -/
theorem concat_eq_append_cons :
    es ++ [e] = before ++ x :: after ↔ (∃ rest, after = rest ++ [e] ∧ es = before ++ x :: rest) ∨
      after = [] ∧ es = before ∧ e = x := by
  constructor
  · intro h
    rcases List.eq_nil_or_concat after with rfl | ⟨rest, y, rfl⟩
    · obtain ⟨rfl, hlast⟩ := List.append_inj' h rfl
      exact Or.inr ⟨rfl, rfl, List.singleton_inj.mp hlast⟩
    · have hassoc : before ++ x :: rest.concat y = (before ++ x :: rest) ++ [y] := by simp
      rw [hassoc] at h
      obtain ⟨rfl, hlast⟩ := List.append_inj' h rfl
      rw [List.singleton_inj.mp hlast]
      exact Or.inl ⟨rest, by simp, rfl⟩
  · rintro (⟨rest, rfl, rfl⟩ | ⟨rfl, rfl, rfl⟩)
    · simp
    · rfl

theorem firstOn_concat : FirstOn (es ++ [e]) stream ↔
    FirstOn es stream ∨ ∃ message, e = .message stream message ∧ ¬ Wrote es message.username := by
  constructor
  · rintro ⟨before, message, after, heq, hfirst⟩
    rcases concat_eq_append_cons.mp heq with ⟨rest, rfl, rfl⟩ | ⟨rfl, rfl, rfl⟩
    · exact Or.inl ⟨before, message, rest, rfl, hfirst⟩
    · exact Or.inr ⟨message, rfl, hfirst⟩
  · rintro (⟨before, message, after, rfl, hfirst⟩ | ⟨message, rfl, hfirst⟩)
    · exact ⟨before, message, after ++ [e], by simp, hfirst⟩
    · exact ⟨es, message, [], rfl, hfirst⟩

theorem keepsFirst_concat :
    KeepsFirst (es ++ [e]) ↔ KeepsFirst es ∧ ∀ stream, e = .leave stream → ¬ FirstOn es stream := by
  constructor
  · intro h
    constructor
    · rintro before stream after rfl
      exact h before stream (after ++ [e]) (by simp)
    · rintro stream rfl
      exact h es stream [] rfl
  · rintro ⟨hes, hlast⟩ before stream after heq
    rcases concat_eq_append_cons.mp heq with ⟨rest, rfl, rfl⟩ | ⟨rfl, rfl, rfl⟩
    · exact hes before stream rest rfl
    · exact hlast stream rfl

end

/-- The stored streams are those on which users sent their first messages. -/
structure Heard (es : List Event) (c : State) : Prop where
  known : ∀ u, Wrote es u → ∃ i, c.server.getClient u = some i
  wrote : ∀ (u : Str) (i : Nat), c.server.getClient u = some i → (c.server.streamOf i ≠ none ↔ Wrote es u)
  stored : ∀ stream, (∃ ref, c.server.streamOf ref = some stream) ↔ FirstOn es stream

theorem Heard.of_start (hs : s.Start) : Heard [] s := by
  constructor
  · rintro u ⟨stream, message, hmem, -⟩
    cases hmem
  · intro u i hi
    refine iff_of_false (not_not_intro (hs.streams i)) ?_
    rintro ⟨stream, message, hmem, -⟩
    cases hmem
  · intro stream
    refine iff_of_false ?_ ?_
    · rintro ⟨ref, href⟩
      rw [hs.streams] at href
      cases href
    · rintro ⟨before, message, after, hnil, -⟩
      simp at hnil

/-- A step which stores no stream and reads no message of a user without one. -/
theorem Heard.quiet {es : List Event} (h : Heard es c) (hwf : WellFormed c.server) (hwf' : WellFormed c'.server)
    (ho : Outcome tz c e c') (hstreams : c'.server.streamOf = c.server.streamOf)
    (hread : ∀ stream message, e = .message stream message → Wrote es message.username) : Heard (es ++ [e]) c' := by
  have hwrote (u : Str) : Wrote (es ++ [e]) u ↔ Wrote es u := by
    rw [wrote_concat, or_iff_left_iff_imp]
    rintro ⟨stream, message, he, rfl⟩
    exact hread stream message he
  constructor
  · intro u hu
    obtain ⟨i, hi⟩ := h.known u ((hwrote u).mp hu)
    exact ⟨i, ho.getClient hwf hi⟩
  · intro u i hi
    rw [hstreams, hwrote]
    constructor
    · intro hstream
      obtain ⟨client, hclient⟩ : ∃ client, c.server.heap[i]? = some client := by
        obtain ⟨stream, hstream⟩ := Option.ne_none_iff_exists'.mp hstream
        obtain ⟨client, hclient, -⟩ := Option.bind_eq_some_iff.mp hstream
        exact ⟨client, hclient⟩
      have hname := hwf.getClient_eq_some.mpr ⟨client, hclient, rfl⟩
      rw [hwf'.getClient_inj hi (ho.getClient hwf hname)]
      exact (h.wrote _ i hname).mp hstream
    · intro hu
      obtain ⟨j, hj⟩ := h.known u hu
      obtain rfl : j = i := Option.some.inj ((ho.getClient hwf hj).symm.trans hi)
      exact (h.wrote u j hj).mpr hu
  · intro stream
    rw [hstreams, h.stored, firstOn_concat, iff_self_or]
    rintro ⟨message, he, hfirst⟩
    exact absurd (hread stream message he) hfirst

theorem Heard.step {es : List Event} (h : Heard es c) (hwf : WellFormed c.server) (ho : Outcome tz c e c') :
    Heard (es ++ [e]) c' := by
  have hwf' := ho.wellFormed hwf
  have hquiet := h.quiet hwf hwf' ho
  have hread {message : Message} {i : Nat} {a : Client} (hi : c.server.getClient message.username = some i)
      (ha : c.server.heap[i]? = some a) (hsome : a.stream ≠ none) : Wrote es message.username := by
    rw [← streamOf_eq ha] at hsome
    exact (h.wrote _ i hi).mp hsome
  cases ho with
  | account hm ho => exact hquiet ho.streamOf nofun
  | addPost hi ha hdata => exact hquiet rfl nofun
  | enter => exact hquiet rfl nofun
  | leave hlive => exact hquiet rfl nofun
  | posted hlive hi ha hsome hdata =>
      refine hquiet rfl ?_
      rintro _ _ ⟨⟩
      exact hread hi ha hsome
  | ignored hlive hi ha hsome =>
      refine hquiet rfl ?_
      rintro _ _ ⟨⟩
      exact hread hi ha hsome
  | @joined stream message i a posts hlive hi ha hnone hposts =>
      have hnone' : c.server.streamOf i = none := (streamOf_eq ha).trans hnone
      have hfirst : ¬ Wrote es message.username := fun hu => (h.wrote _ i hi).mpr hu hnone'
      have hwrote (u : Str) : Wrote (es ++ [.message stream message]) u ↔ Wrote es u ∨ message.username = u := by
        rw [wrote_concat]
        exact or_congr_right ⟨fun ⟨_, _, he, hu⟩ => by cases he; exact hu, fun hu => ⟨_, _, rfl, hu⟩⟩
      constructor
      · intro u hu
        rcases (hwrote u).mp hu with hold | rfl
        · obtain ⟨j, hj⟩ := h.known u hold
          exact ⟨j, (getClient_joinOf ha u).trans hj⟩
        · exact ⟨i, (getClient_joinOf ha _).trans hi⟩
      · intro u j hj
        replace hj : c.server.getClient u = some j := (getClient_joinOf ha u).symm.trans hj
        rw [streamOf_joinOf ha, hwrote, Function.update_apply]
        split_ifs with hji
        · subst hji
          exact iff_of_true (Option.some_ne_none _) (Or.inr (hwf.getClient_inj hi hj))
        · rw [h.wrote u j hj, iff_self_or]
          rintro rfl
          exact absurd (Option.some.inj (hj.symm.trans hi)) hji
      · intro stream'
        rw [firstOn_concat, ← h.stored, streamOf_joinOf ha]
        constructor
        · rintro ⟨ref, href⟩
          rw [Function.update_apply] at href
          split_ifs at href with hri
          · cases href
            exact Or.inr ⟨message, rfl, hfirst⟩
          · exact Or.inl ⟨ref, href⟩
        · rintro (⟨ref, href⟩ | ⟨message', he, -⟩)
          · refine ⟨ref, ?_⟩
            rw [Function.update_of_ne]
            · exact href
            · rintro rfl
              rw [hnone'] at href
              cases href
          · cases he
            exact ⟨i, Function.update_self ..⟩

theorem heard_of_run (hs : s.Start) (hrun : (machine tz).Run s tr c) : Heard (tr.map (·.2)) c := by
  induction hrun with
  | nil => exact .of_start hs
  | snoc hrun hstep ih =>
      have hc := wellFormed_of_run hs.wellFormed hrun
      rw [List.map_append]
      exact ih.step hc (step_outcome hc hstep)

theorem keepsFirst_of_run (hs : s.Start) (hrun : (machine tz).Run s tr c) :
    KeepsFirst (tr.map (·.2)) ↔ ∀ x ∈ tr, ¬ ReturnsStored x.1 x.2 := by
  induction hrun with
  | nil =>
      refine iff_of_true ?_ (by simp)
      intro before stream after hnil
      simp at hnil
  | @snoc tr c e c' hrun hstep ih =>
      have hreturns : ReturnsStored c e ↔ ∃ stream, e = .leave stream ∧ FirstOn (tr.map (·.2)) stream := by
        cases e with
        | leave stream =>
            rw [returnsStored_leave, (heard_of_run hs hrun).stored]
            simp
        | _ => simp [ReturnsStored]
      rw [List.map_append, List.map_singleton, keepsFirst_concat, ih, List.forall_mem_append, List.forall_mem_singleton,
        hreturns]
      simp

/-- The stored streams are live exactly after the runs in which no call returns whose stream is stored, that is, on
whose stream the first message of a user was read. -/
theorem stored_streams_live (hs : (machine tz).init s) (hrun : (machine tz).Run s tr c) :
    (Sound tz c ↔ ∀ x ∈ tr, ¬ ReturnsStored x.1 x.2) ∧ (Sound tz c ↔ KeepsFirst (tr.map (·.2))) := by
  have h := Numbered.of_start hs
  have hsound : Sound tz c ↔ ∀ x ∈ tr, ¬ ReturnsStored x.1 x.2 := by
    rw [← storedLive_of_run h (.of_start hs) hrun]
    exact ⟨Sound.stored, sound_of_storedLive (wellFormed_of_run h.wellFormed hrun)⟩
  exact ⟨hsound, hsound.trans (keepsFirst_of_run hs hrun).symm⟩

section

def ann : Str := "ann".toList
def bob : Str := "bob".toList

def loginOf (username : Str) : Event := .request .LOGIN { username }

def followOf (username toFollow : Str) (seconds : Int) : Event :=
  .request .FOLLOW { username, arguments := [toFollow], timestamp := { seconds } }

/-- The client's first message, which is empty. -/
def joinMessage (username : Str) : Message := { username }

def postMessage (username : Str) (seconds : Int) : Message :=
  { username, msg := "hi".toList, timestamp := { seconds } }

/-- A second call of the same user returns, whose stream has not been stored. -/
def secondStream : List Event :=
  [loginOf ann, .enter, .message 0 (joinMessage ann), .enter, .message 1 (joinMessage ann), .leave 1]

theorem startEmpty : ({} : State).Start := ⟨.empty rfl rfl, fun _ => rfl, rfl, rfl, rfl⟩

theorem stored_streams_live_secondStream : ∃ c, secondStream.foldlM (State.step .utc) {} = .ok c ∧
    Sound .utc c ∧ c.server.streamOf 0 = some 0 ∧ c.live = [0] := by
  have hrun : ∃ c, secondStream.foldlM (State.step .utc) {} = .ok c ∧
      c.server.streamOf 0 = some 0 ∧ c.live = [0] :=
    ⟨_, rfl, by decide +kernel, by decide +kernel⟩
  obtain ⟨c, hc, hstored, hlive⟩ := hrun
  refine ⟨c, hc, ?_, hstored, hlive⟩
  apply (stored_streams_live startEmpty (Machine.run_of_foldlM hc)).1.mpr
  decide +kernel

/-- Ann leaves the timeline and enters it again. -/
def leaveAndReenter : List Event :=
  [loginOf ann, loginOf bob, followOf ann bob 1, .enter, .message 0 (joinMessage ann), .leave 0,
    .enter, .message 1 (joinMessage ann)]

/-- Bob's next post is written to the stream whose call has returned, and not to the new one. -/
theorem post_to_left_stream : ∃ c r, (machine .utc).Reachable c ∧ ¬ StoredLive c ∧ c.live = [1] ∧
    c.server.handle .utc .ADD_POST { message := postMessage bob 2 } = .ok r ∧
    newWrites c { c with server := r.1 } = [(0, postMessage bob 2)] ∧
    c.step .utc (.request .ADD_POST { message := postMessage bob 2 }) = .error .danglingPointer := by
  have hrun : ∃ c, leaveAndReenter.foldlM (State.step .utc) {} = .ok c ∧ c.server.streamOf 0 = some 0 ∧ c.live = [1] ∧
      ∃ r, c.server.handle .utc .ADD_POST { message := postMessage bob 2 } = .ok r ∧
        newWrites c { c with server := r.1 } = [(0, postMessage bob 2)] ∧
        c.step .utc (.request .ADD_POST { message := postMessage bob 2 }) = .error .danglingPointer :=
    ⟨_, rfl, by decide +kernel, by decide +kernel, _, rfl, by decide +kernel, by rfl⟩
  obtain ⟨c, hc, hstored, hlive, r, hr, hwrites, hfault⟩ := hrun
  refine ⟨c, r, Machine.reachable_of_foldlM startEmpty hc, ?_, hlive, hr, hwrites, hfault⟩
  intro h
  have := h 0 0 hstored
  simp [hlive] at this

end

end DistributedSns.Server.Streams
