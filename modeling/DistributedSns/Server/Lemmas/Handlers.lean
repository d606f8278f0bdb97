import DistributedSns.Server.Lemmas.WellFormed

/-!
# What the handlers do on a well-formed server
-/

namespace DistributedSns.Server

open SNSServer

variable {s : SNSServer}

/-! ## Pointers and indices -/

theorem client_eq {i : Nat} {c : Client} (hc : s.heap[i]? = some c) : s.client i = .ok c := by
  rw [client, hc, deref]

theorem client_eq_ok_iff {i : Nat} {c : Client} : s.client i = .ok c ↔ s.heap[i]? = some c := by
  rw [client]
  cases s.heap[i]? with
  | none => simp [deref]
  | some d => simp [deref]

/-- On valid pointers comparing names is comparing pointers. -/
theorem WellFormed.indexOf_eq (h : WellFormed s) {l : List Nat} (hl : ∀ k ∈ l, k < s.heap.length) {j : Nat}
    (hj : j < s.heap.length) : s.indexOf l j = l.idxOf? j := by
  rw [indexOf]
  induction l with
  | nil => rfl
  | cons k l ih =>
      have hk : (decide (s.username? k = s.username? j)) = (k == j) := by
        have hk := hl k List.mem_cons_self
        rw [Bool.eq_iff_iff, decide_eq_true_iff, beq_iff_eq]
        constructor
        · intro he
          simp only [username?, List.getElem?_eq_getElem hk, List.getElem?_eq_getElem hj, Option.map_some,
            Option.some.injEq] at he
          exact h.names k j _ _ (List.getElem?_eq_getElem hk) (List.getElem?_eq_getElem hj) he
        · rintro rfl
          rfl
      rw [List.findIdx?_cons, List.idxOf?_cons, hk, ih fun k hk => hl k (List.mem_cons_of_mem _ hk)]

theorem idxOf?_eq (l : List Nat) (j : Nat) : l.idxOf? j = if j ∈ l then some (l.idxOf j) else none := by
  split_ifs with hm
  · induction l with
    | nil => simp at hm
    | cons k l ih =>
        by_cases hk : k = j
        · simp [List.idxOf?_cons, hk]
        · have hm' : j ∈ l := by simpa [Ne.symm hk] using hm
          simp [List.idxOf?_cons, hk, List.idxOf_cons_ne _ hk, ih hm']
  · rw [List.idxOf?_eq_none_iff]
    exact hm

theorem erase_idxOf {α : Type} [DecidableEq α] {l : List α} {a : α} (hm : a ∈ l) :
    SNSServer.erase l (some (l.idxOf a)) = .ok (l.erase a) := by
  rw [SNSServer.erase, if_pos (List.idxOf_lt_length_iff.mpr hm), List.erase_eq_eraseIdx_of_idxOf]
  rfl

/-! ## Follow lists -/

section

variable {i j : Nat} {c d : Client}

/-- Replacing the clients `i` and `j` is a change of all clients by their index. -/
theorem set_set_eq_mapIdx {l : List Client} {f : Nat → Client → Client} (hi : l[i]? = some c)
    (hj : l[j]? = some d) (hf : ∀ k e, k ≠ i → k ≠ j → f k e = e) :
    (l.set i (f i c)).set j (f j d) = l.mapIdx f := by
  apply List.ext_getElem?
  intro k
  have hil := (List.getElem?_eq_some_iff.mp hi).1
  have hjl := (List.getElem?_eq_some_iff.mp hj).1
  rw [List.getElem?_mapIdx]
  by_cases hkj : k = j
  · subst hkj
    rw [List.getElem?_set_self (by simpa using hjl), hj, Option.map_some]
  · rw [List.getElem?_set_ne (Ne.symm hkj)]
    by_cases hki : k = i
    · subst hki
      rw [List.getElem?_set_self hil, hi, Option.map_some]
    · rw [List.getElem?_set_ne (Ne.symm hki)]
      cases l[k]? with
      | none => rfl
      | some e => rw [Option.map_some, hf k e hki hkj]

theorem pushFollow_eq (hne : i ≠ j) (hc : s.heap[i]? = some c) (hd : s.heap[j]? = some d) (t : Timestamp) :
    s.pushFollow i j t = .ok (s.link i j t) := by
  have hi : linkClient i j t i c = { c with
      client_following := c.client_following ++ [j]
      follow_time := c.follow_time ++ [t] } := if_pos rfl
  have hj : linkClient i j t j d = { d with client_followers := d.client_followers ++ [i] } := by
    rw [linkClient, if_neg (Ne.symm hne), if_pos rfl]
  have hset := set_set_eq_mapIdx (f := linkClient i j t) hc hd fun k e hi hj => by
    rw [linkClient, if_neg hi, if_neg hj]
  have hd' : (s.setClient i (linkClient i j t i c)).client j = .ok d := by
    rw [client_eq_ok_iff, setClient, List.getElem?_set_ne hne, hd]
  rw [pushFollow, client_eq hc, ok_bind, ← hi]
  refine bind_eq_ok.mpr ⟨d, hd', ?_⟩
  rw [← hj]
  exact congrArg (fun heap => Except.ok { s with heap }) hset

theorem eraseFollow_eq (h : WellFormed s) (hne : i ≠ j) (hc : s.heap[i]? = some c) (hd : s.heap[j]? = some d)
    (hm : j ∈ c.client_following) :
    s.eraseFollow i j (some (c.client_following.idxOf j)) (some (d.client_followers.idxOf i)) =
      .ok (s.unlink i j) := by
  have hi : unlinkClient i j i c = { c with
      client_following := c.client_following.erase j
      follow_time := c.follow_time.eraseIdx (c.client_following.idxOf j) } := if_pos rfl
  have hj : unlinkClient i j j d = { d with client_followers := d.client_followers.erase i } := by
    rw [unlinkClient, if_neg (Ne.symm hne), if_pos rfl]
  have hset := set_set_eq_mapIdx (f := unlinkClient i j) hc hd fun k e hi hj => by
    rw [unlinkClient, if_neg hi, if_neg hj]
  have hd' : (s.setClient i (unlinkClient i j i c)).client j = .ok d := by
    rw [client_eq_ok_iff, setClient, List.getElem?_set_ne hne, hd]
  have htimes : SNSServer.erase c.follow_time (some (c.client_following.idxOf j)) =
      .ok (c.follow_time.eraseIdx (c.client_following.idxOf j)) := by
    rw [SNSServer.erase, if_pos]
    rw [h.times i c hc]
    exact List.idxOf_lt_length_iff.mpr hm
  rw [eraseFollow, client_eq hc, ok_bind, erase_idxOf hm, ok_bind, htimes, ok_bind, ← hi]
  refine bind_eq_ok.mpr ⟨d, hd', ?_⟩
  rw [erase_idxOf ((h.mirror i j c d hc hd).mp hm), ok_bind, ← hj]
  exact congrArg (fun heap => Except.ok { s with heap }) hset

end

/-! ## Login -/

theorem login_eq (h : WellFormed s) (request : Request) :
    s.login request = .ok (if (s.getClient request.username).isSome then
        (s, { status := .SUCCESS, msg := WELCOME_BACK ++ request.username })
      else
        ((s.addClient request.username).writeUserinfo (userLine request.username),
          { status := .SUCCESS, msg := USER_PREFIX ++ request.username ++ LOGGED_IN })) := by
  rw [login, getClientOrNew]
  cases hu : s.getClient request.username with
  | some i =>
      obtain ⟨c, hc, -⟩ := h.getClient_eq_some.mp hu
      simp only [client_eq hc, ok_bind, h.connected i c hc, ↓reduceIte, Option.isSome_some, pure, Except.pure]
  | none =>
      have hc : ({ s with heap := s.heap ++ [{ username := request.username }] } : SNSServer).client
          s.heap.length = .ok { username := request.username } := by
        rw [client_eq_ok_iff, List.getElem?_concat_length]
      simp only [hc, ok_bind, Option.isSome_none, setClient, addClient, pure, Except.pure]
      simp

/-! ## Follow and UnFollow -/

/-- Requester and target are clients. -/
structure Known (s : SNSServer) (request : Request) (b : Str) (i j : Nat) : Prop where
  argument : request.argument 0 = .ok b
  requester : s.getClient request.username = some i
  target : s.getClient b = some j

section

variable {tz : TimeZone} {request : Request} {b : Str} {i j : Nat} {r : SNSServer × Reply}

theorem Known.arguments (hk : Known s request b i j) : request.arguments[0]? = some b := by
  have hb := hk.argument
  rw [Request.argument] at hb
  cases ha : request.arguments[0]? with
  | none => rw [ha] at hb; cases hb
  | some b' => rw [ha, Except.ok.injEq] at hb; rw [hb]

theorem Known.username (h : WellFormed s) (hk : Known s request b i j) {c : Client} (hc : s.heap[i]? = some c) :
    c.username = request.username := by
  obtain ⟨c', hc', hcu⟩ := h.getClient_eq_some.mp hk.requester
  rw [hc, Option.some.injEq] at hc'
  rw [hc', hcu]

theorem WellFormed.indexOfFollowing_eq (h : WellFormed s) {c : Client} (hc : s.heap[i]? = some c)
    (hj : j < s.heap.length) : s.indexOfFollowing c j =
      if j ∈ c.client_following then some (c.client_following.idxOf j) else none := by
  rw [indexOfFollowing, h.indexOf_eq (h.following i c hc) hj, idxOf?_eq]

theorem deref_eq_ok {α : Type} {o : Option α} {a : α} : deref o = .ok a ↔ o = some a := by
  cases o <;> simp [deref]

/-- The text of the log line dereferences both pointers, so a request with an unknown user never returns. -/
theorem follow_known (hr : s.follow tz request = .ok r) : ∃ b i j, Known s request b i j := by
  obtain ⟨b, hb, hr⟩ := bind_eq_ok.mp hr
  obtain ⟨r', -, hr⟩ := bind_eq_ok.mp hr
  obtain ⟨i, hi, hr⟩ := bind_eq_ok.mp hr
  obtain ⟨j, hj, hr⟩ := bind_eq_ok.mp hr
  exact ⟨b, i, j, hb, deref_eq_ok.mp hi, deref_eq_ok.mp hj⟩

theorem unfollow_known (hr : s.unfollow request = .ok r) : ∃ b i j, Known s request b i j := by
  obtain ⟨b, hb, hr⟩ := bind_eq_ok.mp hr
  obtain ⟨r', -, hr⟩ := bind_eq_ok.mp hr
  obtain ⟨i, hi, hr⟩ := bind_eq_ok.mp hr
  obtain ⟨j, hj, hr⟩ := bind_eq_ok.mp hr
  exact ⟨b, i, j, hb, deref_eq_ok.mp hi, deref_eq_ok.mp hj⟩

theorem WellFormed.follow_eq (h : WellFormed s) (hk : Known s request b i j) {c : Client}
    (hc : s.heap[i]? = some c) :
    s.follow tz request =
      if i = j then .ok (s, { status := .FAILURE_INVALID, msg := FOLLOW_YOURSELF })
      else if j ∈ c.client_following then .ok (s, { status := .FAILURE_ALREADY_EXISTS, msg := ALREADY_FOLLOW })
      else do
        let timeStr ← timestampToStr tz request.timestamp
        return ((s.link i j request.timestamp).writeUserinfo (followLine request.username b timeStr),
          { status := .SUCCESS, msg := FOLLOWED ++ b }) := by
  obtain ⟨d, hd, hdb⟩ := h.getClient_eq_some.mp hk.target
  have hcu := hk.username h hc
  have hidx := h.indexOfFollowing_eq hc (lt_of_getElem? hd)
  simp only [follow, followTarget, hk.argument, hk.requester, hk.target, ok_bind, deref, Option.some.injEq]
  by_cases hne : i = j
  · simp only [hne, ↓reduceIte]
    rfl
  · simp only [hne, ↓reduceIte, followClient, client_eq hc, client_eq hd, ok_bind, hidx]
    by_cases hm : j ∈ c.client_following
    · simp only [hm, ↓reduceIte]
      rfl
    · simp only [hm, ↓reduceIte, pushFollow_eq hne hc hd, ok_bind, hcu, hdb]
      cases timestampToStr tz request.timestamp <;> rfl

theorem WellFormed.unfollow_eq (h : WellFormed s) (hk : Known s request b i j) {c : Client}
    (hc : s.heap[i]? = some c) :
    s.unfollow request = .ok (
      if i = j then (s, { status := .FAILURE_INVALID, msg := UNFOLLOW_YOURSELF })
      else if j ∈ c.client_following then
        ((s.unlink i j).writeUserinfo (unfollowLine request.username b),
          { status := .SUCCESS, msg := UNFOLLOWED ++ b })
      else (s, { status := .FAILURE_NOT_A_FOLLOWER, msg := NOT_A_FOLLOWER })) := by
  obtain ⟨d, hd, hdb⟩ := h.getClient_eq_some.mp hk.target
  have hcu := hk.username h hc
  have hidx := h.indexOfFollowing_eq hc (lt_of_getElem? hd)
  simp only [unfollow, unfollowTarget, hk.argument, hk.requester, hk.target, ok_bind, deref, Option.some.injEq]
  by_cases hne : i = j
  · simp only [hne, ↓reduceIte]
    rfl
  · simp only [hne, ↓reduceIte, unfollowClient, client_eq hc, client_eq hd, ok_bind, hidx]
    by_cases hm : j ∈ c.client_following
    · have hidx2 : s.indexOfFollower d i = some (d.client_followers.idxOf i) := by
        rw [indexOfFollower, h.indexOf_eq (h.followers j d hd) (lt_of_getElem? hc), idxOf?_eq,
          if_pos ((h.mirror i j c d hc hd).mp hm)]
      simp only [hm, ↓reduceIte, hidx2, eraseFollow_eq h hne hc hd hm, ok_bind, hcu, hdb]
      rfl
    · simp only [hm, ↓reduceIte]
      rfl

end

/-! ## Posts -/

/-- The stream of a client. -/
def SNSServer.streamOf (s : SNSServer) (ref : Nat) : Option StreamId := (s.heap[ref]?).bind (·.stream)

/-- The message is written once for every client in the list which has a stream. -/
theorem writeToFollowers_eq {message : Message} {l : List Nat} {s' : SNSServer}
    (hr : writeToFollowers message s l = .ok s') :
    s' = { s with written := s.written ++ (l.filterMap s.streamOf).map (·, message) } := by
  induction l generalizing s with
  | nil =>
      cases hr
      simp
  | cons follower l ih =>
      obtain ⟨c, hc, hr⟩ := bind_eq_ok.mp hr
      have hstreamOf : s.streamOf follower = c.stream := by
        rw [streamOf, client_eq_ok_iff.mp hc, Option.bind_some]
      cases hstream : c.stream with
      | none =>
          rw [hstream] at hr hstreamOf
          rw [ih hr, List.filterMap_cons_none hstreamOf]
      | some stream =>
          rw [hstream] at hr hstreamOf
          have hother : (s.writeStream stream message).streamOf = s.streamOf := rfl
          rw [ih hr, hother, List.filterMap_cons_some hstreamOf]
          simp [writeStream]

/-- A post is appended to the list and to the file, and written to the streams of the author's followers; the
clients stay as they are. -/
theorem addPostHelper_writes {tz : TimeZone} {message : Message} {client : Option Nat} {save : Bool}
    {s' : SNSServer} (hr : s.addPostHelper tz message client save = .ok s') :
    ∃ i c data, client = some i ∧ s.heap[i]? = some c ∧ formatMessageOutput tz message = .ok data ∧
      s' = { s with
        all_posts := s.all_posts ++ [.ofMessage message]
        posts := if save then s.posts ++ data else s.posts
        written := s.written ++ (c.client_followers.filterMap s.streamOf).map (·, message) } := by
  obtain ⟨data, hdata, hr⟩ := bind_eq_ok.mp hr
  obtain ⟨i, hi, hr⟩ := bind_eq_ok.mp hr
  obtain ⟨c, hc, hr⟩ := bind_eq_ok.mp hr
  refine ⟨i, c, data, deref_eq_ok.mp hi, ?_, hdata, ?_⟩
  · cases save <;> exact client_eq_ok_iff.mp hc
  · rw [writeToFollowers_eq hr]
    cases save <;> rfl

theorem addPostHelper_eq {tz : TimeZone} {message : Message} {client : Option Nat} {save : Bool} {s' : SNSServer}
    (hr : s.addPostHelper tz message client save = .ok s') :
    ∃ i data w, client = some i ∧ formatMessageOutput tz message = .ok data ∧
      s' = { s with
        all_posts := s.all_posts ++ [.ofMessage message]
        posts := if save then s.posts ++ data else s.posts
        written := w } := by
  obtain ⟨i, c, data, hi, -, hdata, hs'⟩ := addPostHelper_writes hr
  exact ⟨i, data, _, hi, hdata, hs'⟩

theorem writeToFollowers_total (message : Message) {l : List Nat} (hl : ∀ k ∈ l, k < s.heap.length) :
    ∃ s', writeToFollowers message s l = .ok s' := by
  induction l generalizing s with
  | nil => exact ⟨s, rfl⟩
  | cons follower l ih =>
      obtain ⟨c, hc⟩ : ∃ c, s.heap[follower]? = some c :=
        ⟨_, List.getElem?_eq_getElem (hl follower List.mem_cons_self)⟩
      have hl' : ∀ k ∈ l, k < s.heap.length := fun k hk => hl k (List.mem_cons_of_mem _ hk)
      rw [writeToFollowers, client_eq hc, ok_bind]
      cases c.stream with
      | none => exact ih hl'
      | some stream => exact ih (s := s.writeStream stream message) hl'

theorem exists_of_getClient {u : Str} {i : Nat} (hi : s.getClient u = some i) :
    ∃ c, s.heap[i]? = some c ∧ c.username = u := by
  have hu := List.find?_some hi
  rwa [decide_eq_true_iff, username?, Option.map_eq_some_iff] at hu

theorem addPostHelper_total (hf : FollowersValid s) {tz : TimeZone} {message : Message} {u data : Str}
    {i : Nat} (hi : s.getClient u = some i) (hdata : formatMessageOutput tz message = .ok data) (save : Bool) :
    ∃ s', s.addPostHelper tz message (some i) save = .ok s' := by
  obtain ⟨c, hc, -⟩ := exists_of_getClient hi
  have htotal (posts : Str) := writeToFollowers_total message
    (s := { s with all_posts := s.all_posts ++ [.ofMessage message], posts }) (hf i c hc)
  cases save with
  | false =>
      obtain ⟨s', hs'⟩ := htotal s.posts
      exact ⟨s', bind_eq_ok.mpr ⟨data, hdata, bind_eq_ok.mpr ⟨i, rfl, bind_eq_ok.mpr ⟨c, client_eq hc, hs'⟩⟩⟩⟩
  | true =>
      obtain ⟨s', hs'⟩ := htotal (s.posts ++ data)
      exact ⟨s', bind_eq_ok.mpr ⟨data, hdata, bind_eq_ok.mpr ⟨i, rfl, bind_eq_ok.mpr ⟨c, client_eq hc, hs'⟩⟩⟩⟩

/-- A message which `Timeline` propagates is a non-empty post that a master has appended. -/
theorem timeline_posted {tz : TimeZone} {stream : StreamId} {message m : Message} {s' : SNSServer}
    (hr : s.timeline tz stream message = .ok (s', some m)) :
    m = message ∧ s.master = true ∧ message.msg ≠ [] ∧
      ∃ i data w, s.getClient message.username = some i ∧ formatMessageOutput tz message = .ok data ∧
        s' = { s with
          all_posts := s.all_posts ++ [.ofMessage message]
          posts := s.posts ++ data
          written := w } := by
  obtain ⟨i, hi, hr⟩ := bind_eq_ok.mp hr
  obtain ⟨c, -, hr⟩ := bind_eq_ok.mp hr
  cases hstream : c.stream with
  | none =>
      simp only [hstream] at hr
      obtain ⟨j, -, hr⟩ := bind_eq_ok.mp hr
      obtain ⟨posts, -, hr⟩ := bind_eq_ok.mp hr
      cases hr
  | some st =>
      simp only [hstream] at hr
      split_ifs at hr with hmsg
      · obtain ⟨s₁, hs₁, hr⟩ := bind_eq_ok.mp hr
        obtain ⟨i', data, w, hi', hdata, rfl⟩ := addPostHelper_eq hs₁
        cases hm : s.master with
        | false => simp [hm, pure, Except.pure] at hr
        | true =>
            simp only [hm, ↓reduceIte, pure, Except.pure, Except.ok.injEq, Prod.mk.injEq,
              Option.some.injEq] at hr
            obtain ⟨rfl, rfl⟩ := hr
            exact ⟨rfl, rfl, hmsg, i', data, w, hi', hdata, rfl⟩
      · cases hr

/-! ## What no handler touches -/

/-- The identity and the role of a server change with the replies of the coordinator only. -/
structure SameProcess (s s' : SNSServer) : Prop where
  serverInfo : s'.serverInfo = s.serverInfo
  master : s'.master = s.master

section

variable {s' : SNSServer} {request : Request} {tz : TimeZone} {reply : Reply}

theorem SameProcess.refl (s : SNSServer) : SameProcess s s := ⟨rfl, rfl⟩

theorem login_sameProcess (hr : s.login request = .ok (s', reply)) : SameProcess s s' := by
  rw [login] at hr
  cases hu : s.getClient request.username with
  | some i =>
      simp only [getClientOrNew, hu] at hr
      obtain ⟨c, -, hr⟩ := bind_eq_ok.mp hr
      split_ifs at hr <;> cases hr <;> exact ⟨rfl, rfl⟩
  | none =>
      simp only [getClientOrNew, hu] at hr
      obtain ⟨c, -, hr⟩ := bind_eq_ok.mp hr
      split_ifs at hr <;> cases hr <;> exact ⟨rfl, rfl⟩

theorem pushFollow_sameProcess {i j : Nat} {t : Timestamp} (hr : s.pushFollow i j t = .ok s') :
    SameProcess s s' := by
  obtain ⟨c, -, hr⟩ := bind_eq_ok.mp hr
  obtain ⟨d, -, hr⟩ := bind_eq_ok.mp hr
  cases hr
  exact ⟨rfl, rfl⟩

theorem eraseFollow_sameProcess {i j : Nat} {k l : Option Nat} (hr : s.eraseFollow i j k l = .ok s') :
    SameProcess s s' := by
  obtain ⟨c, -, hr⟩ := bind_eq_ok.mp hr
  obtain ⟨following, -, hr⟩ := bind_eq_ok.mp hr
  obtain ⟨times, -, hr⟩ := bind_eq_ok.mp hr
  obtain ⟨d, -, hr⟩ := bind_eq_ok.mp hr
  obtain ⟨followers, -, hr⟩ := bind_eq_ok.mp hr
  cases hr
  exact ⟨rfl, rfl⟩

theorem followClient_sameProcess {i j : Nat} {t : Timestamp} (hr : s.followClient tz i j t = .ok (s', reply)) :
    SameProcess s s' := by
  obtain ⟨c, -, hr⟩ := bind_eq_ok.mp hr
  obtain ⟨d, -, hr⟩ := bind_eq_ok.mp hr
  cases hidx : s.indexOfFollowing c j with
  | some k =>
      rw [hidx] at hr
      cases hr
      exact .refl s
  | none =>
      rw [hidx] at hr
      obtain ⟨s₁, hs₁, hr⟩ := bind_eq_ok.mp hr
      obtain ⟨text, -, hr⟩ := bind_eq_ok.mp hr
      cases hr
      exact ⟨(pushFollow_sameProcess hs₁).serverInfo, (pushFollow_sameProcess hs₁).master⟩

theorem unfollowClient_sameProcess {i j : Nat} (hr : s.unfollowClient i j = .ok (s', reply)) :
    SameProcess s s' := by
  obtain ⟨c, -, hr⟩ := bind_eq_ok.mp hr
  obtain ⟨d, -, hr⟩ := bind_eq_ok.mp hr
  cases hidx : s.indexOfFollowing c j with
  | none =>
      rw [hidx] at hr
      cases hr
      exact .refl s
  | some k =>
      rw [hidx] at hr
      obtain ⟨s₁, hs₁, hr⟩ := bind_eq_ok.mp hr
      cases hr
      exact ⟨(eraseFollow_sameProcess hs₁).serverInfo, (eraseFollow_sameProcess hs₁).master⟩

theorem follow_sameProcess (hr : s.follow tz request = .ok (s', reply)) : SameProcess s s' := by
  obtain ⟨b, i, j, hk⟩ := follow_known hr
  simp only [follow, followTarget, hk.argument, hk.requester, hk.target, ok_bind, deref] at hr
  obtain ⟨r, hr', hr⟩ := bind_eq_ok.mp hr
  cases hr
  split_ifs at hr'
  · cases hr'
    exact .refl s
  · exact followClient_sameProcess hr'

theorem unfollow_sameProcess (hr : s.unfollow request = .ok (s', reply)) : SameProcess s s' := by
  obtain ⟨b, i, j, hk⟩ := unfollow_known hr
  simp only [unfollow, unfollowTarget, hk.argument, hk.requester, hk.target, ok_bind, deref] at hr
  obtain ⟨r, hr', hr⟩ := bind_eq_ok.mp hr
  cases hr
  split_ifs at hr'
  · cases hr'
    exact .refl s
  · exact unfollowClient_sameProcess hr'

theorem handle_sameProcess {method : Method} (hr : s.handle tz method request = .ok (s', reply)) :
    SameProcess s s' := by
  cases method with
  | LOGIN => exact login_sameProcess hr
  | FOLLOW => exact follow_sameProcess hr
  | UNFOLLOW => exact unfollow_sameProcess hr
  | ADD_POST =>
      obtain ⟨s₁, hs₁, hr⟩ := bind_eq_ok.mp hr
      obtain ⟨i, data, w, -, -, rfl⟩ := addPostHelper_eq hs₁
      cases hr
      exact ⟨rfl, rfl⟩

end

end DistributedSns.Server
