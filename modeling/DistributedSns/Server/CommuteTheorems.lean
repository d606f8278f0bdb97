import DistributedSns.Server.Accounts
import DistributedSns.Server.Theorems

/-!
# Requests of different users commute

A handler which returns has made the change which the accounts decide on. What they decide depends on the account of
the requester alone, which other users do not change, and the changes of two users commute.
-/

namespace DistributedSns.Server

open SNSServer
open Accounts (Decision)

variable {s s' : SNSServer} {k : Accounts} {tz : TimeZone} {method : Method} {request : Request} {reply : Reply}
  {e e' : Method × Request} {d d' : Decision} {c c' : Change}

/-! ## Changes of different users -/

/-- The user whose request makes the change. -/
def Change.owner : Change → Option Str
  | .keep => none
  | .add u => some u
  | .link a _ _ => some a
  | .unlink a _ => some a

/-- New users are new, and the users of an edge exist. -/
def Change.Fits (k : Accounts) : Change → Prop
  | .keep => True
  | .add u => k.account u = none
  | .link a b _ => k.account a ≠ none ∧ k.account b ≠ none
  | .unlink a b => k.account a ≠ none ∧ k.account b ≠ none

/-- What requests of user `u` depend on. -/
theorem onAccount_following {u : Str} (h : c.owner ≠ some u) (o : Option Account) :
    (c.onAccount u o).map (·.following) = o.map (·.following) := by
  cases c with
  | keep => rfl
  | add v =>
      have hv : u ≠ v := fun hv => h (congrArg some hv.symm)
      simp [Change.onAccount, hv]
  | link a b t =>
      have ha : u ≠ a := fun ha => h (congrArg some ha.symm)
      cases o <;> simp [Change.onAccount, ha]
  | unlink a b =>
      have ha : u ≠ a := fun ha => h (congrArg some ha.symm)
      cases o <;> simp [Change.onAccount, ha]

theorem decide_apply (h : c.owner ≠ some e.2.username) : (k.apply c).decide tz e = k.decide tz e := by
  have hfollowing := onAccount_following h (k.account e.2.username)
  have huser : (k.apply c).hasUser e.2.username = k.hasUser e.2.username := by
    have hsome := congrArg Option.isSome hfollowing
    simpa [Accounts.hasUser, Accounts.apply] using hsome
  have hfollows (b : Str) : (k.apply c).follows e.2.username b = k.follows e.2.username b := by
    have hany := congrArg (Option.any fun l => l.contains b) hfollowing
    simpa [Accounts.follows, Accounts.apply, Option.any_map, Function.comp_def] using hany
  obtain ⟨method, request⟩ := e
  cases method with
  | LOGIN => simp only [Accounts.decide, Accounts.login, huser]
  | FOLLOW => simp only [Accounts.decide, Accounts.follow, hfollows]
  | UNFOLLOW => simp only [Accounts.decide, Accounts.unfollow, hfollows]
  | ADD_POST => rfl

section

variable {u : Str} {o : Option Account}

/-- A user who comes is not one of those whom the other request names. -/
theorem onAccount_add {v : Str} (hc : c.Fits k) (hv : k.account v = none) (hne : c.owner ≠ some v) :
    c.onAccount u (Change.onAccount u (.add v) (k.account u)) =
      Change.onAccount u (.add v) (c.onAccount u (k.account u)) := by
  by_cases huv : u = v
  · subst huv
    cases c with
    | keep => rfl
    | add w =>
        have hw : u ≠ w := fun hw => hne (congrArg some hw.symm)
        simp [Change.onAccount, hw]
    | link a b t =>
        have ha : u ≠ a := fun ha => hc.1 (ha ▸ hv)
        have hb : u ≠ b := fun hb => hc.2 (hb ▸ hv)
        simp [Change.onAccount, ha, hb]
    | unlink a b =>
        have ha : u ≠ a := fun ha => hc.1 (ha ▸ hv)
        have hb : u ≠ b := fun hb => hc.2 (hb ▸ hv)
        simp [Change.onAccount, ha, hb]
  · simp [Change.onAccount, huv]

variable {a a' b b' : Str} {t t' : Timestamp}

theorem onAccount_link_link (hne : a ≠ a') :
    Change.onAccount u (.link a' b' t') (Change.onAccount u (.link a b t) o) =
      Change.onAccount u (.link a b t) (Change.onAccount u (.link a' b' t') o) := by
  cases o with
  | none => rfl
  | some x =>
      simp only [Change.onAccount, Option.map_some, Option.some.injEq]
      ext1
      · rfl
      · rfl
      · grind
      · grind
      · split_ifs <;> simp [Multiset.cons_swap]

theorem onAccount_link_unlink (hne : a ≠ a') :
    Change.onAccount u (.unlink a' b') (Change.onAccount u (.link a b t) o) =
      Change.onAccount u (.link a b t) (Change.onAccount u (.unlink a' b') o) := by
  cases o with
  | none => rfl
  | some x =>
      simp only [Change.onAccount, Option.map_some, Option.some.injEq]
      ext1
      · rfl
      · rfl
      · grind
      · grind
      · split_ifs <;> simp [Multiset.erase_cons_tail _ hne]

theorem onAccount_unlink_unlink (hne : a ≠ a') :
    Change.onAccount u (.unlink a' b') (Change.onAccount u (.unlink a b) o) =
      Change.onAccount u (.unlink a b) (Change.onAccount u (.unlink a' b') o) := by
  cases o with
  | none => rfl
  | some x =>
      simp only [Change.onAccount, Option.map_some, Option.some.injEq]
      ext1
      · rfl
      · rfl
      · grind
      · grind
      · split_ifs <;> simp [Multiset.erase_comm]

theorem onAccount_comm (hc : c.Fits k) (hc' : c'.Fits k) (hne : ∀ v, c.owner = some v → c'.owner ≠ some v) :
    c'.onAccount u (c.onAccount u (k.account u)) = c.onAccount u (c'.onAccount u (k.account u)) := by
  cases c with
  | keep => rfl
  | add v => exact onAccount_add hc' hc (hne v rfl)
  | link a b t =>
      cases c' with
      | keep => rfl
      | add v => exact (onAccount_add hc hc' fun ha => hne v ha rfl).symm
      | link a' b' t' => exact onAccount_link_link fun ha => hne a rfl (congrArg some ha.symm)
      | unlink a' b' => exact onAccount_link_unlink fun ha => hne a rfl (congrArg some ha.symm)
  | unlink a b =>
      cases c' with
      | keep => rfl
      | add v => exact (onAccount_add hc hc' fun ha => hne v ha rfl).symm
      | link a' b' t' => exact (onAccount_link_unlink fun ha => hne a rfl (congrArg some ha)).symm
      | unlink a' b' => exact onAccount_unlink_unlink fun ha => hne a rfl (congrArg some ha.symm)

end

theorem apply_comm (hc : c.Fits k) (hc' : c'.Fits k) (hne : ∀ v, c.owner = some v → c'.owner ≠ some v) :
    (k.apply c).apply c' = (k.apply c').apply c := by
  ext1
  · cases c <;> cases c' <;> simp [Accounts.apply, Multiset.cons_swap]
  · funext u
    exact onAccount_comm hc hc' hne

/-! ## Handlers refine decisions -/

/-- The server after a decision. -/
structure Applied (s : SNSServer) (d : Decision) (s' : SNSServer) : Prop where
  accounts : s'.accounts = s.accounts.apply d.change
  rest : s'.rest = s.rest
  userinfo : s'.userinfo = s.userinfo ++ d.text

theorem Applied.keep (s : SNSServer) (status : SNSStatus) : Applied s { status } s := by
  refine ⟨rfl, rfl, ?_⟩
  rw [List.append_nil]

theorem decide_follow {b : Str} (hb : request.argument 0 = .ok b) :
    k.decide tz (.FOLLOW, request) = k.follow tz request b := by
  rw [Accounts.decide, hb]
  rfl

theorem decide_unfollow {b : Str} (hb : request.argument 0 = .ok b) :
    k.decide tz (.UNFOLLOW, request) = .ok (k.unfollow request b) := by
  rw [Accounts.decide, hb]
  rfl

theorem follows_accounts (h : WellFormed s) {b : Str} {i j : Nat} (hk : Known s request b i j) {x : Client}
    (hx : s.heap[i]? = some x) : s.accounts.follows request.username b = decide (j ∈ x.client_following) := by
  rw [Accounts.follows, account_of_getClient hk.requester hx, Option.any_some, accountOf, Bool.eq_iff_iff,
    List.contains_iff_mem, h.mem_names hk.target, decide_eq_true_iff]

/-- A handler which returns has made the change which the accounts decide on. -/
theorem decide_of_handle (h : WellFormed s) (hm : method ≠ .ADD_POST)
    (hr : s.handle tz method request = .ok (s', reply)) :
    ∃ d, s.accounts.decide tz (method, request) = .ok d ∧ d.status = reply.status ∧ Applied s d s' := by
  have ho := handle_outcome h hr
  generalize reply.status = status at ho
  cases ho with
  | loginKnown hi =>
      refine ⟨{}, ?_, rfl, .keep s .SUCCESS⟩
      rw [Accounts.decide, Accounts.login, h.hasUser_accounts, hasUser, hi]
      rfl
  | loginNew hnew =>
      refine ⟨{ change := .add request.username, text := userLine request.username }, ?_, rfl, ?_, rfl, rfl⟩
      · rw [Accounts.decide, Accounts.login, h.hasUser_accounts, hasUser, hnew]
        rfl
      · rw [← accounts_addClient h hnew]
        exact accounts_congr rfl rfl
  | @followSelf b i hk =>
      refine ⟨{ status := .FAILURE_INVALID }, ?_, rfl, .keep s _⟩
      rw [decide_follow hk.argument, Accounts.follow, if_pos ((hk.username_eq_iff h).mpr rfl)]
  | @followAgain b i j x hk hne hx hx' =>
      refine ⟨{ status := .FAILURE_ALREADY_EXISTS }, ?_, rfl, .keep s _⟩
      rw [decide_follow hk.argument, Accounts.follow, if_neg (mt (hk.username_eq_iff h).mp hne),
        follows_accounts h hk hx, if_pos (decide_eq_true hx')]
  | @followNew b text i j x hk hne hx hx' htext =>
      refine ⟨{
        change := .link request.username b request.timestamp
        text := followLine request.username b text }, ?_, rfl, ?_, rfl, rfl⟩
      · rw [decide_follow hk.argument, Accounts.follow, if_neg (mt (hk.username_eq_iff h).mp hne),
          follows_accounts h hk hx, if_neg (by simpa using hx'), htext]
        rfl
      · rw [← accounts_link h hk.requester hk.target hne]
        exact accounts_congr rfl rfl
  | @unfollowSelf b i hk =>
      refine ⟨{ status := .FAILURE_INVALID }, ?_, rfl, .keep s _⟩
      rw [decide_unfollow hk.argument, Accounts.unfollow, if_pos ((hk.username_eq_iff h).mpr rfl)]
  | @unfollowNone b i j x hk hne hx hx' =>
      refine ⟨{ status := .FAILURE_NOT_A_FOLLOWER }, ?_, rfl, .keep s _⟩
      rw [decide_unfollow hk.argument, Accounts.unfollow, if_neg (mt (hk.username_eq_iff h).mp hne),
        follows_accounts h hk hx, if_neg (by simpa using hx')]
  | @unfollow b i j x hk hne hx hx' =>
      refine ⟨{
        change := .unlink request.username b
        text := unfollowLine request.username b }, ?_, rfl, ?_, rfl, rfl⟩
      · rw [decide_unfollow hk.argument, Accounts.unfollow, if_neg (mt (hk.username_eq_iff h).mp hne),
          follows_accounts h hk hx, if_pos (decide_eq_true hx')]
      · rw [← accounts_unlink h hk.requester hk.target hne]
        exact accounts_congr rfl rfl
  | post hi hdata => exact absurd rfl hm

/-- A handler returns if the accounts decide. -/
theorem handle_of_decide (h : WellFormed s) (hm : method ≠ .ADD_POST)
    (hn : namesUsers s.graph (method, request) = true) (hd : s.accounts.decide tz (method, request) = .ok d) :
    ∃ s' reply, s.handle tz method request = .ok (s', reply) := by
  cases method with
  | LOGIN => exact ⟨_, _, login_eq h request⟩
  | FOLLOW =>
      obtain ⟨b, i, j, hk⟩ := (namesUsers_iff_known (.inl rfl)).mp hn
      obtain ⟨x, hx, -⟩ := h.getClient_eq_some.mp hk.requester
      rw [decide_follow hk.argument, Accounts.follow, follows_accounts h hk hx] at hd
      simp only [hk.username_eq_iff h, decide_eq_true_eq] at hd
      rw [SNSServer.handle, h.follow_eq hk hx]
      split_ifs at hd ⊢
      · exact ⟨_, _, rfl⟩
      · exact ⟨_, _, rfl⟩
      · obtain ⟨text, htext, -⟩ := bind_eq_ok.mp hd
        rw [htext]
        exact ⟨_, _, rfl⟩
  | UNFOLLOW =>
      obtain ⟨b, i, j, hk⟩ := (namesUsers_iff_known (.inr rfl)).mp hn
      obtain ⟨x, hx, -⟩ := h.getClient_eq_some.mp hk.requester
      exact ⟨_, _, h.unfollow_eq hk hx⟩
  | ADD_POST => exact absurd rfl hm

/-! ## What a decision changes -/

theorem change_of_decide (hd : k.decide tz e = .ok d) : d.change = .keep ∨
    (d.change = .add e.2.username ∧ k.account e.2.username = none) ∨
    ((e.1 = .FOLLOW ∨ e.1 = .UNFOLLOW) ∧ ∃ b, e.2.argument 0 = .ok b ∧
      (d.change = .link e.2.username b e.2.timestamp ∨ d.change = .unlink e.2.username b)) := by
  obtain ⟨method, request⟩ := e
  cases method with
  | LOGIN =>
      rw [Accounts.decide, Accounts.login] at hd
      split_ifs at hd with hu
      · cases hd
        exact .inl rfl
      · cases hd
        exact .inr (.inl ⟨rfl, by simpa [Accounts.hasUser] using hu⟩)
  | FOLLOW =>
      obtain ⟨b, hb, hd⟩ := bind_eq_ok.mp hd
      rw [Accounts.follow] at hd
      split_ifs at hd
      · cases hd
        exact .inl rfl
      · cases hd
        exact .inl rfl
      · obtain ⟨text, -, hd⟩ := bind_eq_ok.mp hd
        cases hd
        exact .inr (.inr ⟨.inl rfl, b, hb, .inl rfl⟩)
  | UNFOLLOW =>
      obtain ⟨b, hb, hd⟩ := bind_eq_ok.mp hd
      rw [Accounts.unfollow] at hd
      split_ifs at hd
      · cases hd
        exact .inl rfl
      · cases hd
        exact .inr (.inr ⟨.inr rfl, b, hb, .inr rfl⟩)
      · cases hd
        exact .inl rfl
  | ADD_POST =>
      cases hd
      exact .inl rfl

theorem owner_of_decide (hd : k.decide tz e = .ok d) {u : Str} (hu : d.change.owner = some u) : u = e.2.username := by
  rcases change_of_decide hd with hc | ⟨hc, -⟩ | ⟨-, b, -, hc | hc⟩
  · rw [hc] at hu
    cases hu
  all_goals
    rw [hc] at hu
    exact (Option.some.inj hu).symm

theorem account_ne_none (h : WellFormed s) {u : Str} {i : Nat} (hi : s.getClient u = some i) :
    s.accounts.account u ≠ none := by
  obtain ⟨x, hx, -⟩ := h.getClient_eq_some.mp hi
  rw [account_of_getClient hi hx]
  exact Option.some_ne_none _

theorem fits_of_decide (h : WellFormed s) (hn : namesUsers s.graph e = true)
    (hd : s.accounts.decide tz e = .ok d) : d.change.Fits s.accounts := by
  rcases change_of_decide hd with hc | ⟨hc, hnew⟩ | ⟨hm, b, hb, hc⟩
  · rw [hc]
    trivial
  · rw [hc]
    exact hnew
  · obtain ⟨b', i, j, hk⟩ := (namesUsers_iff_known hm).mp hn
    obtain rfl : b' = b := Except.ok.inj (hk.argument.symm.trans hb)
    have husers := And.intro (account_ne_none h hk.requester) (account_ne_none h hk.target)
    rcases hc with hc | hc
    · rw [hc]
      exact husers
    · rw [hc]
      exact husers

/-! ## Two requests -/

/-- Both requests, one after the other, with the status of each. -/
def SNSServer.handleBoth (s : SNSServer) (tz : TimeZone) (e e' : Method × Request) :
    Except Fault (SNSServer × SNSStatus × SNSStatus) := do
  let r ← s.handle tz e.1 e.2
  let r' ← r.1.handle tz e'.1 e'.2
  return (r'.1, r.2.status, r'.2.status)

/-- Two servers reached from `s` differ in the order of `client_db`, of the lists of followers and of what has been
written to the userinfo file only. -/
structure SameUpToOrder (s s₁ s₂ : SNSServer) : Prop where
  accounts : s₂.accounts = s₁.accounts
  rest : s₂.rest = s₁.rest
  userinfo : ∃ x y, s₁.userinfo = s.userinfo ++ (x ++ y) ∧ s₂.userinfo = s.userinfo ++ (y ++ x)

/-- If both requests are answered, then also in the other order, with the same statuses. -/
def Commute (tz : TimeZone) (s : SNSServer) (e e' : Method × Request) : Prop :=
  ∀ s₁ status status', s.handleBoth tz e e' = .ok (s₁, status, status') →
    ∃ s₂, s.handleBoth tz e' e = .ok (s₂, status', status) ∧ SameUpToOrder s s₁ s₂

theorem namesUsers_update {g : Graph} (hn : namesUsers g e' = true) : namesUsers (Lib.update write g e) e' = true := by
  have huser (u : Str) (hu : g (.user u) = true) : Lib.update write g e (.user u) = true := update_user.mpr (.inl hu)
  obtain ⟨method, request⟩ := e'
  cases method with
  | LOGIN => rfl
  | FOLLOW =>
      simp only [namesUsers, Bool.and_eq_true, Option.any_eq_true] at hn ⊢
      obtain ⟨hu, b, hb, hb'⟩ := hn
      exact ⟨huser _ hu, b, hb, huser b hb'⟩
  | UNFOLLOW =>
      simp only [namesUsers, Bool.and_eq_true, Option.any_eq_true] at hn ⊢
      obtain ⟨hu, b, hb, hb'⟩ := hn
      exact ⟨huser _ hu, b, hb, huser b hb'⟩
  | ADD_POST => exact huser _ hn

/-- Both handlers return if the accounts decide on both requests as they are before the first one. -/
theorem handleBoth_of_decide (h : WellFormed s) (hm : e.1 ≠ .ADD_POST) (hm' : e'.1 ≠ .ADD_POST)
    (hn : namesUsers s.graph e = true) (hn' : namesUsers s.graph e' = true)
    (hu : e.2.username ≠ e'.2.username) (hd : s.accounts.decide tz e = .ok d)
    (hd' : s.accounts.decide tz e' = .ok d') :
    ∃ s₁, s.handleBoth tz e e' = .ok (s₁, d.status, d'.status) ∧
      s₁.accounts = (s.accounts.apply d.change).apply d'.change ∧ s₁.rest = s.rest ∧
      s₁.userinfo = s.userinfo ++ (d.text ++ d'.text) := by
  obtain ⟨s', reply, hr⟩ := handle_of_decide h hm hn hd
  obtain ⟨d₁, hd₁, hstatus, happ⟩ := decide_of_handle h hm hr
  obtain rfl : d₁ = d := Except.ok.inj (hd₁.symm.trans hd)
  have hwf := (handle_outcome h hr).wellFormed h
  have hkeep : s'.accounts.decide tz e' = .ok d' := by
    rw [happ.accounts, decide_apply, hd']
    exact fun ho => hu (owner_of_decide hd ho).symm
  have hnames : namesUsers s'.graph e' = true := by
    rw [graph_handle h hr]
    exact namesUsers_update hn'
  obtain ⟨s₁, reply', hr'⟩ := handle_of_decide hwf hm' hnames hkeep
  obtain ⟨d₂, hd₂, hstatus', happ'⟩ := decide_of_handle hwf hm' hr'
  obtain rfl : d₂ = d' := Except.ok.inj (hd₂.symm.trans hkeep)
  refine ⟨s₁, ?_, ?_, happ'.rest.trans happ.rest, ?_⟩
  · rw [SNSServer.handleBoth, hr, ok_bind, hr', hstatus, hstatus']
    rfl
  · rw [happ'.accounts, happ.accounts]
  · rw [happ'.userinfo, happ.userinfo, List.append_assoc]

/-- Both requests are decided on before the first one if both are answered. -/
theorem decide_of_handleBoth (h : WellFormed s) (hm : e.1 ≠ .ADD_POST) (hm' : e'.1 ≠ .ADD_POST)
    (hu : e.2.username ≠ e'.2.username) {r : SNSServer × SNSStatus × SNSStatus}
    (hr : s.handleBoth tz e e' = .ok r) :
    ∃ d d', s.accounts.decide tz e = .ok d ∧ s.accounts.decide tz e' = .ok d' := by
  obtain ⟨⟨s', reply⟩, hr, hr'⟩ := bind_eq_ok.mp hr
  obtain ⟨⟨s₁, reply'⟩, hr', -⟩ := bind_eq_ok.mp hr'
  obtain ⟨d, hd, -, happ⟩ := decide_of_handle h hm hr
  obtain ⟨d', hd', -, -⟩ := decide_of_handle ((handle_outcome h hr).wellFormed h) hm' hr'
  refine ⟨d, d', hd, ?_⟩
  rw [happ.accounts, decide_apply] at hd'
  · exact hd'
  · exact fun ho => hu (owner_of_decide hd ho).symm

/-- Account requests of two different users commute, and they are answered if the times they write have a text. -/
theorem requests_commute (h : WellFormed s) (hm : e.1 ≠ .ADD_POST) (hm' : e'.1 ≠ .ADD_POST)
    (hu : e.2.username ≠ e'.2.username) (hn : namesUsers s.graph e = true) (hn' : namesUsers s.graph e' = true) :
    Commute tz s e e' ∧ (Writable tz e → Writable tz e' → ∃ r, s.handleBoth tz e e' = .ok r) := by
  constructor
  · intro s₁ status status' hr
    obtain ⟨d, d', hd, hd'⟩ := decide_of_handleBoth h hm hm' hu hr
    obtain ⟨s₂, hr₁, haccounts, hrest, hinfo⟩ := handleBoth_of_decide h hm hm' hn hn' hu hd hd'
    rw [hr₁] at hr
    cases hr
    obtain ⟨s₂, hr₂, haccounts', hrest', hinfo'⟩ := handleBoth_of_decide h hm' hm hn' hn hu.symm hd' hd
    refine ⟨s₂, hr₂, ?_, hrest'.trans hrest.symm, d.text, d'.text, hinfo, hinfo'⟩
    rw [haccounts, haccounts']
    refine apply_comm (fits_of_decide h hn' hd') (fits_of_decide h hn hd) ?_
    intro v hv hv'
    exact hu ((owner_of_decide hd hv').symm.trans (owner_of_decide hd' hv))
  · intro hw hw'
    obtain ⟨s', reply, hr⟩ := h.handle_total hw hn
    have hnames : namesUsers s'.graph e' = true := by
      rw [graph_handle h hr]
      exact namesUsers_update hn'
    obtain ⟨s₁, reply', hr'⟩ := ((handle_outcome h hr).wellFormed h).handle_total hw' hnames
    exact ⟨_, bind_eq_ok.mpr ⟨_, hr, bind_eq_ok.mpr ⟨_, hr', rfl⟩⟩⟩

/-! ## Two users who follow each other -/

theorem writable_followCall {a b : Str} {seconds : Int}
    (h : ∃ text, timestampToStr tz { seconds, nanos := 7 } = .ok text) : Writable tz (followCall a b seconds) := by
  constructor
  · exact fun _ => h
  · nofun

theorem requests_commute_mutual : ∃ s : SNSServer,
    [loginCall ['a'], loginCall ['b']].foldlM (handleRequest .utc) {} = .ok s ∧
      Commute .utc s (followCall ['a'] ['b'] 86400) (followCall ['b'] ['a'] 90061) ∧
      ∃ r, s.handleBoth .utc (followCall ['a'] ['b'] 86400) (followCall ['b'] ['a'] 90061) = .ok r := by
  have hrun : ∃ s, [loginCall ['a'], loginCall ['b']].foldlM (handleRequest .utc) {} = .ok s ∧
      namesUsers s.graph (followCall ['a'] ['b'] 86400) = true ∧
      namesUsers s.graph (followCall ['b'] ['a'] 90061) = true :=
    ⟨_, rfl, by decide +kernel, by decide +kernel⟩
  obtain ⟨s, hs, hn, hn'⟩ := hrun
  have hfresh : Fresh ({} : SNSServer) := ⟨rfl, rfl⟩
  have hreach : (serverMachine .utc).Reachable s := Lib.Machine.reachable_of_foldlM ⟨hfresh, rfl⟩ hs
  have hwf := wellFormed_of_reachable hreach
  obtain ⟨hcomm, hret⟩ := requests_commute hwf (by decide) (by decide) (by decide) hn hn'
  exact ⟨s, hs, hcomm, hret (writable_followCall ⟨_, rfl⟩) (writable_followCall ⟨_, rfl⟩)⟩

end DistributedSns.Server
