import DistributedSns.Server.Graph

/-!
# Accounts by name

What a server stores on its users, without its memory: names stand for the pointers, and where the order is that in
which the requests arrived (`client_db`, the lists of followers) there is none.
-/

namespace DistributedSns.Server

open SNSServer

/-! ## The abstract store -/

@[ext] structure Account where
  connected : Bool := true
  stream : Option StreamId := none
  following : List Str := []
  follow_time : List Timestamp := []
  followers : Multiset Str := 0

@[ext] structure Accounts where
  users : Multiset Str
  account : Str → Option Account

/-- What an account request does. -/
inductive Change where
  | keep
  | add (u : Str)
  | link (a b : Str) (t : Timestamp)
  | unlink (a b : Str)

/-- What a change does to the account of user `u`. -/
def Change.onAccount (u : Str) : Change → Option Account → Option Account
  | .keep, o => o
  | .add v, o => if u = v then some {} else o
  | .link a b t, o => o.map fun x => { x with
      following := if u = a then x.following ++ [b] else x.following
      follow_time := if u = a then x.follow_time ++ [t] else x.follow_time
      followers := if u = b then a ::ₘ x.followers else x.followers }
  | .unlink a b, o => o.map fun x => { x with
      following := if u = a then x.following.erase b else x.following
      follow_time := if u = a then x.follow_time.eraseIdx (x.following.idxOf b) else x.follow_time
      followers := if u = b then x.followers.erase a else x.followers }

namespace Accounts

def apply (k : Accounts) (c : Change) : Accounts where
  users := match c with
    | .add u => u ::ₘ k.users
    | _ => k.users
  account u := c.onAccount u (k.account u)

def hasUser (k : Accounts) (u : Str) : Bool := (k.account u).isSome

def follows (k : Accounts) (a b : Str) : Bool := (k.account a).any (·.following.contains b)

/-- The change, the text for the userinfo file and the status with which a request is answered. -/
structure Decision where
  change : Change := .keep
  text : Str := []
  status : SNSStatus := .SUCCESS

def login (k : Accounts) (request : Request) : Decision :=
  if k.hasUser request.username then {}
  else { change := .add request.username, text := userLine request.username }

def follow (k : Accounts) (tz : TimeZone) (request : Request) (b : Str) : Except Fault Decision :=
  if request.username = b then .ok { status := .FAILURE_INVALID }
  else if k.follows request.username b then .ok { status := .FAILURE_ALREADY_EXISTS }
  else do
    let timeStr ← timestampToStr tz request.timestamp
    return {
      change := .link request.username b request.timestamp
      text := followLine request.username b timeStr }

def unfollow (k : Accounts) (request : Request) (b : Str) : Decision :=
  if request.username = b then { status := .FAILURE_INVALID }
  else if k.follows request.username b then
    { change := .unlink request.username b, text := unfollowLine request.username b }
  else { status := .FAILURE_NOT_A_FOLLOWER }

/-- A post changes no account. -/
def decide (k : Accounts) (tz : TimeZone) (e : Method × Request) : Except Fault Decision :=
  match e.1 with
  | .LOGIN => .ok (k.login e.2)
  | .FOLLOW => do k.follow tz e.2 (← e.2.argument 0)
  | .UNFOLLOW => do return k.unfollow e.2 (← e.2.argument 0)
  | .ADD_POST => .ok {}

end Accounts

/-! ## The accounts of a server -/

namespace SNSServer

def names (s : SNSServer) (refs : List Nat) : List Str := refs.filterMap s.username?

def accountOf (s : SNSServer) (c : Client) : Account where
  connected := c.connected
  stream := c.stream
  following := s.names c.client_following
  follow_time := c.follow_time
  followers := s.names c.client_followers

def accounts (s : SNSServer) : Accounts where
  users := s.names s.client_db
  account u := (s.getClient u).bind fun ref => s.heap[ref]?.map s.accountOf

/-- What account requests do not touch. -/
def rest (s : SNSServer) : SNSServer := { s with heap := [], client_db := [], userinfo := [] }

end SNSServer

variable {s s' : SNSServer} {a b u : Str} {i j : Nat}

/-! ## Names for pointers -/

theorem WellFormed.username?_eq_some_iff (h : WellFormed s) : s.username? i = some u ↔ s.getClient u = some i := by
  rw [h.getClient_eq_some, username?, Option.map_eq_some_iff]

theorem exists_username? (hi : i < s.heap.length) : ∃ u, s.username? i = some u := by
  exact ⟨_, username?_eq_some (List.getElem?_eq_getElem hi)⟩

section

variable {refs : List Nat}

theorem names_congr (h : ∀ ref ∈ refs, s'.username? ref = s.username? ref) : s'.names refs = s.names refs :=
  List.filterMap_congr h

theorem names_concat (hj : s.username? j = some b) : s.names (refs ++ [j]) = s.names refs ++ [b] := by
  rw [names, List.filterMap_append, names]
  simp [hj]

theorem WellFormed.mem_names (h : WellFormed s) (hj : s.getClient b = some j) : b ∈ s.names refs ↔ j ∈ refs := by
  rw [SNSServer.names, List.mem_filterMap]
  constructor
  · rintro ⟨ref, hm, href⟩
    rw [h.username?_eq_some_iff, hj, Option.some.injEq] at href
    rwa [href]
  · intro hm
    exact ⟨j, hm, h.username?_eq_some_iff.mpr hj⟩

theorem WellFormed.names_erase (h : WellFormed s) (hj : s.getClient b = some j) :
    s.names (refs.erase j) = (s.names refs).erase b := by
  have hb := h.username?_eq_some_iff.mpr hj
  simp only [SNSServer.names]
  induction refs with
  | nil => rfl
  | cons ref refs ih =>
      by_cases hr : ref = j
      · subst hr
        rw [List.erase_cons_head, List.filterMap_cons_some hb, List.erase_cons_head]
      · rw [List.erase_cons_tail (by simpa using hr)]
        cases hu : s.username? ref with
        | none => rw [List.filterMap_cons_none hu, List.filterMap_cons_none hu, ih]
        | some v =>
            have hv : v ≠ b := by
              rintro rfl
              rw [h.username?_eq_some_iff, hj, Option.some.injEq] at hu
              exact hr hu.symm
            rw [List.filterMap_cons_some hu, List.filterMap_cons_some hu, ih, List.erase_cons_tail (by simpa using hv)]

theorem WellFormed.coe_names_erase (h : WellFormed s) (hj : s.getClient b = some j) :
    (s.names (refs.erase j) : Multiset Str) = (s.names refs : Multiset Str).erase b := by
  rw [h.names_erase hj, Multiset.coe_erase]
  congr!

theorem WellFormed.names_idxOf (h : WellFormed s) (hj : s.getClient b = some j) (hrefs : Valid s refs) :
    (s.names refs).idxOf b = refs.idxOf j := by
  have hb := h.username?_eq_some_iff.mpr hj
  simp only [SNSServer.names]
  induction refs with
  | nil => rfl
  | cons ref refs ih =>
      have ih := ih fun k hk => hrefs k (List.mem_cons_of_mem _ hk)
      obtain ⟨v, hu⟩ := exists_username? (hrefs ref List.mem_cons_self)
      rw [List.filterMap_cons_some hu]
      by_cases hr : ref = j
      · subst hr
        rw [hb, Option.some.injEq] at hu
        rw [hu, List.idxOf_cons_self, List.idxOf_cons_self]
      · have hv : v ≠ b := by
          rintro rfl
          rw [h.username?_eq_some_iff, hj, Option.some.injEq] at hu
          exact hr hu.symm
        rw [List.idxOf_cons_ne _ hv, List.idxOf_cons_ne _ hr, ih]

end

/-! ## The changes of the clients -/

theorem account_of_getClient (hi : s.getClient u = some i) {c : Client} (hc : s.heap[i]? = some c) :
    s.accounts.account u = some (s.accountOf c) := by
  simp only [accounts, hi, Option.bind_some, hc, Option.map_some]

theorem account_eq_none (hu : s.getClient u = none) : s.accounts.account u = none := by
  simp only [accounts, hu, Option.bind_none]

theorem WellFormed.hasUser_accounts (h : WellFormed s) (u : Str) : s.accounts.hasUser u = s.hasUser u := by
  rw [Accounts.hasUser, SNSServer.hasUser]
  cases hu : s.getClient u with
  | none =>
      rw [account_eq_none hu]
      rfl
  | some i =>
      obtain ⟨c, hc, -⟩ := h.getClient_eq_some.mp hu
      rw [account_of_getClient hu hc]
      rfl

/-- Two accounts agree if they agree for every client. -/
theorem WellFormed.account_ext (h : WellFormed s) {f : Str → Option Account → Option Account}
    (hclient : ∀ u, s'.getClient u = s.getClient u) (hnone : ∀ u, f u none = none)
    (hsome : ∀ u i c, s.getClient u = some i → s.heap[i]? = some c →
      (s'.heap[i]?).map s'.accountOf = f u (some (s.accountOf c))) (u : Str) :
    s'.accounts.account u = f u (s.accounts.account u) := by
  cases hu : s.getClient u with
  | none => rw [account_eq_none hu, account_eq_none ((hclient u).trans hu), hnone]
  | some i =>
      obtain ⟨c, hc, -⟩ := h.getClient_eq_some.mp hu
      rw [account_of_getClient hu hc, ← hsome u i c hu hc]
      simp only [accounts, hclient, hu, Option.bind_some]

theorem accounts_congr (hheap : s'.heap = s.heap) (hdb : s'.client_db = s.client_db) : s'.accounts = s.accounts := by
  have hname := username?_congr hheap
  have hclient (u : Str) : s'.getClient u = s.getClient u := getClient_congr hdb (fun i _ => congrFun hname i) u
  have hof : s'.accountOf = s.accountOf := by
    funext c
    simp only [accountOf, names, hname]
  simp only [accounts, names, hname, hdb, hclient, hof, hheap]

theorem accounts_addClient (h : WellFormed s) (hnew : s.getClient u = none) :
    (s.addClient u).accounts = s.accounts.apply (.add u) := by
  have hwf := h.addClient hnew
  have hold (k : Nat) (hk : k < s.heap.length) : (s.addClient u).heap[k]? = s.heap[k]? := by
    rw [SNSServer.addClient, List.getElem?_append_left hk]
  have hlast : (s.addClient u).heap[s.heap.length]? = some { username := u, connected := true } :=
    List.getElem?_concat_length
  have hnames (refs : List Nat) (hrefs : Valid s refs) : (s.addClient u).names refs = s.names refs := by
    apply names_congr
    intro k hk
    rw [username?, username?, hold k (hrefs k hk)]
  have hdb : Valid s s.client_db := by
    intro k hk
    rw [h.db, List.mem_range] at hk
    exact hk
  ext1
  · have husers : (s.addClient u).names (s.client_db ++ [s.heap.length]) = s.names s.client_db ++ [u] := by
      rw [names_concat (username?_eq_some hlast), hnames _ hdb]
    simp only [accounts, Accounts.apply, SNSServer.addClient] at husers ⊢
    rw [husers, ← Multiset.coe_add, add_comm]
    rfl
  · funext v
    have hv := h.getClient_addClient hnew v
    simp only [Accounts.apply, Change.onAccount]
    split_ifs at hv ⊢ with huv
    · rw [account_of_getClient hv hlast]
      rfl
    · cases hi : s.getClient v with
      | none => rw [account_eq_none (hv.trans hi), account_eq_none hi]
      | some i =>
          obtain ⟨c, hc, -⟩ := h.getClient_eq_some.mp hi
          have hi' := hv.trans hi
          rw [account_of_getClient hi hc, account_of_getClient hi' ((hold i (lt_of_getElem? hc)).trans hc)]
          simp only [accountOf, hnames _ (h.following i c hc), hnames _ (h.followers i c hc)]

/-- Which of the clients `i` and `j` a client is can be seen from its name. -/
theorem WellFormed.index_eq_iff (h : WellFormed s) (hi : s.getClient a = some i) {k : Nat}
    (hk : s.getClient u = some k) : k = i ↔ u = a := by
  constructor
  · rintro rfl
    exact h.getClient_inj hk hi
  · rintro rfl
    exact Option.some.inj (hk.symm.trans hi)

theorem accounts_link (h : WellFormed s) (hi : s.getClient a = some i) (hj : s.getClient b = some j) (hne : i ≠ j)
    (t : Timestamp) : (s.link i j t).accounts = s.accounts.apply (.link a b t) := by
  have hname : (s.link i j t).username? = s.username? := username?_link i j t
  have ha := h.username?_eq_some_iff.mpr hi
  have hb := h.username?_eq_some_iff.mpr hj
  ext1
  · simp only [accounts, Accounts.apply, names, hname]
    rfl
  · funext u
    refine h.account_ext (f := fun u => Change.onAccount u (.link a b t)) (getClient_link i j t) (fun u => rfl) ?_ u
    intro u k c hk hc
    rw [getElem?_link, hc, Option.map_some, Option.map_some, Change.onAccount, Option.map_some, Option.some.injEq]
    have hki := h.index_eq_iff hi hk
    have hkj := h.index_eq_iff hj hk
    ext1
    · exact connected_linkClient i j k t c
    · exact stream_linkClient i j k t c
    · simp only [accountOf, names, hname, following_linkClient, hki]
      split_ifs
      · exact names_concat hb
      · rfl
    · simp only [accountOf, follow_time_linkClient, hki]
    · simp only [accountOf, names, hname, followers_linkClient k t c hne, hkj]
      split_ifs
      · have hfollowers : s.names (c.client_followers ++ [i]) = s.names c.client_followers ++ [a] := names_concat ha
        rw [names] at hfollowers
        rw [hfollowers, ← Multiset.coe_add, add_comm]
        rfl
      · rfl

theorem accounts_unlink (h : WellFormed s) (hi : s.getClient a = some i) (hj : s.getClient b = some j) (hne : i ≠ j) :
    (s.unlink i j).accounts = s.accounts.apply (.unlink a b) := by
  have hname : (s.unlink i j).username? = s.username? := username?_unlink i j
  ext1
  · simp only [accounts, Accounts.apply, names, hname]
    rfl
  · funext u
    refine h.account_ext (f := fun u => Change.onAccount u (.unlink a b)) (getClient_unlink i j) (fun u => rfl) ?_ u
    intro u k c hk hc
    rw [getElem?_unlink, hc, Option.map_some, Option.map_some, Change.onAccount, Option.map_some, Option.some.injEq]
    have hki := h.index_eq_iff hi hk
    have hkj := h.index_eq_iff hj hk
    ext1
    · exact connected_unlinkClient i j k c
    · exact stream_unlinkClient i j k c
    · simp only [accountOf, names, hname, following_unlinkClient, hki]
      split_ifs
      · exact h.names_erase hj
      · rfl
    · simp only [accountOf, follow_time_unlinkClient, hki]
      rw [h.names_idxOf hj (h.following k c hc)]
    · simp only [accountOf, names, hname, followers_unlinkClient k c hne, hkj]
      split_ifs
      · exact h.coe_names_erase hi
      · rfl

end DistributedSns.Server
