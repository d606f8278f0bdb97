import DistributedSns.Server.Model

/-!
# Well-formed servers

On a well-formed server the clients are the objects of the heap in their order, with distinct names, and the
lists of followed and following clients mirror each other. There each handler does one of a few things to the
lists.
-/

namespace DistributedSns.Server

open SNSServer

/-! ## The changes handlers make -/

/-- Client `k` after client `i` has followed client `j` at time `t`. -/
def linkClient (i j : Nat) (t : Timestamp) (k : Nat) (c : Client) : Client :=
  if k = i then
    { c with client_following := c.client_following ++ [j], follow_time := c.follow_time ++ [t] }
  else if k = j then { c with client_followers := c.client_followers ++ [i] }
  else c

/-- Client `k` after client `i` has stopped following client `j`. -/
def unlinkClient (i j : Nat) (k : Nat) (c : Client) : Client :=
  if k = i then
    { c with
      client_following := c.client_following.erase j
      follow_time := c.follow_time.eraseIdx (c.client_following.idxOf j) }
  else if k = j then { c with client_followers := c.client_followers.erase i }
  else c

namespace SNSServer

def addClient (s : SNSServer) (username : Str) : SNSServer :=
  { s with
    heap := s.heap ++ [{ username, connected := true }]
    client_db := s.client_db ++ [s.heap.length] }

def link (s : SNSServer) (i j : Nat) (t : Timestamp) : SNSServer :=
  { s with heap := s.heap.mapIdx (linkClient i j t) }

def unlink (s : SNSServer) (i j : Nat) : SNSServer :=
  { s with heap := s.heap.mapIdx (unlinkClient i j) }

end SNSServer

section

variable (i j k : Nat) (t : Timestamp) (c : Client)

@[simp] theorem username_linkClient : (linkClient i j t k c).username = c.username := by
  rw [linkClient]; split_ifs <;> rfl

@[simp] theorem connected_linkClient : (linkClient i j t k c).connected = c.connected := by
  rw [linkClient]; split_ifs <;> rfl

@[simp] theorem stream_linkClient : (linkClient i j t k c).stream = c.stream := by
  rw [linkClient]; split_ifs <;> rfl

theorem following_linkClient : (linkClient i j t k c).client_following =
    if k = i then c.client_following ++ [j] else c.client_following := by
  rw [linkClient]; split_ifs <;> rfl

theorem follow_time_linkClient : (linkClient i j t k c).follow_time =
    if k = i then c.follow_time ++ [t] else c.follow_time := by
  rw [linkClient]; split_ifs <;> rfl

theorem followers_linkClient {i j : Nat} (hne : i ≠ j) : (linkClient i j t k c).client_followers =
    if k = j then c.client_followers ++ [i] else c.client_followers := by
  rw [linkClient]
  split_ifs with hi hj
  · exact absurd (hi.symm.trans hj) hne
  · rfl
  · rfl
  · rfl

@[simp] theorem username_unlinkClient : (unlinkClient i j k c).username = c.username := by
  rw [unlinkClient]; split_ifs <;> rfl

@[simp] theorem connected_unlinkClient : (unlinkClient i j k c).connected = c.connected := by
  rw [unlinkClient]; split_ifs <;> rfl

@[simp] theorem stream_unlinkClient : (unlinkClient i j k c).stream = c.stream := by
  rw [unlinkClient]; split_ifs <;> rfl

theorem following_unlinkClient : (unlinkClient i j k c).client_following =
    if k = i then c.client_following.erase j else c.client_following := by
  rw [unlinkClient]; split_ifs <;> rfl

theorem follow_time_unlinkClient : (unlinkClient i j k c).follow_time =
    if k = i then c.follow_time.eraseIdx (c.client_following.idxOf j) else c.follow_time := by
  rw [unlinkClient]; split_ifs <;> rfl

theorem followers_unlinkClient {i j : Nat} (hne : i ≠ j) : (unlinkClient i j k c).client_followers =
    if k = j then c.client_followers.erase i else c.client_followers := by
  rw [unlinkClient]
  split_ifs with hi hj
  · exact absurd (hi.symm.trans hj) hne
  · rfl
  · rfl
  · rfl

end

theorem getElem?_link {s : SNSServer} {i j k : Nat} {t : Timestamp} :
    (s.link i j t).heap[k]? = s.heap[k]?.map (linkClient i j t k) :=
  List.getElem?_mapIdx

theorem getElem?_unlink {s : SNSServer} {i j k : Nat} :
    (s.unlink i j).heap[k]? = s.heap[k]?.map (unlinkClient i j k) :=
  List.getElem?_mapIdx

/-! ## Names of clients -/

section

variable {s s' : SNSServer}

theorem username?_eq_some {i : Nat} {c : Client} (hc : s.heap[i]? = some c) : s.username? i = some c.username := by
  rw [username?, hc, Option.map_some]

theorem username?_congr (hheap : s'.heap = s.heap) : s'.username? = s.username? := by
  funext i
  rw [username?, username?, hheap]

theorem username?_map {f : Nat → Client → Client} (hheap : ∀ k, s'.heap[k]? = s.heap[k]?.map (f k))
    (hf : ∀ k c, (f k c).username = c.username) : s'.username? = s.username? := by
  funext k
  rw [username?, username?, hheap, Option.map_map]
  congr 1
  funext c
  exact hf k c

theorem username?_link (i j : Nat) (t : Timestamp) : (s.link i j t).username? = s.username? := by
  apply username?_map (f := linkClient i j t)
  · intro k
    exact getElem?_link
  · simp

theorem username?_unlink (i j : Nat) : (s.unlink i j).username? = s.username? := by
  apply username?_map (f := unlinkClient i j)
  · intro k
    exact getElem?_unlink
  · simp

/-- What holds of all names is kept by changes which keep the names. -/
theorem forall_username {P : Str → Prop} (hname : s'.username? = s.username?)
    (h : ∀ (i : Nat) (c : Client), s.heap[i]? = some c → P c.username) (i : Nat) (c : Client)
    (hc : s'.heap[i]? = some c) : P c.username := by
  have hu : s.username? i = some c.username := by rw [← hname, username?_eq_some hc]
  rw [username?, Option.map_eq_some_iff] at hu
  obtain ⟨d, hd, hdc⟩ := hu
  rw [← hdc]
  exact h i d hd

end

/-! ## Well-formedness -/

/-- The pointers of the list point to clients. -/
def Valid (s : SNSServer) (refs : List Nat) : Prop := ∀ ref ∈ refs, ref < s.heap.length

def FollowersValid (s : SNSServer) : Prop :=
  ∀ (i : Nat) (c : Client), s.heap[i]? = some c → Valid s c.client_followers

structure WellFormed (s : SNSServer) : Prop where
  db : s.client_db = List.range s.heap.length
  names : ∀ (i j : Nat) (c d : Client), s.heap[i]? = some c → s.heap[j]? = some d →
    c.username = d.username → i = j
  connected : ∀ (i : Nat) (c : Client), s.heap[i]? = some c → c.connected = true
  following : ∀ (i : Nat) (c : Client), s.heap[i]? = some c → ∀ j ∈ c.client_following, j < s.heap.length
  followers : ∀ (i : Nat) (c : Client), s.heap[i]? = some c → ∀ j ∈ c.client_followers, j < s.heap.length
  mirror : ∀ (i j : Nat) (c d : Client), s.heap[i]? = some c → s.heap[j]? = some d →
    (j ∈ c.client_following ↔ i ∈ d.client_followers)
  irrefl : ∀ (i : Nat) (c : Client), s.heap[i]? = some c → i ∉ c.client_following
  nodup_following : ∀ (i : Nat) (c : Client), s.heap[i]? = some c → c.client_following.Nodup
  nodup_followers : ∀ (i : Nat) (c : Client), s.heap[i]? = some c → c.client_followers.Nodup
  times : ∀ (i : Nat) (c : Client), s.heap[i]? = some c → c.follow_time.length = c.client_following.length

theorem WellFormed.empty {s : SNSServer} (hheap : s.heap = []) (hdb : s.client_db = []) : WellFormed s := by
  constructor <;> simp [hheap, hdb]

/-- Files, posts and streams do not matter. -/
theorem WellFormed.congr {s s' : SNSServer} (h : WellFormed s) (hheap : s'.heap = s.heap)
    (hdb : s'.client_db = s.client_db) : WellFormed s' := by
  constructor
  · rw [hheap, hdb]; exact h.db
  · rw [hheap]; exact h.names
  · rw [hheap]; exact h.connected
  · rw [hheap]; exact h.following
  · rw [hheap]; exact h.followers
  · rw [hheap]; exact h.mirror
  · rw [hheap]; exact h.irrefl
  · rw [hheap]; exact h.nodup_following
  · rw [hheap]; exact h.nodup_followers
  · rw [hheap]; exact h.times

theorem lt_of_getElem? {s : SNSServer} {i : Nat} {c : Client} (h : s.heap[i]? = some c) :
    i < s.heap.length :=
  (List.getElem?_eq_some_iff.mp h).1

theorem WellFormed.getClient_eq_some {s : SNSServer} (h : WellFormed s) {u : Str} {i : Nat} :
    s.getClient u = some i ↔ ∃ c, s.heap[i]? = some c ∧ c.username = u := by
  have hp (j : Nat) : s.username? j = some u ↔ ∃ c, s.heap[j]? = some c ∧ c.username = u := by
    simp [username?]
  rw [getClient, h.db, List.find?_range_eq_some]
  simp only [decide_eq_true_eq, List.mem_range, Bool.not_eq_true', decide_eq_false_iff_not, hp]
  constructor
  · rintro ⟨hc, -, -⟩
    exact hc
  · rintro ⟨c, hc, hu⟩
    refine ⟨⟨c, hc, hu⟩, lt_of_getElem? hc, ?_⟩
    rintro j hj ⟨d, hd, hdu⟩
    have := h.names i j c d hc hd (hu.trans hdu.symm)
    omega

theorem WellFormed.getClient_eq_none {s : SNSServer} (h : WellFormed s) {u : Str} :
    s.getClient u = none ↔ ∀ (i : Nat) (c : Client), s.heap[i]? = some c → c.username ≠ u := by
  rw [Option.eq_none_iff_forall_ne_some]
  constructor
  · intro hn i c hc hu
    exact hn i (h.getClient_eq_some.mpr ⟨c, hc, hu⟩)
  · intro hn i hi
    obtain ⟨c, hc, hu⟩ := h.getClient_eq_some.mp hi
    exact hn i c hc hu

/-! ## The changes keep servers well-formed -/

section

variable {s : SNSServer}

theorem getElem?_addClient {u : Str} {k : Nat} {c : Client} (hc : (s.addClient u).heap[k]? = some c) :
    s.heap[k]? = some c ∨ k = s.heap.length ∧ c = { username := u, connected := true } :=
  getElem?_concat_eq_some.mp hc

theorem forall_username_addClient {P : Str → Prop}
    (h : ∀ (i : Nat) (c : Client), s.heap[i]? = some c → P c.username) {u : Str} (hu : P u) (i : Nat) (c : Client)
    (hc : (s.addClient u).heap[i]? = some c) : P c.username := by
  rcases getElem?_addClient hc with hc | ⟨-, rfl⟩
  · exact h i c hc
  · exact hu

theorem WellFormed.addClient (h : WellFormed s) {u : Str} (hu : s.getClient u = none) :
    WellFormed (s.addClient u) := by
  have hnew := h.getClient_eq_none.mp hu
  have hlen : (s.addClient u).heap.length = s.heap.length + 1 := by simp [SNSServer.addClient]
  constructor
  · rw [hlen, List.range_succ, SNSServer.addClient, h.db]
  · intro i j c d hc hd he
    rcases getElem?_addClient hc with hc | ⟨rfl, rfl⟩
    · rcases getElem?_addClient hd with hd | ⟨rfl, rfl⟩
      · exact h.names i j c d hc hd he
      · exact absurd he (hnew i c hc)
    · rcases getElem?_addClient hd with hd | ⟨rfl, rfl⟩
      · exact absurd he.symm (hnew j d hd)
      · rfl
  · intro i c hc
    rcases getElem?_addClient hc with hc | ⟨rfl, rfl⟩
    · exact h.connected i c hc
    · rfl
  · intro i c hc j hj
    rcases getElem?_addClient hc with hc | ⟨rfl, rfl⟩
    · rw [hlen]; exact (h.following i c hc j hj).trans (Nat.lt_succ_self _)
    · simp at hj
  · intro i c hc j hj
    rcases getElem?_addClient hc with hc | ⟨rfl, rfl⟩
    · rw [hlen]; exact (h.followers i c hc j hj).trans (Nat.lt_succ_self _)
    · simp at hj
  · intro i j c d hc hd
    rcases getElem?_addClient hc with hc | ⟨rfl, rfl⟩
    · rcases getElem?_addClient hd with hd | ⟨rfl, rfl⟩
      · exact h.mirror i j c d hc hd
      · have := h.following i c hc s.heap.length
        simp only [List.not_mem_nil, iff_false]
        exact fun hm => lt_irrefl _ (this hm)
    · rcases getElem?_addClient hd with hd | ⟨rfl, rfl⟩
      · have := h.followers j d hd s.heap.length
        simp only [List.not_mem_nil, false_iff]
        exact fun hm => lt_irrefl _ (this hm)
      · simp
  · intro i c hc
    rcases getElem?_addClient hc with hc | ⟨rfl, rfl⟩
    · exact h.irrefl i c hc
    · simp
  · intro i c hc
    rcases getElem?_addClient hc with hc | ⟨rfl, rfl⟩
    · exact h.nodup_following i c hc
    · simp
  · intro i c hc
    rcases getElem?_addClient hc with hc | ⟨rfl, rfl⟩
    · exact h.nodup_followers i c hc
    · simp
  · intro i c hc
    rcases getElem?_addClient hc with hc | ⟨rfl, rfl⟩
    · exact h.times i c hc
    · rfl

theorem WellFormed.link (h : WellFormed s) {i j : Nat} (hi : i < s.heap.length) (hj : j < s.heap.length)
    (hne : i ≠ j) {c : Client} (hc : s.heap[i]? = some c) (hnew : j ∉ c.client_following) (t : Timestamp) :
    WellFormed (s.link i j t) := by
  have hlen : (s.link i j t).heap.length = s.heap.length := List.length_mapIdx
  obtain ⟨d, hd⟩ : ∃ d, s.heap[j]? = some d := ⟨_, List.getElem?_eq_getElem hj⟩
  have hnew' : i ∉ d.client_followers := fun hm => hnew ((h.mirror i j c d hc hd).mpr hm)
  constructor
  · rw [hlen]; exact h.db
  all_goals simp only [getElem?_link, Option.map_eq_some_iff, hlen]
  · rintro k l _ _ ⟨c, hc, rfl⟩ ⟨d, hd, rfl⟩ he
    exact h.names k l c d hc hd (by simpa using he)
  · rintro k _ ⟨c, hc, rfl⟩
    simpa using h.connected k c hc
  · rintro k _ ⟨c, hc, rfl⟩ l hl
    rw [following_linkClient] at hl
    split_ifs at hl
    · rcases List.mem_append.mp hl with hl | hl
      · exact h.following k c hc l hl
      · rwa [List.mem_singleton.mp hl]
    · exact h.following k c hc l hl
  · rintro k _ ⟨c, hc, rfl⟩ l hl
    rw [followers_linkClient _ _ _ hne] at hl
    split_ifs at hl
    · rcases List.mem_append.mp hl with hl | hl
      · exact h.followers k c hc l hl
      · rwa [List.mem_singleton.mp hl]
    · exact h.followers k c hc l hl
  · rintro k l _ _ ⟨c, hc, rfl⟩ ⟨d, hd, rfl⟩
    have hmirror := h.mirror k l c d hc hd
    rw [following_linkClient, followers_linkClient _ _ _ hne]
    split_ifs with hk hl hl
    · subst hk hl; simp
    · subst hk; simp [hmirror, hl]
    · subst hl; simp [hmirror, hk]
    · exact hmirror
  · rintro k _ ⟨c', hc', rfl⟩
    rw [following_linkClient]
    split_ifs with hk
    · subst hk; simp [h.irrefl k c' hc', hne]
    · exact h.irrefl k c' hc'
  · rintro k _ ⟨c', hc', rfl⟩
    rw [following_linkClient]
    split_ifs with hk
    · subst hk
      rw [hc, Option.some.injEq] at hc'
      subst hc'
      exact List.nodup_append.mpr ⟨h.nodup_following k c hc, List.nodup_singleton j,
        fun a ha b hb => by rw [List.mem_singleton.mp hb]; rintro rfl; exact hnew ha⟩
    · exact h.nodup_following k c' hc'
  · rintro k _ ⟨d', hd', rfl⟩
    rw [followers_linkClient _ _ _ hne]
    split_ifs with hk
    · subst hk
      rw [hd, Option.some.injEq] at hd'
      subst hd'
      exact List.nodup_append.mpr ⟨h.nodup_followers k d hd, List.nodup_singleton i,
        fun a ha b hb => by rw [List.mem_singleton.mp hb]; rintro rfl; exact hnew' ha⟩
    · exact h.nodup_followers k d' hd'
  · rintro k _ ⟨c, hc, rfl⟩
    rw [following_linkClient, follow_time_linkClient]
    split_ifs
    · simp [h.times k c hc]
    · exact h.times k c hc

theorem WellFormed.unlink (h : WellFormed s) {i j : Nat} (hne : i ≠ j) : WellFormed (s.unlink i j) := by
  have hlen : (s.unlink i j).heap.length = s.heap.length := List.length_mapIdx
  constructor
  · rw [hlen]; exact h.db
  all_goals simp only [getElem?_unlink, Option.map_eq_some_iff, hlen]
  · rintro k l _ _ ⟨c, hc, rfl⟩ ⟨d, hd, rfl⟩ he
    exact h.names k l c d hc hd (by simpa using he)
  · rintro k _ ⟨c, hc, rfl⟩
    simpa using h.connected k c hc
  · rintro k _ ⟨c, hc, rfl⟩ l hl
    rw [following_unlinkClient] at hl
    split_ifs at hl
    · exact h.following k c hc l (List.mem_of_mem_erase hl)
    · exact h.following k c hc l hl
  · rintro k _ ⟨c, hc, rfl⟩ l hl
    rw [followers_unlinkClient _ _ hne] at hl
    split_ifs at hl
    · exact h.followers k c hc l (List.mem_of_mem_erase hl)
    · exact h.followers k c hc l hl
  · rintro k l _ _ ⟨c, hc, rfl⟩ ⟨d, hd, rfl⟩
    have hmirror := h.mirror k l c d hc hd
    rw [following_unlinkClient, followers_unlinkClient _ _ hne]
    split_ifs with hk hl hl
    · subst hk hl
      simp [(h.nodup_following k c hc).mem_erase_iff, (h.nodup_followers l d hd).mem_erase_iff]
    · subst hk
      simp [(h.nodup_following k c hc).mem_erase_iff, hmirror, hl]
    · subst hl
      simp [(h.nodup_followers l d hd).mem_erase_iff, hmirror, hk]
    · exact hmirror
  · rintro k _ ⟨c, hc, rfl⟩
    rw [following_unlinkClient]
    split_ifs
    · exact fun hm => h.irrefl k c hc (List.mem_of_mem_erase hm)
    · exact h.irrefl k c hc
  · rintro k _ ⟨c, hc, rfl⟩
    rw [following_unlinkClient]
    split_ifs
    · exact (h.nodup_following k c hc).erase j
    · exact h.nodup_following k c hc
  · rintro k _ ⟨c, hc, rfl⟩
    rw [followers_unlinkClient _ _ hne]
    split_ifs
    · exact (h.nodup_followers k c hc).erase i
    · exact h.nodup_followers k c hc
  · rintro k _ ⟨c, hc, rfl⟩
    rw [following_unlinkClient, follow_time_unlinkClient]
    have htimes := h.times k c hc
    split_ifs
    · by_cases hm : j ∈ c.client_following
      · rw [List.length_eraseIdx_of_lt (by rw [htimes]; exact List.idxOf_lt_length_iff.mpr hm),
          List.length_erase_of_mem hm, htimes]
      · have hidx : c.client_following.idxOf j = c.client_following.length := List.idxOf_eq_length_iff.mpr hm
        rw [List.eraseIdx_of_length_le (by rw [hidx, htimes]), List.erase_of_not_mem hm, htimes]
    · exact htimes

end

end DistributedSns.Server
