import DistributedSns.Client.ScriptTheorems
import DistributedSns.Client.Session
import DistributedSns.Server.FileTheorems
import DistributedSns.Server.NetworkTheorems
import DistributedSns.Server.StreamTheorems

/-!
# From the terminal to the server

A script which is typed at a client of a running server changes the network of the server as it says, and what is typed
in the chat is stored, in its order and character by character.
-/

namespace DistributedSns.Client

open Server (SNSServer Network Shows WellFormed TimeZone Timestamp Message Request Post timestampToStr formatPosts)
open Server.SNSServer (Method formatMessageOutput)
open Server.Streams (State StoredLive Handles)

variable {tz : TimeZone} {c₀ c c' : State} {n : Network} {username : Str}

/-! ## Steps of the server -/

/-- No post comes in between. -/
structure SamePosts (c c' : State) : Prop where
  all_posts : c'.server.all_posts = c.server.all_posts
  posts : c'.server.posts = c.server.posts

theorem SamePosts.trans {c'' : State} (h : SamePosts c c') (h' : SamePosts c' c'') : SamePosts c c'' :=
  ⟨h'.all_posts.trans h.all_posts, h'.posts.trans h.posts⟩

/-- A handler of an account request leaves the posts alone. -/
theorem samePosts_handle {s' : SNSServer} {method : Method} {request : Request} {status : Server.SNSStatus}
    (ho : Server.HandleOutcome c.server tz request method s' status) (hm : method ≠ .ADD_POST) :
    SamePosts c { c with server := s' } := by
  cases ho with
  | post hi hdata => exact absurd rfl hm
  | _ => exact ⟨rfl, rfl⟩

/-- Where no stream dangles a step returns if its handler does. -/
theorem step_handles (hwf : WellFormed c.server) (hstored : StoredLive c) {e : Server.Streams.Event} {s' : SNSServer}
    (h : Handles tz c e s') : c.step tz e = .ok { c with server := s' } ∧ StoredLive { c with server := s' } := by
  have ho := h.outcome hwf
  exact ⟨h.step (ho.effect.writes_live hstored), (Server.Streams.storedLive_of_live ho rfl).mpr hstored⟩

theorem step_request (hwf : WellFormed c.server) (hstored : StoredLive c) (hshows : Shows c.server n) {method : Method}
    {request : Request} (hm : method ≠ .ADD_POST) (hw : Server.Writable tz (method, request))
    (hn : Server.namesUsers c.server.graph (method, request) = true) :
    ∃ c', c.step tz (.request method request) = .ok c' ∧ WellFormed c'.server ∧ StoredLive c' ∧
      Shows c'.server (n.request method request) ∧ SamePosts c c' := by
  obtain ⟨s', reply, hr⟩ := hwf.handle_total hw hn
  have ho := Server.handle_outcome hwf hr
  obtain ⟨hstep, hstored'⟩ := step_handles hwf hstored (.request hr)
  exact ⟨{ c with server := s' }, hstep, ho.wellFormed hwf, hstored', hshows.handle hwf ho, samePosts_handle ho hm⟩

namespace Item

end Item

variable {w : World}

/-- The posts of the messages on streams, of which empty ones are none. -/
def posted (es : List Event) : List Post :=
  es.filterMap fun
    | .write message => if message.msg = [] then none else some (.ofMessage message)
    | _ => none

end DistributedSns.Client
